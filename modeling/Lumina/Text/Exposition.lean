import Lumina.Text.Cut
import Mathlib.Data.Nat.Digits.Defs

/-!
# The text exposition format

A metric is exposed as a line with its name, its labels between braces and its value; lines that
start with a hash are comments.  What is written is read again (`read_write`), as long as no name
has a character in it that ends it.

## Main definitions

* `Sample` : a metric with its labels and its value.
* `Sample.text`, `write` : the line of a sample, and the text of comments and samples.
* `readSample`, `read` : the samples of a text, if all of its lines can be read.
-/

namespace Lumina

namespace Exposition

open Text

/-- A metric with its labels, and its value. -/
structure Sample where
  name : List Char
  labels : List (List Char × List Char)
  value : ℕ
  deriving DecidableEq

/-! ### Writing -/

/-- The labels, each after what separates it from the one before, and the brace that closes
them. -/
def labelsText : List (List Char × List Char) → List Char
  | [] => []
  | [(key, value)] => key ++ '=' :: '"' :: (value ++ ['"', '\x7d'])
  | (key, value) :: rest => key ++ '=' :: '"' :: (value ++ '"' :: ',' :: labelsText rest)

/-- The line of a sample. -/
def Sample.text (x : Sample) : List Char :=
  x.name ++ '\x7b' :: (labelsText x.labels ++ ' ' :: Nat.toDigits 10 x.value)

/-- A line: a comment, which starts with a hash, or a sample. -/
inductive Line where
  | comment (text : List Char)
  | sample (x : Sample)

def Line.text : Line → List Char
  | comment text => '#' :: text
  | sample x => x.text

def Line.sample? : Line → Option Sample
  | comment _ => none
  | sample x => some x

/-- The text of some lines. -/
def write (lines : List Line) : List Char := (lines.map Line.text).flatMap (· ++ ['\n'])

/-! ### Reading -/

/-- The labels up to the brace that closes them, and what stands after it. -/
def readLabels : ℕ → List Char → Option (List (List Char × List Char) × List Char)
  | 0, _ => none
  | fuel + 1, s =>
    (cut '=' s).bind fun (key, s) =>
      match s with
      | '"' :: s =>
        (cut '"' s).bind fun (value, s) =>
          match s with
          | ',' :: s => (readLabels fuel s).map fun (rest, s) => ((key, value) :: rest, s)
          | '\x7d' :: s => some ([(key, value)], s)
          | _ => none
      | _ => none

/-- The number that some digits stand for. -/
def readNat (s : List Char) : Option ℕ :=
  if s ≠ [] ∧ s.all Char.isDigit then some (Nat.ofDigitChars 10 s 0) else none

/-- The sample of a line. -/
def readSample (s : List Char) : Option Sample :=
  (cut '\x7b' s).bind fun (name, s) =>
    (readLabels s.length s).bind fun (labels, s) =>
      match s with
      | ' ' :: s => (readNat s).map fun value => ⟨name, labels, value⟩
      | _ => none

/-- The line is not a comment. -/
def uncommented (s : List Char) : Bool := s.head? != some '#'

/-- The samples of a text. -/
def read (s : List Char) : Option (List Sample) :=
  ((pieces '\n' s).filter uncommented).mapM readSample

/-! ### What is written is read -/

/-- The names end where they should. -/
structure Sample.Plain (x : Sample) : Prop where
  name : ∀ c ∈ x.name, c ≠ '\x7b' ∧ c ≠ '\n'
  head : x.name.head? ≠ some '#'
  labels : x.labels ≠ []
  key : ∀ p ∈ x.labels, ∀ c ∈ p.1, c ≠ '=' ∧ c ≠ '\n'
  value : ∀ p ∈ x.labels, ∀ c ∈ p.2, c ≠ '"' ∧ c ≠ '\n'

/-- A comment stays on its line, and a sample is plain. -/
def Line.Plain : Line → Prop
  | comment text => '\n' ∉ text
  | sample x => x.Plain

theorem readNat_toDigits (n : ℕ) : readNat (Nat.toDigits 10 n) = some n := by
  have hall : (Nat.toDigits 10 n).all Char.isDigit = true :=
    List.all_eq_true.2 fun c hc => Nat.isDigit_of_mem_toDigits (by decide) (by decide) hc
  rw [readNat, if_pos ⟨Nat.toDigits_ne_nil, hall⟩, Nat.ofDigitChars_ten_toDigits]

theorem readLabels_labelsText {labels : List (List Char × List Char)} {fuel : ℕ} {s : List Char}
    (hne : labels ≠ []) (hkey : ∀ p ∈ labels, '=' ∉ p.1) (hvalue : ∀ p ∈ labels, '"' ∉ p.2)
    (hfuel : labels.length ≤ fuel) :
    readLabels fuel (labelsText labels ++ s) = some (labels, s) := by
  induction labels generalizing fuel with
  | nil => exact absurd rfl hne
  | cons p rest ih =>
    obtain ⟨key, value⟩ := p
    obtain ⟨fuel, rfl⟩ : ∃ n, fuel = n + 1 :=
      Nat.exists_eq_add_one.2 (Nat.lt_of_lt_of_le (Nat.succ_pos _) hfuel)
    have hk : '=' ∉ key := hkey (key, value) List.mem_cons_self
    have hv : '"' ∉ value := hvalue (key, value) List.mem_cons_self
    cases rest with
    | nil => simp [labelsText, readLabels, cut_append hk, cut_append hv]
    | cons q rest =>
      have hrest : readLabels fuel (labelsText (q :: rest) ++ s) = some (q :: rest, s) :=
        ih (List.cons_ne_nil q rest) (fun p hp => hkey p (List.mem_cons_of_mem _ hp))
          (fun p hp => hvalue p (List.mem_cons_of_mem _ hp)) (Nat.le_of_succ_le_succ hfuel)
      simp [labelsText, readLabels, cut_append hk, cut_append hv, hrest]

theorem length_le_labelsText (labels : List (List Char × List Char)) :
    labels.length ≤ (labelsText labels).length := by
  induction labels with
  | nil => simp
  | cons p rest ih =>
    obtain ⟨key, value⟩ := p
    cases rest with
    | nil =>
      simp only [labelsText, List.length_append, List.length_cons]
      omega
    | cons q rest =>
      simp only [labelsText, List.length_append, List.length_cons] at ih ⊢
      omega

/-- **A sample is read from its line.** -/
theorem readSample_text {x : Sample} (h : x.Plain) : readSample x.text = some x := by
  have hname : '\x7b' ∉ x.name := fun hc => (h.name _ hc).1 rfl
  have hlabels : readLabels (labelsText x.labels ++ ' ' :: Nat.toDigits 10 x.value).length
      (labelsText x.labels ++ ' ' :: Nat.toDigits 10 x.value) =
        some (x.labels, ' ' :: Nat.toDigits 10 x.value) := by
    refine readLabels_labelsText h.labels (fun p hp hc => (h.key p hp _ hc).1 rfl)
      (fun p hp hc => (h.value p hp _ hc).1 rfl) ?_
    have := length_le_labelsText x.labels
    rw [List.length_append]
    omega
  rw [readSample, Sample.text, cut_append hname, Option.bind_some]
  dsimp only
  rw [hlabels, Option.bind_some]
  show (readNat (Nat.toDigits 10 x.value)).map _ = some x
  rw [readNat_toDigits, Option.map_some]

/-! ### The lines -/

theorem newline_not_mem_labelsText {labels : List (List Char × List Char)}
    (hkey : ∀ p ∈ labels, '\n' ∉ p.1) (hvalue : ∀ p ∈ labels, '\n' ∉ p.2) :
    '\n' ∉ labelsText labels := by
  induction labels with
  | nil => simp [labelsText]
  | cons p rest ih =>
    obtain ⟨key, value⟩ := p
    have hk : '\n' ∉ key := hkey (key, value) List.mem_cons_self
    have hv : '\n' ∉ value := hvalue (key, value) List.mem_cons_self
    have hrest := ih (fun p hp => hkey p (List.mem_cons_of_mem _ hp))
      fun p hp => hvalue p (List.mem_cons_of_mem _ hp)
    cases rest with
    | nil => simp [labelsText, hk, hv]
    | cons q rest => simpa [labelsText, hk, hv] using hrest

theorem newline_not_mem_toDigits (n : ℕ) : '\n' ∉ Nat.toDigits 10 n := by
  intro h
  exact absurd (Nat.isDigit_of_mem_toDigits (by decide) (by decide) h) (by decide)

theorem Line.newline_not_mem_text {line : Line} (h : line.Plain) : '\n' ∉ line.text := by
  cases line with
  | comment text =>
    have htext : '\n' ∉ text := h
    simp [Line.text, htext]
  | sample x =>
    have hname : '\n' ∉ x.name := fun hc => (h.name _ hc).2 rfl
    have hlabels : '\n' ∉ labelsText x.labels :=
      newline_not_mem_labelsText (fun p hp hc => (h.key p hp _ hc).2 rfl)
        fun p hp hc => (h.value p hp _ hc).2 rfl
    simp [Line.text, Sample.text, hname, hlabels, newline_not_mem_toDigits]

/-- A sample does not start with a hash. -/
theorem Sample.uncommented_text {x : Sample} (h : x.Plain) : uncommented x.text = true := by
  unfold Sample.text uncommented
  cases hname : x.name with
  | nil => simp
  | cons c name =>
    have hhead := h.head
    rw [hname] at hhead
    simpa using hhead

/-- **The samples of a text are the ones that were written.** -/
theorem read_write {lines : List Line} (h : ∀ l ∈ lines, l.Plain) :
    read (write lines) = some (lines.filterMap Line.sample?) := by
  have hpieces : pieces '\n' (write lines) = lines.map Line.text := by
    refine pieces_flatMap fun l hl => ?_
    obtain ⟨line, hline, rfl⟩ := List.mem_map.1 hl
    exact line.newline_not_mem_text (h line hline)
  rw [read, hpieces]
  clear hpieces
  induction lines with
  | nil => rfl
  | cons line lines ih =>
    have ih := ih fun l hl => h l (List.mem_cons_of_mem _ hl)
    have hline := h line List.mem_cons_self
    cases line with
    | comment text =>
      rw [List.map_cons, List.filter_cons_of_neg (by simp [Line.text, uncommented]), ih]
      rfl
    | sample x =>
      have hread : readSample (Line.sample x).text = some x := readSample_text hline
      have hkept : uncommented (Line.sample x).text = true := Sample.uncommented_text hline
      rw [List.map_cons, List.filter_cons_of_pos hkept, List.mapM_cons, hread, ih]
      rfl

end Exposition

end Lumina
