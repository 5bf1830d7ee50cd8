import Lumina.Model.SortableRows
import Lumina.Sorting.ByKey
import Mathlib.Data.List.Lex
import Mathlib.Data.Nat.Digits.Defs
import Mathlib.Tactic.Ring

/-!
# Sorting by a column of times

The times of the API are ISO texts.  `parseFloat` reads the year off such a text and nothing after
it, so the comparator takes all times of one year for equal, and the stable sort leaves them as it
found them.  The table is chronological in both directions exactly if no two times of one year
differ (`timeColumn_iff`).

## Main definitions

* `Timestamp k` : a time of UTC with `k` digits of a second, `Timestamp.iso` : its text.
* `JsEnv.KeepsIntegers` : what is known of the numbers of the language.
* `SortedByTime` : the table is chronological, and its other direction is the reverse.
-/

namespace Lumina

/-- A time of UTC, with `k` digits of a second. -/
@[ext] structure Timestamp (k : ℕ) where
  year : ℕ
  month : ℕ
  day : ℕ
  hour : ℕ
  minute : ℕ
  second : ℕ
  fraction : ℕ
  year_lt : year < 10 ^ 4
  month_mem : 1 ≤ month ∧ month ≤ 12
  day_mem : 1 ≤ day ∧ day ≤ 31
  hour_lt : hour < 24
  minute_lt : minute < 60
  second_le : second ≤ 60
  fraction_lt : fraction < 10 ^ k

/-- The digits of a number, at a fixed width. -/
def paddedDigits (width n : ℕ) : JsString :=
  (List.range width).reverse.map fun i => UInt16.ofNat (48 + n / 10 ^ i % 10)

namespace Timestamp

variable {k : ℕ}

/-- The components, from the greatest to the least. -/
def fields (t : Timestamp k) : List ℕ :=
  [t.year, t.month, t.day, t.hour, t.minute, t.second, t.fraction]

theorem fields_injective : Function.Injective (fields : Timestamp k → List ℕ) := by
  intro s t h
  simp only [fields, List.cons.injEq, and_true] at h
  ext <;> tauto

/-- The order of time is that of the components. -/
instance : LinearOrder (Timestamp k) := LinearOrder.lift' fields fields_injective

/-- `YYYY-MM-DDThh:mm:ssZ`, with a fraction where there are digits for it. -/
def iso (t : Timestamp k) : JsString :=
  paddedDigits 4 t.year ++ units "-" ++ paddedDigits 2 t.month ++ units "-" ++
    paddedDigits 2 t.day ++ units "T" ++ paddedDigits 2 t.hour ++ units ":" ++
    paddedDigits 2 t.minute ++ units ":" ++ paddedDigits 2 t.second ++
    (if k = 0 then [] else units "." ++ paddedDigits k t.fraction) ++ units "Z"

theorem lt_of_year_lt {s t : Timestamp k} (h : s.year < t.year) : s < t := by
  show s.fields < t.fields
  exact List.cons_lt_cons_iff.2 (.inl h)

end Timestamp

/-- Integers of 53 bits are numbers. -/
def JsEnv.KeepsIntegers (env : JsEnv) : Prop :=
  ∀ n : ℤ, |n| ≤ 2 ^ 53 → env.round n = .finite n

/-- The order of a direction. -/
def SortDir.InOrder {τ : Type} [LE τ] (s t : τ) : SortDir → Prop
  | asc => s ≤ t
  | desc => t ≤ s

/-- In each direction the rows are in the order of their times, and for distinct times a click on
the column reverses them. -/
structure SortedByTime {κ : Type} [DecidableEq κ] {k : ℕ} (env : JsEnv) (key : κ)
    (time : (κ → JsValue) → Timestamp k) (rows : List (κ → JsValue)) : Prop where
  perm : ∀ dir, (SortState.sorted env ⟨key, dir⟩ rows).Perm rows
  inOrder : ∀ dir, (SortState.sorted env ⟨key, dir⟩ rows).Pairwise
    fun a b => SortDir.InOrder (time a) (time b) dir
  reversed : (rows.map time).Nodup → ∀ dir,
    ((SortState.mk key dir).toggleSort key).sorted env rows =
      (SortState.sorted env ⟨key, dir⟩ rows).reverse

/-! ### The year of a text -/

section Parse

variable {c : UInt16} {digits rest : JsString}

theorem not_mem_of_isDigit {l : JsString} (hl : l.any isDigit = false)
    (hc : isDigit c = true) : c ∉ l := by
  intro h
  exact List.any_eq_false.1 hl c h hc

/-- The digits up to a hyphen are the number. -/
theorem parseFloat_digits (round : ℚ → F64) (hne : digits ≠ [])
    (hdigits : ∀ c ∈ digits, isDigit c = true) :
    parseFloat round (digits ++ units "-" ++ rest) = round (digitsValue digits) := by
  obtain ⟨c, ds, rfl⟩ := List.exists_cons_of_ne_nil hne
  have hc := hdigits c List.mem_cons_self
  have hspace : c ∉ jsWhitespace := not_mem_of_isDigit (by decide) hc
  have hminus : c ∉ units "-" := not_mem_of_isDigit (by decide) hc
  have hplus : c ∉ units "+" := not_mem_of_isDigit (by decide) hc
  have hinf : (units "Infinity").isPrefixOf ((c :: ds) ++ units "-" ++ rest) = false := by
    have hI : (73 : UInt16) ≠ c := fun h => by
      rw [← h] at hc
      exact absurd hc (by decide)
    show List.isPrefixOf (73 :: units "nfinity") (c :: (ds ++ units "-" ++ rest)) = false
    simp [List.isPrefixOf, hI]
  have htext : (c :: ds) ++ units "-" ++ rest = (c :: ds) ++ 45 :: rest := by
    rw [List.append_assoc]
    rfl
  have htake : ((c :: ds) ++ units "-" ++ rest).takeWhile isDigit = c :: ds := by
    rw [htext, List.takeWhile_append_of_pos hdigits, List.takeWhile_cons_of_neg (by decide),
      List.append_nil]
  have hdrop : ((c :: ds) ++ units "-" ++ rest).dropWhile isDigit = 45 :: rest := by
    rw [htext, List.dropWhile_append_of_pos hdigits, List.dropWhile_cons_of_neg (by decide)]
  have hstart : takeSign (((c :: ds) ++ units "-" ++ rest).dropWhile (· ∈ jsWhitespace)) =
      (false, (c :: ds) ++ units "-" ++ rest) := by
    rw [List.cons_append, List.cons_append, List.dropWhile_cons_of_neg (by simpa using hspace)]
    simp [takeSign, hminus, hplus]
  have hfraction : takeFraction (45 :: rest) = ([], 45 :: rest) := rfl
  have hexponent : takeExponent (45 :: rest) = 0 := rfl
  unfold parseFloat
  simp only [hstart, hinf, htake, hdrop, hfraction, hexponent]
  simp

/-- A digit as a code unit. -/
theorem toNat_digit (n : ℕ) : (UInt16.ofNat (48 + n % 10)).toNat = 48 + n % 10 := by
  have := Nat.mod_lt n (y := 10) (by omega)
  rw [UInt16.toNat_ofNat']
  omega

theorem isDigit_paddedDigits {width n : ℕ} (hc : c ∈ paddedDigits width n) : isDigit c = true := by
  obtain ⟨i, -, rfl⟩ := List.mem_map.1 hc
  have hnat := toNat_digit (n / 10 ^ i)
  have := Nat.mod_lt (n / 10 ^ i) (y := 10) (by omega)
  simp only [isDigit, Bool.and_eq_true, decide_eq_true_eq, UInt16.le_iff_toNat_le, hnat]
  exact ⟨by simp, by simp; omega⟩

theorem paddedDigits_succ (width n : ℕ) : paddedDigits (width + 1) n =
    UInt16.ofNat (48 + n / 10 ^ width % 10) :: paddedDigits width n := by
  simp [paddedDigits, List.range_succ]

/-- The digits of a number are read back, after any others. -/
theorem foldl_paddedDigits (width n m : ℕ) :
    (paddedDigits width n).foldl (fun n c => 10 * n + (c.toNat - 48)) m =
      m * 10 ^ width + n % 10 ^ width := by
  induction width generalizing m with
  | zero => simp [paddedDigits, Nat.mod_one]
  | succ width ih =>
    rw [paddedDigits_succ, List.foldl_cons, ih, toNat_digit, Nat.mod_pow_succ]
    simp only [Nat.add_sub_cancel_left]
    ring

theorem digitsValue_paddedDigits {width n : ℕ} (h : n < 10 ^ width) :
    digitsValue (paddedDigits width n) = n := by
  rw [digitsValue, foldl_paddedDigits, Nat.zero_mul, Nat.zero_add, Nat.mod_eq_of_lt h]

end Parse

/-! ### The comparator -/

variable {env : JsEnv} {k : ℕ} {κ : Type} {key : κ} {dir : SortDir}
  {time : (κ → JsValue) → Timestamp k} {rows : List (κ → JsValue)}

/-- A time is compared as its year. -/
theorem sortNumber_iso (henv : env.KeepsIntegers) (t : Timestamp k) :
    sortNumber env (.string t.iso) = .finite t.year := by
  have hne : paddedDigits 4 t.year ≠ [] := by
    rw [paddedDigits_succ]
    simp
  have htext : ∃ rest, t.iso = paddedDigits 4 t.year ++ units "-" ++ rest := by
    simp only [Timestamp.iso, List.append_assoc]
    exact ⟨_, rfl⟩
  obtain ⟨rest, hrest⟩ := htext
  have hyear : |(t.year : ℤ)| ≤ 2 ^ 53 := by
    have := t.year_lt
    rw [abs_of_nonneg (Int.natCast_nonneg _)]
    omega
  show parseFloat env.round t.iso = _
  rw [hrest, parseFloat_digits env.round hne fun c => isDigit_paddedDigits,
    digitsValue_paddedDigits t.year_lt]
  exact_mod_cast henv t.year hyear

theorem compareRows_ne_gt_iff (henv : env.KeepsIntegers) {a b : κ → JsValue} {s t : Timestamp k}
    (ha : a key = .string s.iso) (hb : b key = .string t.iso) :
    compareRows env ⟨key, dir⟩ a b ≠ .gt ↔ dir.InOrder s.year t.year := by
  have hcmp : compareValues env (.string s.iso) (.string t.iso) =
      compare (s.year : ℚ) (t.year : ℚ) := by
    simp [compareValues, sortNumber_iso henv, signOfDifference]
  unfold compareRows
  simp only [ha, hb, hcmp]
  cases dir with
  | asc =>
    rw [if_pos rfl, Ne, compare_gt_iff_gt, not_lt, Nat.cast_le]
    rfl
  | desc =>
    rw [if_neg (by simp), Ne, Ordering.swap_eq_gt, compare_lt_iff_lt, not_lt, Nat.cast_le]
    rfl

/-- The key of a direction. -/
theorem sorted_eq (henv : env.KeepsIntegers)
    (hrows : ∀ row ∈ rows, row key = .string (time row).iso) :
    SortState.sorted env ⟨key, .asc⟩ rows = Sorting.byKey (fun row => (time row).year) rows ∧
      SortState.sorted env ⟨key, .desc⟩ rows =
        Sorting.byKey (fun row => OrderDual.toDual (time row).year) rows := by
  have hcongr : ∀ {r s : (κ → JsValue) → (κ → JsValue) → Bool},
      (∀ a ∈ rows, ∀ b ∈ rows, r a b = s a b) → rows.mergeSort r = rows.mergeSort s := by
    intro r s h
    have hmap := List.map_mergeSort (f := id) h
    simpa using hmap
  constructor
  · refine hcongr fun a ha b hb => ?_
    rw [decide_eq_decide]
    exact compareRows_ne_gt_iff henv (hrows a ha) (hrows b hb)
  · refine hcongr fun a ha b hb => ?_
    rw [decide_eq_decide]
    exact compareRows_ne_gt_iff henv (hrows a ha) (hrows b hb)

theorem sorted_perm : (SortState.sorted env ⟨key, dir⟩ rows).Perm rows :=
  List.mergeSort_perm rows _

/-- **A direction is chronological** exactly if the times of each year were in its order. -/
theorem sorted_inOrder_iff (henv : env.KeepsIntegers)
    (hrows : ∀ row ∈ rows, row key = .string (time row).iso) :
    ((SortState.sorted env ⟨key, dir⟩ rows).Pairwise
        fun a b => dir.InOrder (time a) (time b)) ↔
      rows.Pairwise fun a b => (time a).year = (time b).year → dir.InOrder (time a) (time b) := by
  obtain ⟨hasc, hdesc⟩ := sorted_eq henv hrows
  cases dir with
  | asc =>
    rw [hasc]
    exact Sorting.pairwise_byKey_iff fun a b h => (Timestamp.lt_of_year_lt h).le
  | desc =>
    rw [hdesc, Sorting.pairwise_byKey_iff]
    · rfl
    · exact fun a b h => (Timestamp.lt_of_year_lt h).le

/-- **The table is chronological** exactly if no two times of one year differ. -/
theorem timeColumn_iff [DecidableEq κ] (henv : env.KeepsIntegers)
    (hrows : ∀ row ∈ rows, row key = .string (time row).iso) :
    SortedByTime env key time rows ↔
      ∀ a ∈ rows, ∀ b ∈ rows, (time a).year = (time b).year → time a = time b := by
  constructor
  · intro h
    have hasc := (sorted_inOrder_iff henv hrows).1 (h.inOrder .asc)
    have hdesc := (sorted_inOrder_iff henv hrows).1 (h.inOrder .desc)
    have hsame : rows.Pairwise fun a b => (time a).year = (time b).year → time a = time b := by
      refine (hasc.and hdesc).imp ?_
      intro a b hab hyear
      exact le_antisymm (hab.1 hyear) (hab.2 hyear)
    have hflip : rows.Pairwise
        (flip fun a b => (time a).year = (time b).year → time a = time b) := by
      refine hsame.imp ?_
      intro a b hab hyear
      exact (hab hyear.symm).symm
    exact hsame.forall_of_forall_of_flip (fun _ _ _ => rfl) hflip
  · intro h
    have hpair : ∀ dir : SortDir, rows.Pairwise
        fun a b => (time a).year = (time b).year → dir.InOrder (time a) (time b) := by
      intro dir
      refine List.pairwise_of_forall_mem_list fun a ha b hb hyear => ?_
      rw [h a ha b hb hyear]
      cases dir <;> exact le_refl _
    refine ⟨fun dir => sorted_perm, fun dir => (sorted_inOrder_iff henv hrows).2 (hpair dir),
      fun hnodup => ?_⟩
    have hyears : (rows.map fun row => (time row).year).Nodup := by
      have hinj := List.inj_on_of_nodup_map hnodup
      have hrowsNodup := hnodup.of_map
      refine hrowsNodup.map_on fun a ha b hb hyear => hinj ha hb (h a ha b hb hyear)
    have hreverse := Sorting.byKey_toDual hyears
    obtain ⟨hasc, hdesc⟩ := sorted_eq henv hrows
    intro dir
    cases dir with
    | asc =>
      have htoggle : (SortState.mk key .asc).toggleSort key = ⟨key, .desc⟩ := by
        simp [SortState.toggleSort]
      rw [htoggle, hdesc, hasc, hreverse]
    | desc =>
      have htoggle : (SortState.mk key .desc).toggleSort key = ⟨key, .asc⟩ := by
        simp [SortState.toggleSort]
      rw [htoggle, hdesc, hasc, hreverse, List.reverse_reverse]

namespace Sample

/-- Integers as they are, and texts by their code units. -/
def plainEnv : JsEnv := ⟨fun _ => [], .finite, fun s t => compareOfLessAndEq s t⟩

theorem plainEnv_keepsIntegers : plainEnv.KeepsIntegers := fun _ _ => rfl

/-- Ten in the morning of the first day of a month. -/
def firstOf (year month : ℕ) (h : year < 10 ^ 4 ∧ 1 ≤ month ∧ month ≤ 12) : Timestamp 0 :=
  ⟨year, month, 1, 10, 0, 0, 0, h.1, h.2, by decide, by decide, by decide, by decide, by decide⟩

def january : Timestamp 0 := firstOf 2026 1 (by decide)

def february : Timestamp 0 := firstOf 2026 2 (by decide)

def lastMarch : Timestamp 0 := firstOf 2025 3 (by decide)

def timedRow (t : Timestamp 0) : Unit → JsValue := fun _ => .string t.iso

/-- The time of a row, one of two. -/
def timeOf (s t : Timestamp 0) (row : Unit → JsValue) : Timestamp 0 :=
  if row () = .string s.iso then s else t

/-- **January before February is not the newest first.** -/
theorem sameYear_not_sorted : ¬ ∀ (env : JsEnv) (k : ℕ) (time : (Unit → JsValue) → Timestamp k)
    (rows : List (Unit → JsValue)), env.KeepsIntegers →
      (∀ row ∈ rows, row () = .string (time row).iso) → SortedByTime env () time rows := by
  intro hall
  have hrows : ∀ row ∈ [timedRow january, timedRow february],
      row () = .string (timeOf january february row).iso := by
    intro row hrow
    rcases List.mem_cons.1 hrow with rfl | hrow
    · decide +kernel
    · obtain rfl := List.mem_singleton.1 hrow
      decide +kernel
  have h := hall plainEnv 0 _ _ plainEnv_keepsIntegers hrows
  have hpair := (sorted_inOrder_iff plainEnv_keepsIntegers hrows).1 (h.inOrder .desc)
  have hle : timeOf january february (timedRow february) ≤
      timeOf january february (timedRow january) :=
    (List.pairwise_cons.1 hpair).1 _ List.mem_cons_self (by decide +kernel)
  exact absurd hle (by decide +kernel)

/-- Two years are sorted. -/
theorem twoYears_sorted : SortedByTime plainEnv () (timeOf lastMarch february)
    [timedRow lastMarch, timedRow february] := by
  refine (timeColumn_iff plainEnv_keepsIntegers ?_).2 ?_
  · intro row hrow
    rcases List.mem_cons.1 hrow with rfl | hrow
    · decide +kernel
    · obtain rfl := List.mem_singleton.1 hrow
      decide +kernel
  · simp only [List.mem_cons, List.not_mem_nil, or_false, forall_eq_or_imp, forall_eq]
    decide +kernel

end Sample

end Lumina
