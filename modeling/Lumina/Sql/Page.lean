import Mathlib.Data.List.Nodup
import Mathlib.Data.List.Sort
import Mathlib.Data.Set.Basic
import Mathlib.Logic.Equiv.Basic
import Mathlib.Order.WithBot

/-!
# Reading a query page by page

`ORDER BY key DESC LIMIT n OFFSET m` returns one page of the sorted rows.  Rows with equal keys
come in any order, and in another one the next time, so two pages may have been cut from two
different answers.  The pages list every row once, whatever the answers, exactly if at each
boundary between two pages the keys before it are greater than the keys after it
(`reads_perm_iff`).

## Main definitions

* `orderByDesc`, `limitOffset` : the two clauses.
* `Reads` : a client that reads pages until it sees an empty one.
* `Answer` : the answers of a query without limit, where the key of a row is one of several.
* `SplitsAt` : the first rows of every answer are the same ones.
-/

namespace Lumina

namespace Sql

variable {α κ : Type*}

/-- The order in which a query visits the rows. -/
structure Visit (α : Type*) where
  order : List α → List α
  perm : ∀ rows, (order rows).Perm rows

/-- The order in which the rows are stored. -/
def Visit.stored : Visit α := ⟨fun rows => rows, fun rows => List.Perm.refl rows⟩

/-- `LIMIT limit OFFSET offset`. -/
def limitOffset (limit offset : ℕ) (rows : List α) : List α := (rows.drop offset).take limit

/-- What a client lists that reads the pages from number `k` on until one is empty. -/
inductive Reads (page : ℕ → List α) : ℕ → List α → Prop where
  | stop {k : ℕ} (h : page k = []) : Reads page k []
  | next {k : ℕ} {listed : List α} (h : page k ≠ []) (rest : Reads page (k + 1) listed) :
      Reads page k (page k ++ listed)

theorem Reads.unique {page : ℕ → List α} {k : ℕ} {l l' : List α} (h : Reads page k l)
    (h' : Reads page k l') : l = l' := by
  induction h generalizing l' with
  | stop hk =>
    cases h' with
    | stop => rfl
    | next hne => exact absurd hk hne
  | next hne _ ih =>
    cases h' with
    | stop hk => exact absurd hk hne
    | next _ rest => rw [ih rest]

theorem reads_range' {page : ℕ → List α} {k j : ℕ} (h : ∀ i, k ≤ i → i < k + j → page i ≠ [])
    (hlast : page (k + j) = []) : Reads page k ((List.range' k j).flatMap page) := by
  induction j generalizing k with
  | zero => exact .stop hlast
  | succ j ih =>
    rw [List.range'_succ, List.flatMap_cons]
    refine .next (h k le_rfl (by omega)) (ih (fun i hi hij => h i (by omega) (by omega)) ?_)
    rw [show k + 1 + j = k + (j + 1) by omega]
    exact hlast

theorem Reads.map {β : Type*} {page : ℕ → List α} {k : ℕ} {l : List α} (h : Reads page k l)
    (f : α → β) : Reads (fun k => (page k).map f) k (l.map f) := by
  induction h with
  | stop hk => exact .stop (by rw [hk, List.map_nil])
  | next hne _ ih =>
    rw [List.map_append]
    exact .next (by rwa [Ne, List.map_eq_nil_iff]) ih

theorem Reads.of_map {β : Type*} {page : ℕ → List α} {f : α → β} {k : ℕ} {l : List β}
    (h : Reads (fun k => (page k).map f) k l) : ∃ l', Reads page k l' ∧ l'.map f = l := by
  induction h with
  | stop hk => exact ⟨[], .stop (List.map_eq_nil_iff.1 hk), rfl⟩
  | next hne _ ih =>
    obtain ⟨l', hl', rfl⟩ := ih
    rw [Ne, List.map_eq_nil_iff] at hne
    exact ⟨_, .next hne hl', List.map_append⟩

section Limit

variable {limit offset : ℕ} {rows : List α}

theorem limitOffset_eq_nil_iff (h : 0 < limit) :
    limitOffset limit offset rows = [] ↔ rows.length ≤ offset := by
  rw [limitOffset, List.take_eq_nil_iff, List.drop_eq_nil_iff]
  omega

/-- The page after the first `offset` rows completes them to the first `offset + limit`. -/
theorem take_append_limitOffset :
    rows.take offset ++ limitOffset limit offset rows = rows.take (offset + limit) := by
  rw [limitOffset, List.take_add]

theorem map_limitOffset {β : Type*} (f : α → β) :
    (limitOffset limit offset rows).map f = limitOffset limit offset (rows.map f) := by
  rw [limitOffset, limitOffset, List.map_take, List.map_drop]

end Limit

variable [LinearOrder κ]

/-- A nullable key under `DESC NULLS LAST`: `NULL` is below all others. -/
def nullsLast (v : Option κ) : WithBot κ := v

/-- `ORDER BY key DESC`; the rows that tie come in the order of the visit. -/
def orderByDesc (visit : Visit α) (key : α → κ) (rows : List α) : List α :=
  (visit.order rows).insertionSort fun a b => key b ≤ key a

section OrderBy

variable {visit : Visit α} {key : α → κ} {rows l : List α}

theorem orderByDesc_perm : (orderByDesc visit key rows).Perm rows :=
  (List.perm_insertionSort _ _).trans (visit.perm rows)

theorem pairwise_orderByDesc : (orderByDesc visit key rows).Pairwise fun a b => key b ≤ key a := by
  have : Std.Total fun a b : α => key b ≤ key a := ⟨fun a b => le_total (key b) (key a)⟩
  have : IsTrans α fun a b : α => key b ≤ key a := ⟨fun _ _ _ hab hbc => hbc.trans hab⟩
  exact List.pairwise_insertionSort _ _

/-- Every order of the rows that agrees with the keys may be returned. -/
theorem exists_orderByDesc [DecidableEq α] (hl : l.Perm rows)
    (hs : l.Pairwise fun a b => key b ≤ key a) : ∃ visit, orderByDesc visit key rows = l := by
  refine ⟨⟨fun rows' => if rows' = rows then l else rows', fun rows' => ?_⟩, ?_⟩
  · split_ifs with h
    · rw [h]
      exact hl
    · exact List.Perm.refl rows'
  · simp only [orderByDesc, if_true]
    exact List.Pairwise.insertionSort_eq hs

end OrderBy

/-! ### Answers -/

/-- The answers of a query without its limit, where the key of a row `a` may be read as any of
`P a`. -/
def Answer (P : α → Set κ) (rows l : List α) : Prop :=
  l.Perm rows ∧ ∃ key : α → κ, (∀ a ∈ rows, key a ∈ P a) ∧ l.Pairwise fun a b => key b ≤ key a

/-- The rows split into `b` of them and the others, whose keys are all smaller. -/
def SplitsAt (P : α → Set κ) (rows : List α) (b : ℕ) : Prop :=
  ∃ first others, rows.Perm (first ++ others) ∧ first.length = b ∧
    ∀ a ∈ first, ∀ c ∈ others, ∀ x ∈ P a, ∀ y ∈ P c, y < x

section Answers

variable {P : α → Set κ} {rows l l' : List α} {b : ℕ}

theorem exists_answer {key : α → κ} (h : ∀ a ∈ rows, key a ∈ P a) :
    ∃ l, Answer P rows l ∧ l.Pairwise fun a b => key b ≤ key a :=
  ⟨orderByDesc .stored key rows, ⟨orderByDesc_perm, key, h, pairwise_orderByDesc⟩,
    pairwise_orderByDesc⟩

/-- Where a row satisfies `p` only if all rows before it do, the rows that do come first. -/
theorem eq_filter_append_filter {p : α → Bool} (h : l.Pairwise fun a b => p b → p a) :
    l = l.filter p ++ l.filter fun a => !p a := by
  induction l with
  | nil => rfl
  | cons a l ih =>
    obtain ⟨ha, hl⟩ := List.pairwise_cons.1 h
    by_cases hp : p a = true
    · simp only [List.filter_cons, hp, if_true, Bool.not_true, Bool.false_eq_true, if_false,
        List.cons_append]
      rw [← ih hl]
    · have hnone : l.filter p = [] := by
        rw [List.filter_eq_nil_iff]
        exact fun c hc hpc => hp (ha c hc hpc)
      have hall : (l.filter fun a => !p a) = l := by
        rw [List.filter_eq_self]
        intro c hc
        simpa using fun hpc => hp (ha c hc hpc)
      simp [hp, hnone, hall]

/-- **The first rows of an answer** where the keys split. -/
theorem Answer.take_perm [DecidableEq α] {first others : List α} (h : Answer P rows l)
    (hrows : rows.Perm (first ++ others))
    (hlt : ∀ a ∈ first, ∀ c ∈ others, ∀ x ∈ P a, ∀ y ∈ P c, y < x) :
    (l.take first.length).Perm first := by
  obtain ⟨hperm, key, hkey, hsorted⟩ := h
  have hmem : ∀ a, a ∈ l ↔ a ∈ first ∨ a ∈ others := by
    intro a
    rw [hperm.mem_iff, hrows.mem_iff, List.mem_append]
  have hkey : ∀ a ∈ l, key a ∈ P a := fun a ha => hkey a (hperm.mem_iff.1 ha)
  have hdisj : ∀ c ∈ others, c ∉ first := by
    intro c hc hf
    have hk := hkey c ((hmem c).2 (.inl hf))
    exact lt_irrefl _ (hlt c hf c hc _ hk _ hk)
  -- a row of `others` cannot stand before a row of `first`
  have hup : l.Pairwise fun a c => decide (c ∈ first) = true → decide (a ∈ first) = true := by
    refine hsorted.imp_of_mem ?_
    intro a c ha hc hle hcf
    rw [decide_eq_true_eq] at hcf ⊢
    rcases (hmem a).1 ha with haf | hao
    · exact haf
    · exact absurd hle (not_le.2 (hlt c hcf a hao _ (hkey c hc) _ (hkey a ha)))
  have hfirst : (l.filter fun a => decide (a ∈ first)).Perm first := by
    have hall : (first.filter fun a => decide (a ∈ first)) = first := by
      rw [List.filter_eq_self]
      exact fun a ha => decide_eq_true ha
    have hnone : (others.filter fun a => decide (a ∈ first)) = [] := by
      rw [List.filter_eq_nil_iff]
      exact fun c hc => by simpa using hdisj c hc
    have := (hperm.trans hrows).filter fun a => decide (a ∈ first)
    rwa [List.filter_append, hall, hnone, List.append_nil] at this
  rw [eq_filter_append_filter hup, ← hfirst.length_eq, List.take_left' rfl]
  exact hfirst

/-- Where the keys split, all answers have the same first rows. -/
theorem SplitsAt.take_perm [DecidableEq α] (hs : SplitsAt P rows b) (h : Answer P rows l)
    (h' : Answer P rows l') : (l.take b).Perm (l'.take b) := by
  obtain ⟨first, others, hrows, rfl, hlt⟩ := hs
  exact (h.take_perm hrows hlt).trans (h'.take_perm hrows hlt).symm

/-- What `a` and `c` satisfy, a row satisfies after the swap if it did before. -/
theorem swap_apply_of [DecidableEq α] {p : α → Prop} {a c d : α} (ha : p a) (hc : p c)
    (hd : p d) : p (Equiv.swap a c d) := by
  rw [Equiv.swap_apply_def]
  split_ifs
  · exact hc
  · exact ha
  · exact hd

/-- Two rows with equal keys may change places. -/
theorem Answer.swap [DecidableEq α] {key : α → κ} {a c : α} (hperm : l.Perm rows)
    (hkey : ∀ a ∈ rows, key a ∈ P a) (hsorted : l.Pairwise fun a b => key b ≤ key a)
    (hnodup : rows.Nodup) (ha : a ∈ rows) (hc : c ∈ rows) (heq : key a = key c) :
    Answer P rows (l.map (Equiv.swap a c)) := by
  have hswap : ∀ d, key (Equiv.swap a c d) = key d := by
    intro d
    rw [Equiv.swap_apply_def]
    split_ifs with hda hdc
    · rw [hda, heq]
    · rw [hdc, heq]
    · rfl
  have hmem : ∀ d ∈ rows, Equiv.swap a c d ∈ rows := fun d hd =>
    @swap_apply_of _ _ (· ∈ rows) a c d ha hc hd
  refine ⟨?_, key, hkey, ?_⟩
  · rw [List.perm_ext_iff_of_nodup
      ((hperm.nodup_iff.2 hnodup).map (Equiv.injective _)) hnodup]
    intro d
    rw [List.mem_map]
    constructor
    · rintro ⟨e, he, rfl⟩
      exact hmem e (hperm.mem_iff.1 he)
    · exact fun hd => ⟨_, hperm.mem_iff.2 (hmem d hd), Equiv.swap_apply_self a c d⟩
  · rw [List.pairwise_map]
    exact hsorted.imp fun hle => by rwa [hswap, hswap]

/-- Where all answers have the same first rows, the keys split. -/
theorem splitsAt_of_take [DecidableEq α] (hnodup : rows.Nodup) (hne : ∀ a, (P a).Nonempty)
    (hb : b ≤ rows.length)
    (h : ∀ l l', Answer P rows l → Answer P rows l' → (l.take b).Perm (l'.take b)) :
    SplitsAt P rows b := by
  choose key₀ hkey₀ using hne
  obtain ⟨l, hl, -⟩ := exists_answer fun a (_ : a ∈ rows) => hkey₀ a
  have hlnodup : l.Nodup := hl.1.nodup_iff.2 hnodup
  have hdisj := List.disjoint_take_drop hlnodup (le_refl b)
  refine ⟨l.take b, l.drop b, ?_, ?_, ?_⟩
  · rw [List.take_append_drop]
    exact hl.1.symm
  · rw [List.length_take, hl.1.length_eq, min_eq_left hb]
  · intro a ha c hc x hx y hy
    by_contra hle
    have hac : a ≠ c := fun hac => hdisj ha (hac ▸ hc)
    have har : a ∈ rows := hl.1.mem_iff.1 (List.mem_of_mem_take ha)
    have hcr : c ∈ rows := hl.1.mem_iff.1 (List.mem_of_mem_drop hc)
    -- an answer under keys that put `c` at `a` or above
    let key : α → κ := Function.update (Function.update key₀ a x) c y
    have hkeya : key a = x := by
      simp only [key]
      rw [Function.update_of_ne hac, Function.update_self]
    have hkeyc : key c = y := by
      simp only [key]
      rw [Function.update_self]
    have hkey : ∀ d ∈ rows, key d ∈ P d := by
      intro d _
      rcases eq_or_ne d c with rfl | hdc
      · rwa [hkeyc]
      · rcases eq_or_ne d a with rfl | hda
        · rwa [hkeya]
        · simp only [key]
          rw [Function.update_of_ne hdc, Function.update_of_ne hda]
          exact hkey₀ d
    obtain ⟨l', hl', hsorted⟩ := exists_answer hkey
    have ha' : a ∈ l'.take b := (h l l' hl hl').mem_iff.1 ha
    have hc' : c ∉ l'.take b := fun hc' => hdisj ((h l l' hl hl').mem_iff.2 hc') hc
    have hcd : c ∈ l'.drop b := by
      have hmem : c ∈ l'.take b ++ l'.drop b := by
        rw [List.take_append_drop]
        exact hl'.1.mem_iff.2 hcr
      exact (List.mem_append.1 hmem).resolve_left hc'
    have hsplit := hsorted
    rw [← List.take_append_drop b l', List.pairwise_append] at hsplit
    have heq : key a = key c := by
      refine le_antisymm ?_ (hsplit.2.2 a ha' c hcd)
      rw [hkeya, hkeyc]
      exact not_lt.1 hle
    -- the keys tie, so the two rows may change places
    have hswap := Answer.swap hl'.1 hkey hsorted hnodup har hcr heq
    have hmem : c ∈ (l'.map (Equiv.swap a c)).take b := by
      rw [← List.map_take]
      exact List.mem_map.2 ⟨a, ha', Equiv.swap_apply_left a c⟩
    exact hdisj ((h l _ hl hswap).mem_iff.2 hmem) hc

/-! ### Pages of answers -/

variable {size step : ℕ} {ans : ℕ → List α}

/-- The pages of one answer put together. -/
theorem flatMap_limitOffset (step k j : ℕ) (l : List α) :
    ((List.range' k j).flatMap fun i => limitOffset step (i * step) l) =
      (l.drop (k * step)).take (j * step) := by
  induction j generalizing k with
  | zero => simp
  | succ j ih =>
    rw [List.range'_succ, List.flatMap_cons, ih, limitOffset, Nat.succ_mul j, Nat.add_comm _ step,
      List.take_add, List.drop_drop, Nat.succ_mul]

/-- A client sees an empty page at the end of the rows. -/
theorem reads_answers (h : ∀ k, Answer P rows (ans k)) (hsize : 0 < size) (hstep : 0 < step) :
    ∃ m, (∀ k < m, k * step < rows.length) ∧ rows.length ≤ m * step ∧
      Reads (fun k => limitOffset size (k * step) (ans k)) 0
        ((List.range' 0 m).flatMap fun k => limitOffset size (k * step) (ans k)) := by
  have hex : ∃ m, rows.length ≤ m * step := ⟨rows.length, Nat.le_mul_of_pos_right _ hstep⟩
  have hlen : ∀ k, (ans k).length = rows.length := fun k => (h k).1.length_eq
  refine ⟨Nat.find hex, fun k hk => ?_, Nat.find_spec hex, reads_range' (fun k _ hk => ?_) ?_⟩
  · exact not_le.1 (Nat.find_min hex hk)
  · rw [Ne, limitOffset_eq_nil_iff hsize, hlen]
    exact Nat.find_min hex (by omega)
  · rw [limitOffset_eq_nil_iff hsize, hlen, Nat.zero_add]
    exact Nat.find_spec hex

/-- A page that holds all rows is as good as a larger one. -/
theorem limitOffset_of_length_le {offset : ℕ} (h : l.length ≤ size) (hle : size ≤ step) :
    limitOffset size offset l = limitOffset step offset l := by
  have hlen : (l.drop offset).length ≤ size := by
    rw [List.length_drop]
    omega
  rw [limitOffset, limitOffset, List.take_of_length_le hlen,
    List.take_of_length_le (hlen.trans hle)]

/-- Before a boundary at which the keys split, and at the end, all answers list the same rows. -/
theorem take_perm_of_splits [DecidableEq α] (h : Answer P rows l) (h' : Answer P rows l')
    (hb : b < rows.length → SplitsAt P rows b) : (l.take b).Perm (l'.take b) := by
  by_cases hlt : b < rows.length
  · exact (hb hlt).take_perm h h'
  · have hall : ∀ {l}, Answer P rows l → l.take b = l := fun h =>
      List.take_of_length_le (by rw [h.1.length_eq]; omega)
    rw [hall h, hall h']
    exact h.1.trans h'.1.symm

/-- **Pages list every row once.**  Where the keys split at each boundary, the first pages list
the first rows of any answer. -/
theorem flatMap_answers_perm [DecidableEq α] (h : ∀ k, Answer P rows (ans k))
    (hsplits : ∀ k, k * step < rows.length → SplitsAt P rows (k * step)) (m : ℕ)
    (hl : Answer P rows l) :
    ((List.range' 0 m).flatMap fun k => limitOffset step (k * step) (ans k)).Perm
      (l.take (m * step)) := by
  induction m generalizing l with
  | zero => simp
  | succ m ih =>
    have hstep : ((List.range' 0 (m + 1)).flatMap fun k => limitOffset step (k * step) (ans k)) =
        ((List.range' 0 m).flatMap fun k => limitOffset step (k * step) (ans k)) ++
          limitOffset step (m * step) (ans m) := by
      rw [List.range'_concat, List.flatMap_append]
      simp
    rw [hstep]
    -- the page number `m` completes the first rows of its own answer
    refine ((ih (h m)).append_right _).trans ?_
    rw [take_append_limitOffset, ← Nat.succ_mul]
    exact take_perm_of_splits (h m) hl (hsplits (m + 1))

/-- Where no page is cut short, `size` may be read as `step`. -/
theorem limitOffset_answer (h : Answer P rows l) (hle : size ≤ step)
    (hcut : size = step ∨ rows.length ≤ size) (offset : ℕ) :
    limitOffset size offset l = limitOffset step offset l := by
  rcases hcut with rfl | hlen
  · rfl
  · exact limitOffset_of_length_le (by rwa [h.1.length_eq]) hle

/-- Pages that list every row of one answer are not cut short: otherwise the row after the first
page is on no page. -/
theorem not_cut_of_mem (hl : l.Nodup) (hle : size ≤ step)
    (h : ∀ a ∈ l, ∃ k, a ∈ limitOffset size (k * step) l) : size = step ∨ l.length ≤ size := by
  by_contra hcut
  obtain ⟨hneq, hlen⟩ := not_or.1 hcut
  have hlen : size < l.length := not_le.1 hlen
  obtain ⟨k, hk⟩ := h l[size] (List.getElem_mem hlen)
  obtain ⟨i, hi, heq⟩ := List.getElem_of_mem hk
  simp only [limitOffset, List.getElem_take, List.getElem_drop, List.length_take,
    List.length_drop] at heq hi
  have hidx := (hl.getElem_inj_iff).1 heq
  rcases Nat.eq_zero_or_pos k with rfl | hpos
  · omega
  · have := Nat.le_mul_of_pos_left step hpos
    omega

/-- The first `k` pages of one answer and the others of another one. -/
theorem flatMap_two_answers {k m : ℕ} (hkm : k ≤ m) (hend : l'.length ≤ m * step) :
    ((List.range' 0 m).flatMap fun i => limitOffset step (i * step) (if i < k then l else l')) =
      l.take (k * step) ++ l'.drop (k * step) := by
  have hfirst : ∀ i ∈ List.range' 0 k, limitOffset step (i * step) (if i < k then l else l') =
      limitOffset step (i * step) l := by
    intro i hi
    rw [if_pos (by simpa using hi)]
  have hothers : ∀ i ∈ List.range' k (m - k),
      limitOffset step (i * step) (if i < k then l else l') = limitOffset step (i * step) l' := by
    intro i hi
    rw [if_neg (not_lt.2 (List.mem_range'_1.1 hi).1)]
  have hrest : (l'.drop (k * step)).length ≤ (m - k) * step := by
    rw [List.length_drop, Nat.sub_mul]
    omega
  have hsplit : List.range' 0 m = List.range' 0 k ++ List.range' k (m - k) := by
    obtain ⟨j, rfl⟩ := Nat.exists_eq_add_of_le hkm
    rw [Nat.add_sub_cancel_left, ← List.range'_append, Nat.one_mul, Nat.zero_add]
  rw [hsplit, List.flatMap_append, List.flatMap_congr hfirst, List.flatMap_congr hothers,
    flatMap_limitOffset, flatMap_limitOffset, Nat.zero_mul, List.drop_zero,
    List.take_of_length_le hrest]

/-- **Pages list every row once exactly if the keys split at each boundary**, and no page is cut
shorter than the distance to the next one. -/
theorem reads_perm_iff [DecidableEq α] (hnodup : rows.Nodup) (hne : ∀ a, (P a).Nonempty)
    (hsize : 0 < size) (hle : size ≤ step) :
    (∀ ans : ℕ → List α, (∀ k, Answer P rows (ans k)) →
      ∃ listed, Reads (fun k => limitOffset size (k * step) (ans k)) 0 listed ∧
        listed.Perm rows) ↔
      (size = step ∨ rows.length ≤ size) ∧
        ∀ k, k * step < rows.length → SplitsAt P rows (k * step) := by
  have hstep : 0 < step := hsize.trans_le hle
  choose key hkey using hne
  obtain ⟨l, hl, -⟩ := exists_answer fun a (_ : a ∈ rows) => hkey a
  constructor
  · intro h
    have hcut : size = step ∨ rows.length ≤ size := by
      rw [← hl.1.length_eq]
      refine not_cut_of_mem (hl.1.nodup_iff.2 hnodup) hle fun a ha => ?_
      obtain ⟨listed, hreads, hperm⟩ := h (fun _ => l) fun _ => hl
      obtain ⟨m, -, -, hreads'⟩ := reads_answers (fun _ => hl) hsize hstep
      obtain rfl := hreads.unique hreads'
      obtain ⟨k, -, hk⟩ := List.mem_flatMap.1 (hperm.mem_iff.2 (hl.1.mem_iff.1 ha))
      exact ⟨k, hk⟩
    refine ⟨hcut, fun k hk => splitsAt_of_take hnodup (fun a => ⟨key a, hkey a⟩) hk.le ?_⟩
    intro l l' hl hl'
    -- the first pages are cut from one answer and the others from the other one
    have hans : ∀ i, Answer P rows (if i < k then l else l') := by
      intro i
      split_ifs
      · exact hl
      · exact hl'
    obtain ⟨listed, hreads, hperm⟩ := h _ hans
    obtain ⟨m, -, hend, hreads'⟩ := reads_answers hans hsize hstep
    obtain rfl := hreads.unique hreads'
    have hkm : k ≤ m := by
      by_contra hmk
      have := Nat.mul_le_mul_right step (not_le.1 hmk).le
      omega
    simp only [limitOffset_answer (hans _) hle hcut] at hperm
    rw [flatMap_two_answers hkm (hl'.1.length_eq.trans_le hend)] at hperm
    have hperm' : (l'.take (k * step) ++ l'.drop (k * step)).Perm rows := by
      rw [List.take_append_drop]
      exact hl'.1
    exact (List.perm_append_right_iff _).1 (hperm.trans hperm'.symm)
  · rintro ⟨hcut, hsplits⟩ ans h
    obtain ⟨m, -, hend, hreads⟩ := reads_answers h hsize hstep
    refine ⟨_, hreads, ?_⟩
    simp only [limitOffset_answer (h _) hle hcut]
    refine (flatMap_answers_perm h hsplits m hl).trans ?_
    rw [List.take_of_length_le (by rw [hl.1.length_eq]; exact hend)]
    exact hl.1

end Answers

/-! ### Joined rows -/

/-- A choice for each row is one for each id, where the rows have distinct ids. -/
theorem exists_choice_of_nodup {ι ν : Type*} [Nonempty ν] {rows : List α} {id : α → ι}
    {R : α → ν → Prop} (hnodup : (rows.map id).Nodup) (h : ∀ a ∈ rows, ∃ n, R a n) :
    ∃ tie : ι → ν, ∀ a ∈ rows, R a (tie (id a)) := by
  have hid : ∀ i, ∃ n, ∀ a ∈ rows, id a = i → R a n := by
    intro i
    by_cases hi : ∃ a ∈ rows, id a = i
    · obtain ⟨a, ha, rfl⟩ := hi
      obtain ⟨n, hn⟩ := h a ha
      refine ⟨n, fun c hc heq => ?_⟩
      rwa [List.inj_on_of_nodup_map hnodup hc ha heq]
    · exact ⟨Classical.arbitrary ν, fun a ha heq => absurd ⟨a, ha, heq⟩ hi⟩
  choose tie htie using hid
  exact ⟨tie, fun a ha => htie _ a ha rfl⟩

/-- **Pages of a join.**  A query may join row `a` with any of several others, `t` choosing which;
the key is a column of the joined row.  The pages list every row once exactly if its possible keys
split at each boundary. -/
theorem reads_join_perm_iff {β τ : Type*} [DecidableEq α] [DecidableEq β] {rows : List α}
    {size step : ℕ} (join : τ → α → β) (proj : β → α) (key : β → κ) (P : α → Set κ)
    (hproj : ∀ t a, proj (join t a) = a) (hkey : ∀ t a, key (join t a) ∈ P a)
    (hchoice : ∀ choice : α → κ, (∀ a ∈ rows, choice a ∈ P a) →
      ∃ t, ∀ a ∈ rows, key (join t a) = choice a)
    (hnodup : rows.Nodup) (hne : ∀ a, (P a).Nonempty) (hsize : 0 < size) (hle : size ≤ step) :
    (∀ (visit : ℕ → Visit β) (t : ℕ → τ), ∃ listed,
      Reads (fun k => limitOffset size (k * step)
        (orderByDesc (visit k) key (rows.map (join (t k))))) 0 listed ∧
      (listed.map proj).Perm rows) ↔
      (size = step ∨ rows.length ≤ size) ∧
        ∀ k, k * step < rows.length → SplitsAt P rows (k * step) := by
  have hid : ∀ t (l : List α), (l.map (join t)).map proj = l := by
    intro t l
    rw [List.map_map, Function.comp_def]
    simp only [hproj, List.map_id']
  rw [← reads_perm_iff hnodup hne hsize hle]
  constructor
  · intro h ans hans
    -- an answer is what the query returns for some choice of the joined rows
    have hvisit : ∀ k, ∃ visit t,
        orderByDesc visit key (rows.map (join t)) = (ans k).map (join t) := by
      intro k
      obtain ⟨hperm, choice, hc, hsorted⟩ := hans k
      obtain ⟨t, ht⟩ := hchoice choice hc
      have hsorted' : ((ans k).map (join t)).Pairwise fun a b => key b ≤ key a := by
        rw [List.pairwise_map]
        refine hsorted.imp_of_mem fun {a c} ha hc hle => ?_
        rwa [ht a (hperm.mem_iff.1 ha), ht c (hperm.mem_iff.1 hc)]
      obtain ⟨visit, hv⟩ := exists_orderByDesc (hperm.map (join t)) hsorted'
      exact ⟨visit, t, hv⟩
    choose visit t hvisit using hvisit
    obtain ⟨listed, hreads, hperm⟩ := h visit t
    refine ⟨_, ?_, hperm⟩
    have := hreads.map proj
    simpa only [map_limitOffset, hvisit, hid] using this
  · intro h visit t
    have hans : ∀ k, Answer P rows
        ((orderByDesc (visit k) key (rows.map (join (t k)))).map proj) := by
      intro k
      have hperm : (orderByDesc (visit k) key (rows.map (join (t k)))).Perm
          (rows.map (join (t k))) := orderByDesc_perm
      refine ⟨?_, fun a => key (join (t k) a), fun a _ => hkey (t k) a, ?_⟩
      · have := hperm.map proj
        rwa [hid] at this
      · rw [List.pairwise_map]
        refine pairwise_orderByDesc.imp_of_mem fun {b c} hb hc hle => ?_
        obtain ⟨a, -, rfl⟩ := List.mem_map.1 (hperm.mem_iff.1 hb)
        obtain ⟨d, -, rfl⟩ := List.mem_map.1 (hperm.mem_iff.1 hc)
        rwa [hproj, hproj]
    obtain ⟨listed, hreads, hperm⟩ := h _ hans
    simp only [← map_limitOffset] at hreads
    obtain ⟨listed', hreads', rfl⟩ := hreads.of_map
    exact ⟨listed', hreads', hperm⟩

end Sql

end Lumina
