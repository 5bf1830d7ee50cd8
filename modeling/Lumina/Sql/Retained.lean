import Mathlib.Data.List.Basic
import Mathlib.Logic.Function.Basic

/-!
# Tables that lose old rows

A table takes new rows at its end, and a retention job takes old ones out, which leaves the order
of the others.  What a query reads of rows of neither kind, it reads again (`Grows.filter_eq`).

## Main definitions

* `Thinned P` : without some of the rows such that `P`.
* `Grows old new` : without some old rows, and with new ones after the others.
-/

namespace Lumina

namespace Sql

variable {α β : Type*} {P Q old new old' new' : α → Prop} {l l' l'' : List α} {a : α}

/-! ### Rows that are taken out -/

/-- The first list without some of the rows such that `P` is the second one. -/
inductive Thinned (P : α → Prop) : List α → List α → Prop
  | nil : Thinned P [] []
  | keep (a : α) {l l' : List α} : Thinned P l l' → Thinned P (a :: l) (a :: l')
  | drop {a : α} {l l' : List α} : P a → Thinned P l l' → Thinned P (a :: l) l'

namespace Thinned

theorem refl (l : List α) : Thinned P l l := by
  induction l with
  | nil => exact .nil
  | cons a l ih => exact .keep a ih

theorem mono (hPQ : ∀ a, P a → Q a) (h : Thinned P l l') : Thinned Q l l' := by
  induction h with
  | nil => exact .nil
  | keep a _ ih => exact .keep a ih
  | drop ha _ ih => exact .drop (hPQ _ ha) ih

theorem trans (h : Thinned P l l') (h' : Thinned P l' l'') : Thinned P l l'' := by
  induction h generalizing l'' with
  | nil => exact h'
  | keep a _ ih =>
    cases h' with
    | keep _ h' => exact .keep a (ih h')
    | drop ha h' => exact .drop ha (ih h')
  | drop ha _ ih => exact .drop ha (ih h')

/-- A deletion takes out what its condition does not keep. -/
theorem of_filter {q : α → Bool} (hq : ∀ a, q a = false → P a) (l : List α) :
    Thinned P l (l.filter q) := by
  induction l with
  | nil => exact .nil
  | cons a l ih =>
    cases ha : q a with
    | true =>
      rw [List.filter_cons_of_pos ha]
      exact .keep a ih
    | false =>
      rw [List.filter_cons_of_neg (by simp [ha])]
      exact .drop (hq a ha) ih

/-- What is taken out of two parts of a table. -/
theorem append_cases {m : List α} (h : Thinned P (l ++ m) l') :
    ∃ l₁ m₁, l' = l₁ ++ m₁ ∧ Thinned P l l₁ ∧ Thinned P m m₁ := by
  induction l generalizing l' with
  | nil => exact ⟨[], l', rfl, .nil, h⟩
  | cons a l ih =>
    cases h with
    | keep _ h =>
      obtain ⟨l₁, m₁, rfl, hl, hm⟩ := ih h
      exact ⟨a :: l₁, m₁, rfl, .keep a hl, hm⟩
    | drop ha h =>
      obtain ⟨l₁, m₁, rfl, hl, hm⟩ := ih h
      exact ⟨l₁, m₁, rfl, .drop ha hl, hm⟩

theorem snoc (h : Thinned P l l') (a : α) : Thinned P (l ++ [a]) (l' ++ [a]) := by
  induction h with
  | nil => exact .keep a .nil
  | keep b _ ih => exact .keep b ih
  | drop hb _ ih => exact .drop hb ih

theorem sublist (h : Thinned P l l') : l'.Sublist l := by
  induction h with
  | nil => exact .slnil
  | keep a _ ih => exact ih.cons_cons a
  | drop _ _ ih => exact ih.cons _

/-- What is not taken out is as it was. -/
theorem filter_eq (h : Thinned P l l') {q : α → Bool} (hq : ∀ a, P a → q a = false) :
    l'.filter q = l.filter q := by
  induction h with
  | nil => rfl
  | keep a _ ih => rw [List.filter_cons, List.filter_cons, ih]
  | drop ha _ ih => rw [ih, List.filter_cons_of_neg (by simp [hq _ ha])]

end Thinned

/-- A condition that all rows of a part share takes out whole parts. -/
theorem filter_flatMap_eq {parts : List β} {part : β → List α} {p : α → Bool} {q : β → Bool}
    (h : ∀ b, ∀ a ∈ part b, p a = q b) :
    (parts.flatMap part).filter p = (parts.filter q).flatMap part := by
  induction parts with
  | nil => rfl
  | cons b parts ih =>
    rw [List.flatMap_cons, List.filter_append, ih]
    cases hb : q b with
    | true =>
      have hall : (part b).filter p = part b :=
        List.filter_eq_self.2 fun a ha => (h b a ha).trans hb
      rw [hall, List.filter_cons_of_pos hb, List.flatMap_cons]
    | false =>
      have hnone : (part b).filter p = [] :=
        List.filter_eq_nil_iff.2 fun a ha => by simp [h b a ha, hb]
      rw [hnone, List.nil_append, List.filter_cons_of_neg (by simp [hb])]

/-! ### Rows that are taken out and added -/

/-- Some old rows are taken out, and new ones are added after the others. -/
def Grows (old new : α → Prop) (l l' : List α) : Prop :=
  ∃ kept rows, Thinned old l kept ∧ l' = kept ++ rows ∧ ∀ a ∈ rows, new a

namespace Grows

theorem refl (l : List α) : Grows old new l l :=
  ⟨l, [], .refl l, (List.append_nil l).symm, by simp⟩

theorem of_eq (h : l' = l) : Grows old new l l' := by
  rw [h]
  exact refl l

theorem of_thinned (h : Thinned old l l') : Grows old new l l' :=
  ⟨l', [], h, (List.append_nil l').symm, by simp⟩

theorem of_append {rows : List α} (h : ∀ a ∈ rows, new a) : Grows old new l (l ++ rows) :=
  ⟨l, rows, .refl l, rfl, h⟩

theorem snoc (ha : new a) : Grows old new l (l ++ [a]) :=
  of_append (List.forall_mem_singleton.2 ha)

theorem mono (hold : ∀ a, old a → old' a) (hnew : ∀ a, new a → new' a) (h : Grows old new l l') :
    Grows old' new' l l' := by
  obtain ⟨kept, rows, hkept, hl, hrows⟩ := h
  exact ⟨kept, rows, hkept.mono hold, hl, fun a ha => hnew a (hrows a ha)⟩

theorem trans (h : Grows old new l l') (h' : Grows old new l' l'') : Grows old new l l'' := by
  obtain ⟨kept, rows, hkept, rfl, hrows⟩ := h
  obtain ⟨kept', rows', hkept', rfl, hrows'⟩ := h'
  obtain ⟨l₁, m₁, rfl, hl, hm⟩ := hkept'.append_cases
  refine ⟨l₁, m₁ ++ rows', hkept.trans hl, List.append_assoc _ _ _, fun a ha => ?_⟩
  exact (List.mem_append.1 ha).elim (fun ha => hrows a (hm.sublist.subset ha)) (hrows' a)

/-- What is neither taken out nor added is as it was. -/
theorem filter_eq (h : Grows old new l l') {q : α → Bool} (hold : ∀ a, old a → q a = false)
    (hnew : ∀ a, new a → q a = false) : l'.filter q = l.filter q := by
  obtain ⟨kept, rows, hkept, rfl, hrows⟩ := h
  have hnone : rows.filter q = [] := List.filter_eq_nil_iff.2 fun a ha hqa =>
    Bool.false_ne_true ((hnew a (hrows a ha)).symm.trans hqa)
  rw [List.filter_append, hnone, List.append_nil, hkept.filter_eq hold]

end Grows

/-! ### Positions -/

/-- A choice for each position of the one list gives one for those of the other, where both have the
same rows in the same order. -/
theorem exists_choice {l l' : List (α × ℕ)} (hfst : l.map (·.1) = l'.map (·.1))
    (hsnd : (l.map (·.2)).Nodup) (choice' : ℕ → β) :
    ∃ choice : ℕ → β,
      l.map (fun c => (c.1, choice c.2)) = l'.map fun c => (c.1, choice' c.2) := by
  induction l generalizing l' with
  | nil => exact ⟨choice', by rw [List.map_eq_nil_iff.1 hfst.symm]⟩
  | cons c l ih =>
    obtain ⟨c', l', rfl, hc, hl⟩ := List.map_eq_cons_iff.1 hfst.symm
    obtain ⟨hnot, hsnd⟩ := List.nodup_cons.1 hsnd
    obtain ⟨choice, hchoice⟩ := ih hl.symm hsnd
    refine ⟨Function.update choice c.2 (choice' c'.2), ?_⟩
    rw [List.map_cons, List.map_cons, Function.update_self, hc, ← hchoice]
    congr 1
    refine List.map_congr_left fun d hd => ?_
    have hne : d.2 ≠ c.2 := fun heq => hnot (List.mem_map.2 ⟨d, hd, heq⟩)
    rw [Function.update_of_ne hne]

end Sql

end Lumina
