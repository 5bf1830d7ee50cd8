import Mathlib.Data.List.Basic

/-!
# Cutting texts

A text is cut at the first occurrence of a separator (`cut`), or into the pieces that end in one
(`pieces`).  Both find again what was put together with separators that do not occur in it.
-/

namespace Lumina

namespace Text

variable {α : Type*} [DecidableEq α] {c : α} {l r : List α} {ls : List (List α)}

/-- What stands before the first `c`, and what stands after it. -/
def cut (c : α) : List α → Option (List α × List α)
  | [] => none
  | d :: s => if d = c then some ([], s) else (cut c s).map fun p => (d :: p.1, p.2)

theorem cut_append (h : c ∉ l) : cut c (l ++ c :: r) = some (l, r) := by
  induction l with
  | nil => simp [cut]
  | cons d l ih =>
    rw [List.mem_cons, not_or] at h
    rw [List.cons_append, cut, if_neg (Ne.symm h.1), ih h.2]
    rfl

theorem cut_of_not_mem (h : c ∉ l) : cut c l = none := by
  induction l with
  | nil => rfl
  | cons d l ih =>
    rw [List.mem_cons, not_or] at h
    rw [cut, if_neg (Ne.symm h.1), ih h.2]
    rfl

/-- The pieces that end in `c`; after the last `c` there is one more, if there is anything. -/
def pieces (c : α) : List α → List (List α)
  | [] => []
  | d :: s =>
    if d = c then [] :: pieces c s
    else
      match pieces c s with
      | [] => [[d]]
      | l :: ls => (d :: l) :: ls

theorem pieces_append (h : c ∉ l) : pieces c (l ++ c :: r) = l :: pieces c r := by
  induction l with
  | nil => simp [pieces]
  | cons d l ih =>
    rw [List.mem_cons, not_or] at h
    rw [List.cons_append, pieces, if_neg (Ne.symm h.1), ih h.2]

/-- **Lines that are written one after the other are read as these lines.** -/
theorem pieces_flatMap (h : ∀ l ∈ ls, c ∉ l) : pieces c (ls.flatMap (· ++ [c])) = ls := by
  induction ls with
  | nil => rfl
  | cons l ls ih =>
    rw [List.flatMap_cons, List.append_assoc, List.singleton_append,
      pieces_append (h l List.mem_cons_self), ih fun l' hl' => h l' (List.mem_cons_of_mem _ hl')]

end Text

end Lumina
