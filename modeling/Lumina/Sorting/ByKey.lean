import Mathlib.Data.List.Nodup
import Mathlib.Order.OrderDual
import Mathlib.Order.Lattice

/-!
# Stable sorting by a key

A stable sort by a key keeps the order of the elements that share a key, and orders the others by
their keys.  So it sorts a list by a finer order exactly if the elements that share a key are
sorted already (`pairwise_byKey_iff`).

## Main definitions

* `byKey` : the sorted list.
-/

namespace Lumina

namespace Sorting

variable {α κ : Type*} [LinearOrder κ]

/-- A list, sorted by a key. -/
def byKey (f : α → κ) (l : List α) : List α := l.mergeSort fun a b => decide (f a ≤ f b)

variable {f : α → κ} {l : List α} {R : α → α → Prop}

theorem byKey_perm : (byKey f l).Perm l := List.mergeSort_perm l _

theorem key_trans (f : α → κ) (a b c : α) (hab : decide (f a ≤ f b) = true)
    (hbc : decide (f b ≤ f c) = true) : decide (f a ≤ f c) = true := by
  simp only [decide_eq_true_eq] at *
  exact hab.trans hbc

theorem key_total (f : α → κ) (a b : α) :
    (decide (f a ≤ f b) || decide (f b ≤ f a)) = true := by
  simpa using le_total (f a) (f b)

theorem pairwise_byKey : (byKey f l).Pairwise fun a b => f a ≤ f b := by
  have h : (byKey f l).Pairwise fun a b => decide (f a ≤ f b) = true :=
    List.pairwise_mergeSort (key_trans f) (key_total f) l
  exact h.imp fun hab => of_decide_eq_true hab

/-- **Stability**: the elements of a key stay in their order. -/
theorem filter_byKey (y : κ) :
    (byKey f l).filter (fun a => decide (f a = y)) = l.filter fun a => decide (f a = y) := by
  have hsorted : (l.filter fun a => decide (f a = y)).Pairwise
      fun a b => decide (f a ≤ f b) = true := by
    refine List.pairwise_of_forall_mem_list fun a ha b hb => ?_
    have ha' := of_decide_eq_true (List.mem_filter.1 ha).2
    have hb' := of_decide_eq_true (List.mem_filter.1 hb).2
    rw [ha', hb']
    exact decide_eq_true le_rfl
  have hsub : (l.filter fun a => decide (f a = y)).Sublist (byKey f l) :=
    List.sublist_mergeSort (key_trans f) (key_total f) hsorted List.filter_sublist
  have hsub' := hsub.filter fun a => decide (f a = y)
  rw [List.filter_filter] at hsub'
  simp only [Bool.and_self] at hsub'
  exact (hsub'.eq_of_length (byKey_perm.filter _).length_eq.symm).symm

/-- The elements of each key are in order. -/
theorem pairwise_of_key_eq_iff :
    (l.Pairwise fun a b => f a = f b → R a b) ↔
      ∀ y, (l.filter fun a => decide (f a = y)).Pairwise R := by
  simp only [List.pairwise_filter, decide_eq_true_eq]
  constructor
  · exact fun h y => h.imp fun hab ha hb => hab (ha.trans hb.symm)
  · intro h
    rw [List.pairwise_iff_forall_sublist]
    intro a b hab heq
    exact List.pairwise_iff_forall_sublist.1 (h (f b)) hab heq rfl

/-- **A finer order**: the list is sorted exactly if the elements of each key were. -/
theorem pairwise_byKey_iff (hR : ∀ a b, f a < f b → R a b) :
    (byKey f l).Pairwise R ↔ l.Pairwise fun a b => f a = f b → R a b := by
  have hkeys : (l.Pairwise fun a b => f a = f b → R a b) ↔
      (byKey f l).Pairwise fun a b => f a = f b → R a b := by
    simp only [pairwise_of_key_eq_iff, filter_byKey]
  rw [hkeys]
  constructor
  · intro h
    refine h.imp ?_
    intro a b hab _
    exact hab
  · intro h
    refine (h.and pairwise_byKey).imp fun {a b} hab => ?_
    rcases hab.2.eq_or_lt with heq | hlt
    · exact hab.1 heq
    · exact hR a b hlt

/-- Of distinct keys, the other direction is the reverse. -/
theorem byKey_toDual (h : (l.map f).Nodup) :
    byKey (fun a => OrderDual.toDual (f a)) l = (byKey f l).reverse := by
  refine List.Perm.eq_of_pairwise ?_ pairwise_byKey (List.pairwise_reverse.2 pairwise_byKey)
    (byKey_perm.trans (byKey_perm.symm.trans (List.reverse_perm _).symm))
  intro a b ha hb hab hba
  have ha' := byKey_perm.mem_iff.1 ha
  have hb' := byKey_perm.mem_iff.1 (List.mem_reverse.1 hb)
  exact List.inj_on_of_nodup_map h ha' hb' (le_antisymm hba hab)

end Sorting

end Lumina
