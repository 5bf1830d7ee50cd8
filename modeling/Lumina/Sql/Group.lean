import Mathlib.Algebra.BigOperators.Group.Finset.Piecewise
import Mathlib.Algebra.Order.BigOperators.Group.Finset
import Mathlib.Algebra.Order.BigOperators.Group.List
import Mathlib.Algebra.Order.Group.Defs

/-!
# Grouped sums

`GROUP BY key` splits the rows of a query into groups, and a sum over all rows is the sum over
the groups of their sums (`sum_group`).  Each group also has a lowest and a highest value.  The
sum of non-negative values is above the highest of them as soon as two of them are not zero, so
a sum over all rows stays between the lowest and the highest values of the groups exactly if
each group has at most one value other than zero (`sum_le_iff`).

## Main definitions

* `keys`, `group` : the groups of a query.
* `lowest`, `highest` : the ends of the values of a group.
* `OneNonzero` : at most one of the values is not zero.
-/

namespace Lumina

namespace Sql

variable {α κ M : Type*} [DecidableEq κ]

/-- The keys of the groups. -/
def keys (key : α → κ) (rows : List α) : Finset κ := (rows.map key).toFinset

/-- The group of a key. -/
def group (key : α → κ) (rows : List α) (k : κ) : List α := rows.filter fun r => decide (key r = k)

variable {key : α → κ} {rows : List α} {k : κ}

theorem mem_keys : k ∈ keys key rows ↔ ∃ r ∈ rows, key r = k := by
  simp [keys]

theorem group_ne_nil (h : k ∈ keys key rows) : group key rows k ≠ [] := by
  obtain ⟨r, hr, hk⟩ := mem_keys.1 h
  exact List.ne_nil_of_mem (List.mem_filter.2 ⟨hr, decide_eq_true hk⟩)

/-- **A sum by groups.** -/
theorem sum_group [AddCommMonoid M] (key : α → κ) (val : α → M) (rows : List α) :
    ∑ k ∈ keys key rows, ((group key rows k).map val).sum = (rows.map val).sum := by
  -- the induction on the rows needs the keys fixed, so any set of keys that covers them will do
  have hcover : ∀ s : Finset κ, (∀ r ∈ rows, key r ∈ s) →
      ∑ k ∈ s, ((group key rows k).map val).sum = (rows.map val).sum := by
    intro s
    induction rows with
    | nil => simp [group]
    | cons r rows ih =>
      intro hs
      have hcons : ∀ k, ((group key (r :: rows) k).map val).sum =
          (if key r = k then val r else 0) + ((group key rows k).map val).sum := by
        intro k
        by_cases hk : key r = k
        · simp [group, hk]
        · simp [group, hk]
      simp only [hcons, Finset.sum_add_distrib, List.map_cons, List.sum_cons]
      rw [ih fun r hr => hs r (List.mem_cons_of_mem _ hr), Finset.sum_ite_eq,
        if_pos (hs r (by simp))]
  exact hcover _ fun r hr => mem_keys.2 ⟨r, hr, rfl⟩

/-! ### The ends of a group -/

section Ends

variable [AddCommGroup M] [LinearOrder M] {vals : List M} {x : M}

/-- The lowest value, and zero where there is none. -/
def lowest (vals : List M) : M := vals.min?.getD 0

/-- The highest value, and zero where there is none. -/
def highest (vals : List M) : M := vals.max?.getD 0

/-- At most one of the values is not zero. -/
def OneNonzero (vals : List M) : Prop := (vals.filter fun x => decide (x ≠ 0)).length ≤ 1

theorem lowest_le (h : x ∈ vals) : lowest vals ≤ x := by
  obtain ⟨m, hm⟩ := Option.isSome_iff_exists.1 (List.isSome_min?_of_mem h)
  rw [lowest, hm]
  exact (List.min?_eq_some_iff.1 hm).2 x h

theorem le_highest (h : x ∈ vals) : x ≤ highest vals := by
  obtain ⟨m, hm⟩ := Option.isSome_iff_exists.1 (List.isSome_max?_of_mem h)
  rw [highest, hm]
  exact (List.max?_eq_some_iff.1 hm).2 x h

theorem highest_mem (h : vals ≠ []) : highest vals ∈ vals := by
  obtain ⟨m, hm⟩ := Option.isSome_iff_exists.1 (List.isSome_max?_of_ne_nil h)
  rw [highest, hm]
  exact (List.max?_eq_some_iff.1 hm).1

theorem sum_filter_ne_zero (vals : List M) :
    (vals.filter fun x => decide (x ≠ 0)).sum = vals.sum := by
  induction vals with
  | nil => rfl
  | cons x vals ih =>
    by_cases hx : x = 0
    · simpa [hx] using ih
    · simpa [hx] using ih

/-- The sum is one of the values where at most one of them is not zero. -/
theorem OneNonzero.sum_mem (h : OneNonzero vals) (hne : vals ≠ []) : vals.sum ∈ vals := by
  rw [← sum_filter_ne_zero]
  unfold OneNonzero at h
  rcases hf : vals.filter (fun x => decide (x ≠ 0)) with _ | ⟨x, rest⟩
  · -- all values are zero
    obtain ⟨y, hy⟩ := List.exists_mem_of_ne_nil vals hne
    have hzero : y = 0 := by
      have := List.filter_eq_nil_iff.1 hf y hy
      simpa using this
    rw [List.sum_nil, ← hzero]
    exact hy
  · rw [hf] at h
    have hrest : rest = [] := by
      cases rest with
      | nil => rfl
      | cons y rest => simp at h
    have hx : x ∈ vals := List.mem_of_mem_filter (hf ▸ List.mem_cons_self)
    rw [hrest, List.sum_singleton]
    exact hx

variable [IsOrderedAddMonoid M]

theorem highest_le_sum (h : ∀ x ∈ vals, 0 ≤ x) : highest vals ≤ vals.sum := by
  by_cases hne : vals = []
  · simp [hne, highest]
  · exact List.single_le_sum h _ (highest_mem hne)

/-- Values whose sum is their highest have at most one that is not zero. -/
theorem oneNonzero_of_sum_le (h : ∀ x ∈ vals, 0 ≤ x) (hsum : vals.sum ≤ highest vals) :
    OneNonzero vals := by
  by_cases hne : vals = []
  · simp [hne, OneNonzero]
  · obtain ⟨l, l', hl⟩ := List.append_of_mem (highest_mem hne)
    generalize highest vals = v at hsum hl
    subst hl
    -- the values beside the highest one sum to zero, so each of them is zero
    have hpos : 0 ≤ l.sum := List.sum_nonneg fun x hx => h x (by simp [hx])
    have hpos' : 0 ≤ l'.sum := List.sum_nonneg fun x hx => h x (by simp [hx])
    have hle : l.sum + l'.sum ≤ 0 := by
      rw [List.sum_append, List.sum_cons, add_left_comm] at hsum
      simpa using hsum
    have hzero : l.sum = 0 := le_antisymm ((le_add_of_nonneg_right hpos').trans hle) hpos
    have hzero' : l'.sum = 0 := le_antisymm ((le_add_of_nonneg_left hpos).trans hle) hpos'
    have hall : ∀ x ∈ l, x = 0 := fun x hx =>
      List.all_zero_of_le_zero_le_of_sum_eq_zero (fun x hx => h x (by simp [hx])) hzero hx
    have hall' : ∀ x ∈ l', x = 0 := fun x hx =>
      List.all_zero_of_le_zero_le_of_sum_eq_zero (fun x hx => h x (by simp [hx])) hzero' hx
    have hfilter : l.filter (fun x => decide (x ≠ 0)) = [] :=
      List.filter_eq_nil_iff.2 fun x hx => by simp [hall x hx]
    have hfilter' : l'.filter (fun x => decide (x ≠ 0)) = [] :=
      List.filter_eq_nil_iff.2 fun x hx => by simp [hall' x hx]
    unfold OneNonzero
    rw [List.filter_append, hfilter, List.nil_append, List.filter_cons]
    split_ifs
    · rw [hfilter', List.length_singleton]
    · rw [hfilter']
      exact Nat.zero_le 1

/-- The sum over all rows is between the ends of the groups where each group has at most one
value that is not zero. -/
theorem sum_between {val : α → M} (h : ∀ k, OneNonzero ((group key rows k).map val)) :
    ∑ k ∈ keys key rows, lowest ((group key rows k).map val) ≤ (rows.map val).sum ∧
      (rows.map val).sum ≤ ∑ k ∈ keys key rows, highest ((group key rows k).map val) := by
  have hmem : ∀ k ∈ keys key rows,
      ((group key rows k).map val).sum ∈ (group key rows k).map val := fun k hk =>
    (h k).sum_mem (by simpa using group_ne_nil hk)
  rw [← sum_group key val rows]
  exact ⟨Finset.sum_le_sum fun k hk => lowest_le (hmem k hk),
    Finset.sum_le_sum fun k hk => le_highest (hmem k hk)⟩

/-- **A sum of non-negative values is at most the sum of the highest of the groups exactly if
each group has at most one value that is not zero.** -/
theorem sum_le_iff {val : α → M} (h : ∀ r ∈ rows, 0 ≤ val r) :
    (rows.map val).sum ≤ ∑ k ∈ keys key rows, highest ((group key rows k).map val) ↔
      ∀ k, OneNonzero ((group key rows k).map val) := by
  have hnonneg : ∀ k, ∀ x ∈ (group key rows k).map val, 0 ≤ x := by
    intro k x hx
    obtain ⟨r, hr, rfl⟩ := List.mem_map.1 hx
    exact h r (List.mem_of_mem_filter hr)
  refine ⟨?_, fun hone => (sum_between hone).2⟩
  intro hsum k
  rw [← sum_group key val rows] at hsum
  by_cases hk : k ∈ keys key rows
  · refine oneNonzero_of_sum_le (hnonneg k) ?_
    by_contra hlt
    -- one group above its highest value puts the sum above
    refine absurd hsum (not_le.2 (Finset.sum_lt_sum (fun k _ => highest_le_sum (hnonneg k)) ?_))
    exact ⟨k, hk, not_le.1 hlt⟩
  · have hnil : group key rows k = [] := by
      by_contra hne
      obtain ⟨r, hr⟩ := List.exists_mem_of_ne_nil _ hne
      have hr' := List.mem_filter.1 hr
      exact hk (mem_keys.2 ⟨r, hr'.1, of_decide_eq_true hr'.2⟩)
    simp [hnil, OneNonzero]

end Ends

end Sql

end Lumina
