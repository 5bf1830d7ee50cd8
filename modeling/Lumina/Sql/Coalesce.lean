import Mathlib.Algebra.BigOperators.Group.List.Basic
import Mathlib.Algebra.Order.BigOperators.Group.List
import Mathlib.Algebra.Order.Ring.Defs
import Mathlib.Tactic.Linarith
import Mathlib.Tactic.LinearCombination

/-!
# Weighted sums with missing values

`SUM(weight * COALESCE(value, 0))` counts a missing value as zero.  Compared with the total weight
at some level, the sum is what the present values exceed the level by, less the weight of the
missing ones at that level (`coalescedSum_eq`).  So the sum reaches the level exactly if the
present values make up for the missing ones (`level_le_iff`).

## Main definitions

* `coalescedSum` : the sum of the query.
* `missing` : the weight of the rows without a value.
* `excess` : the weighted sum of the differences of the present values to a level.
-/

namespace Lumina

namespace Sql

variable {α K : Type*} [CommRing K] {weight : α → K} {value : α → Option K} {level : K}
  {rows : List α}

/-- `SUM(weight * COALESCE(value, 0))`. -/
def coalescedSum (weight : α → K) (value : α → Option K) (rows : List α) : K :=
  (rows.map fun r => weight r * (value r).getD 0).sum

/-- The weight of the rows without a value. -/
def missing (weight : α → K) (value : α → Option K) (rows : List α) : K :=
  ((rows.filter fun r => (value r).isNone).map weight).sum

/-- By how much the present values exceed a level. -/
def excess (weight : α → K) (value : α → Option K) (level : K) (rows : List α) : K :=
  (rows.map fun r => ((value r).map fun v => weight r * (v - level)).getD 0).sum

theorem coalescedSum_eq : coalescedSum weight value rows =
    level * (rows.map weight).sum +
      (excess weight value level rows - level * missing weight value rows) := by
  induction rows with
  | nil => simp [coalescedSum, excess, missing]
  | cons r rows ih =>
    simp only [coalescedSum, excess, missing] at ih
    cases hv : value r with
    | none =>
      simp only [coalescedSum, excess, missing, List.map_cons, List.sum_cons, List.filter_cons, hv,
        Option.isNone_none, if_true, Option.getD_none, Option.map_none]
      linear_combination ih
    | some v =>
      simp only [coalescedSum, excess, missing, List.map_cons, List.sum_cons, List.filter_cons, hv,
        Option.isNone_some, Bool.false_eq_true, if_false, Option.getD_some, Option.map_some]
      linear_combination ih

variable [LinearOrder K] [IsStrictOrderedRing K]

/-- The sum reaches the level exactly if the present values make up for the missing ones. -/
theorem level_le_iff : level * (rows.map weight).sum ≤ coalescedSum weight value rows ↔
    level * missing weight value rows ≤ excess weight value level rows := by
  rw [@coalescedSum_eq _ _ _ weight value level rows, le_add_iff_nonneg_right, sub_nonneg]

/-- The sum stays below the level exactly if the present values do, but for the missing ones. -/
theorem le_level_iff : coalescedSum weight value rows ≤ level * (rows.map weight).sum ↔
    excess weight value level rows ≤ level * missing weight value rows := by
  rw [@coalescedSum_eq _ _ _ weight value level rows, add_le_iff_nonpos_right, sub_nonpos]

theorem excess_nonneg (hw : ∀ r ∈ rows, 0 ≤ weight r)
    (hv : ∀ r ∈ rows, ∀ v ∈ value r, level ≤ v) : 0 ≤ excess weight value level rows := by
  refine List.sum_nonneg ?_
  intro x hx
  obtain ⟨r, hr, rfl⟩ := List.mem_map.1 hx
  cases h : value r with
  | none => exact le_rfl
  | some v => exact mul_nonneg (hw r hr) (sub_nonneg.2 (hv r hr v h))

theorem excess_nonpos (hw : ∀ r ∈ rows, 0 ≤ weight r)
    (hv : ∀ r ∈ rows, ∀ v ∈ value r, v ≤ level) : excess weight value level rows ≤ 0 := by
  have hle := List.sum_le_card_nsmul
    (rows.map fun r => ((value r).map fun v => weight r * (v - level)).getD 0) 0 ?_
  · rwa [smul_zero] at hle
  · intro x hx
    obtain ⟨r, hr, rfl⟩ := List.mem_map.1 hx
    cases h : value r with
    | none => exact le_rfl
    | some v => exact mul_nonpos_of_nonneg_of_nonpos (hw r hr) (sub_nonpos.2 (hv r hr v h))

theorem missing_nonneg (hw : ∀ r ∈ rows, 0 ≤ weight r) : 0 ≤ missing weight value rows := by
  refine List.sum_nonneg ?_
  intro x hx
  obtain ⟨r, hr, rfl⟩ := List.mem_map.1 hx
  exact hw r (List.mem_filter.1 hr).1

/-- Nothing is missing where only rows without weight have no value. -/
theorem missing_eq_zero_iff (hw : ∀ r ∈ rows, 0 ≤ weight r) :
    missing weight value rows = 0 ↔ ∀ r ∈ rows, value r = none → weight r = 0 := by
  induction rows with
  | nil => simp [missing]
  | cons r rows ih =>
    have hr := hw r List.mem_cons_self
    have hw : ∀ r ∈ rows, 0 ≤ weight r := fun r hr => hw r (List.mem_cons_of_mem _ hr)
    have hrest : 0 ≤ missing weight value rows := missing_nonneg hw
    have ih := ih hw
    simp only [missing] at ih hrest
    rw [List.forall_mem_cons, ← ih]
    cases hv : value r with
    | none =>
      simp only [missing, List.filter_cons, hv, Option.isNone_none, if_true, List.map_cons,
        List.sum_cons, forall_true_left]
      exact add_eq_zero_iff_of_nonneg hr hrest
    | some v => simp [missing, hv]

end Sql

end Lumina
