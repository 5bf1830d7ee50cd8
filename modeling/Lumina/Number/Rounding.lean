import Lumina.Model.Decimal
import Lumina.Number.Nearest
import Mathlib.Algebra.Order.Field.Basic
import Mathlib.Tactic.NormNum
import Mathlib.Tactic.IntervalCases

/-!
# The range and the rounding of decimals

A `Decimal` is an integer of 96 bits over a power of ten of at most 28, with a sign.  What is known
of an operation is that its result is exact where it is such a number and a nearest one otherwise
(`RustDecimal.RoundsToNearest`), and that it panics beyond the greatest of them
(`RustDecimal.PanicsBeyond`).

## Main definitions

* `maxDecimal`, `IsDecimal` : the greatest decimal, and the decimals.
* `HorizonAmount` : the amounts that Horizon can report.
* `RustDecimal.PanicsBeyond`, `RustDecimal.RoundsToNearest`, `RustDecimal.ScalesI128` : what is
  known of the operations.
* `RustDecimal.rounding` : an arithmetic of which both hold.
-/

namespace Lumina

/-- The greatest `Decimal`. -/
def maxDecimal : Decimal := 2 ^ 96 - 1

/-- The amounts that Horizon reports: whole stroops that an `i64` can hold. -/
def HorizonAmount (q : Decimal) : Prop := ∃ n : ℕ, n ≤ 2 ^ 63 - 1 ∧ q = n / 10 ^ 7

/-- The operations panic beyond the greatest decimal and only there. -/
def RustDecimal.PanicsBeyond (D : RustDecimal) : Prop :=
  ∀ q, D.round q = none ↔ maxDecimal < |q|

/-- The numbers that a `Decimal` can hold. -/
def IsDecimal : Decimal → Prop := Scaled 10 28 (2 ^ 96 - 1)

/-- The operations give a nearest decimal, and have a result up to the greatest decimal. -/
structure RustDecimal.RoundsToNearest (D : RustDecimal) : Prop where
  nearest : ∀ q d, D.round q = some d → Nearest IsDecimal q d
  fits : ∀ q, |q| ≤ maxDecimal → ∃ d, D.round q = some d

/-- A scaled integer is exact, and panics from 96 bits on. -/
def RustDecimal.ScalesI128 (D : RustDecimal) : Prop := ∀ value scale, scale ≤ 28 →
  D.fromI128WithScale value scale =
    if |value| < 2 ^ 96 then some ((value : ℚ) / 10 ^ scale) else none

/-! ### Amounts -/

theorem HorizonAmount.nonneg {q : Decimal} (h : HorizonAmount q) : 0 ≤ q := by
  obtain ⟨n, -, rfl⟩ := h
  exact div_nonneg (Nat.cast_nonneg n) (by norm_num)

/-- The ratio of two amounts fits. -/
theorem HorizonAmount.div_le {q q' : Decimal} (h : HorizonAmount q) (h' : HorizonAmount q')
    (hne : q' ≠ 0) : |q / q'| ≤ maxDecimal := by
  rw [abs_of_nonneg (div_nonneg h.nonneg h'.nonneg)]
  obtain ⟨n, hn, rfl⟩ := h
  obtain ⟨m, -, rfl⟩ := h'
  have hm : (1 : ℚ) ≤ m := by
    have hpos : 0 < m := Nat.pos_of_ne_zero fun hm => hne (by simp [hm])
    exact_mod_cast hpos
  have hnq : (n : ℚ) ≤ 2 ^ 63 - 1 := by
    have : (n : ℚ) ≤ ((2 ^ 63 - 1 : ℕ) : ℚ) := by exact_mod_cast hn
    norm_num at this ⊢
    exact this
  have hcancel : (n : ℚ) / 10 ^ 7 / (m / 10 ^ 7) = n / m := by
    rw [div_div_div_cancel_right₀ (by norm_num)]
  rw [hcancel]
  calc (n : ℚ) / m ≤ n := div_le_self (Nat.cast_nonneg n) hm
    _ ≤ 2 ^ 63 - 1 := hnq
    _ ≤ maxDecimal := by norm_num [maxDecimal]

/-! ### Decimals -/

section Decimals

variable {m : ℤ} {k : ℕ} {q d : Decimal}

theorem IsDecimal.of_int (hm : |m| ≤ 2 ^ 96 - 1) : IsDecimal m := Scaled.of_int hm

theorem isDecimal_zero : IsDecimal 0 := by
  have hzero : IsDecimal ((0 : ℤ) : ℚ) := IsDecimal.of_int (by norm_num)
  rwa [Int.cast_zero] at hzero

theorem IsDecimal.of_div (hm : |m| ≤ 2 ^ 96 - 1) (hk : k ≤ 28) : IsDecimal (m / 10 ^ k) := by
  exact_mod_cast Scaled.of_div (b := 10) hm hk

theorem IsDecimal.abs_le (h : IsDecimal q) : |q| ≤ maxDecimal := by
  have hle : |q| ≤ ((2 ^ 96 - 1 : ℤ) : ℚ) := Scaled.abs_le (by norm_num) h
  norm_num [maxDecimal] at hle ⊢
  exact hle

/-- A hundred times a decimal has no more digits than the decimal. -/
theorem IsDecimal.mul_hundred (h : IsDecimal q) (hq : |q * 100| ≤ maxDecimal) :
    IsDecimal (q * 100) := by
  obtain ⟨m, k, hk, hm, rfl⟩ := h
  rcases Nat.lt_or_ge k 2 with hlt | hge
  · -- an integer, since the decimal has at most one fractional digit
    have hint : (m : ℚ) / (10 : ℕ) ^ k * 100 = ((m * 10 ^ (2 - k) : ℤ) : ℚ) := by
      interval_cases k <;> push_cast <;> ring
    rw [hint] at hq ⊢
    refine IsDecimal.of_int ?_
    have hq : |((m * 10 ^ (2 - k) : ℤ) : ℚ)| ≤ ((2 ^ 96 - 1 : ℤ) : ℚ) := by
      simpa only [maxDecimal, Int.cast_sub, Int.cast_pow, Int.cast_ofNat, Int.cast_one] using hq
    exact_mod_cast hq
  · have hshift : Scaled 10 28 (2 ^ 96 - 1) ((m : ℚ) / (10 : ℕ) ^ k * (10 : ℕ) ^ 2) :=
      Scaled.mul_pow (by norm_num) hge hk hm
    norm_num at hshift ⊢
    exact hshift

variable {D : RustDecimal}

/-- A result that is a decimal is not rounded. -/
theorem RustDecimal.RoundsToNearest.round_eq (hD : D.RoundsToNearest) (hq : IsDecimal q) :
    D.round q = some q := by
  obtain ⟨d, hd⟩ := hD.fits q hq.abs_le
  rw [hd, (hD.nearest q d hd).eq_self hq]

/-- A sum of decimals is rounded to its own side of zero. -/
theorem RustDecimal.RoundsToNearest.add_nonneg_iff {a b : Decimal} (hD : D.RoundsToNearest)
    (ha : IsDecimal a) (hb : IsDecimal b) (h : D.add a b = some d) : 0 ≤ d ↔ 0 ≤ a + b := by
  have hnear := hD.nearest _ _ h
  constructor
  · intro hd
    by_contra hneg
    have hle : a + b ≤ (-1 : ℤ) / (10 : ℕ) ^ 28 := ha.add_le_of_neg (by norm_num) hb (not_le.1 hneg)
    have hd' : d ≤ (-1 : ℤ) / (10 : ℕ) ^ 28 :=
      hnear.le_of_le (Scaled.of_div (by norm_num) le_rfl) hle
    have hlt : ((-1 : ℤ) : ℚ) / (10 : ℕ) ^ 28 < 0 := by norm_num
    linarith
  · exact hnear.le_of_ge isDecimal_zero

/-- A scaled integer is a decimal. -/
theorem RustDecimal.ScalesI128.isDecimal {value : ℤ} {scale : ℕ} (hD : D.ScalesI128)
    (hscale : scale ≤ 28) (h : D.fromI128WithScale value scale = some d) : IsDecimal d := by
  rw [hD value scale hscale] at h
  split_ifs at h with hlt
  rw [← Option.some.inj h]
  exact IsDecimal.of_div (Int.le_sub_one_of_lt hlt) hscale

end Decimals

/-- The arithmetic that takes the first of the nearest decimals, and panics beyond the greatest. -/
def RustDecimal.rounding (fromStr : String → Option Decimal) : RustDecimal where
  round q := if |q| ≤ maxDecimal then some (roundScaled 10 28 (2 ^ 96 - 1) q) else none
  fromI128WithScale value scale :=
    if |value| < 2 ^ 96 then some (value / 10 ^ scale) else none
  fromStr := fromStr
  tryFromF64
    | .finite q => if |q| ≤ maxDecimal then some (roundScaled 10 28 (2 ^ 96 - 1) q) else none
    | _ => none

section Sound

variable (fromStr : String → Option Decimal)

theorem RustDecimal.rounding_panicsBeyond : (rounding fromStr).PanicsBeyond := by
  intro q
  simp only [rounding]
  split_ifs with h
  · simpa using h
  · simpa using h

theorem RustDecimal.rounding_roundsToNearest : (rounding fromStr).RoundsToNearest where
  nearest q d h := by
    simp only [rounding] at h
    split_ifs at h with hq
    rw [← Option.some.inj h]
    exact nearest_roundScaled (by norm_num) (by norm_num)
  fits q hq := ⟨_, if_pos hq⟩

theorem RustDecimal.rounding_scalesI128 : (rounding fromStr).ScalesI128 := fun _ _ _ => rfl

end Sound

end Lumina
