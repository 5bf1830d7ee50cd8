import Mathlib.Data.Rat.Floor
import Mathlib.Data.List.MinMax
import Mathlib.Algebra.Order.Round
import Mathlib.Tactic.Linarith
import Mathlib.Tactic.Positivity

/-!
# Rounding to the nearest number of a set

An arithmetic that has no exact result rounds it to a nearest number that it can represent.
Whichever it chooses where two are equally near, a representable number is its own rounding
(`Nearest.eq_self`), rounding never carries a number past a representable one (`Nearest.le_of_le`,
`Nearest.le_of_ge`), and it keeps the number strictly above one that is further from it than a
representable number is (`Nearest.gt_of_near`).  The scaled numbers, an integer of bounded size
over a power of the base with a bounded exponent, are the representable numbers of a decimal or a
binary format; a nearest one can be computed (`nearest_roundScaled`).

## Main definitions

* `Nearest R q d` : `d` is a number of `R`, and none is nearer to `q`.
* `Scaled b S M` : the numbers `m / b ^ k` with `|m| ≤ M` and `k ≤ S`.
* `roundScaled` : a nearest scaled number.
-/

namespace Lumina

/-! ### Nearest numbers -/

section Nearest

variable {K : Type*} [Field K] [LinearOrder K] [IsStrictOrderedRing K] {R : K → Prop} {q d t c : K}

/-- `d` is a number of `R`, and none is nearer to `q`. -/
structure Nearest (R : K → Prop) (q d : K) : Prop where
  mem : R d
  near : ∀ c, R c → |q - d| ≤ |q - c|

namespace Nearest

/-- A representable number is its own rounding. -/
theorem eq_self (h : Nearest R q d) (hq : R q) : d = q := by
  have hle : |q - d| ≤ |q - q| := h.near q hq
  rw [sub_self, abs_zero] at hle
  exact (sub_eq_zero.1 (abs_nonpos_iff.1 hle)).symm

/-- Rounding does not carry a number past a representable one above it. -/
theorem le_of_le (h : Nearest R q d) (ht : R t) (hqt : q ≤ t) : d ≤ t := by
  by_contra hlt
  have hnear : |q - d| ≤ |q - t| := h.near t ht
  rw [abs_of_nonpos (by linarith), abs_of_nonpos (by linarith)] at hnear
  linarith

/-- Rounding does not carry a number past a representable one below it. -/
theorem le_of_ge (h : Nearest R q d) (ht : R t) (htq : t ≤ q) : t ≤ d := by
  by_contra hlt
  have hnear : |q - d| ≤ |q - t| := h.near t ht
  rw [abs_of_nonneg (by linarith), abs_of_nonneg (by linarith)] at hnear
  linarith

/-- A number with a representable one nearer to it than `t` stays above `t`. -/
theorem gt_of_near (h : Nearest R q d) (hc : R c) (hnear : |q - c| < q - t) : t < d := by
  have hd : |q - d| < q - t := (h.near c hc).trans_lt hnear
  have := le_abs_self (q - d)
  linarith

end Nearest

end Nearest

/-! ### Scaled numbers -/

/-- An integer of at most `M` in size over a power of `b` with an exponent of at most `S`. -/
def Scaled (b S : ℕ) (M : ℤ) (q : ℚ) : Prop := ∃ m : ℤ, ∃ k ≤ S, |m| ≤ M ∧ q = m / b ^ k

section Scaled

variable {b S k : ℕ} {M m : ℤ} {q d : ℚ}

theorem Scaled.of_int (hm : |m| ≤ M) : Scaled b S M m := ⟨m, 0, Nat.zero_le S, hm, by simp⟩

theorem Scaled.of_div (hm : |m| ≤ M) (hk : k ≤ S) : Scaled b S M (m / b ^ k) := ⟨m, k, hk, hm, rfl⟩

theorem Scaled.neg (h : Scaled b S M q) : Scaled b S M (-q) := by
  obtain ⟨m, k, hk, hm, rfl⟩ := h
  exact ⟨-m, k, hk, by rwa [abs_neg], by push_cast; ring⟩

theorem Scaled.abs_le (hb : 0 < b) (h : Scaled b S M q) : |q| ≤ M := by
  obtain ⟨m, k, -, hm, rfl⟩ := h
  have hpow : (1 : ℚ) ≤ b ^ k := one_le_pow₀ (by exact_mod_cast hb)
  rw [abs_div, abs_of_pos (by linarith : (0 : ℚ) < b ^ k)]
  calc |(m : ℚ)| / b ^ k ≤ |(m : ℚ)| := div_le_self (abs_nonneg _) hpow
    _ ≤ M := by exact_mod_cast hm

/-- The shift by `j` digits of a number that has them. -/
theorem Scaled.mul_pow {j : ℕ} (hb : 0 < b) (hj : j ≤ k) (hk : k ≤ S) (hm : |m| ≤ M) :
    Scaled b S M (m / b ^ k * b ^ j) := by
  have hb' : (b : ℚ) ≠ 0 := by exact_mod_cast hb.ne'
  refine ⟨m, k - j, (Nat.sub_le k j).trans hk, hm, ?_⟩
  rw [div_mul_eq_mul_div, div_eq_div_iff (pow_ne_zero _ hb') (pow_ne_zero _ hb'), mul_assoc,
    ← pow_add, Nat.add_sub_cancel' hj]

/-- A scaled number is a multiple of the unit in the last place. -/
theorem Scaled.exists_int (hb : 0 < b) (h : Scaled b S M q) : ∃ n : ℤ, q = n / b ^ S := by
  obtain ⟨m, k, hk, -, rfl⟩ := h
  have hb' : (b : ℚ) ≠ 0 := by exact_mod_cast hb.ne'
  refine ⟨m * b ^ (S - k), ?_⟩
  rw [div_eq_div_iff (pow_ne_zero _ hb') (pow_ne_zero _ hb')]
  push_cast
  rw [mul_assoc, ← pow_add, Nat.sub_add_cancel hk]

/-- A negative sum of scaled numbers is a unit in the last place away from zero. -/
theorem Scaled.add_le_of_neg (hb : 0 < b) (h : Scaled b S M q) (h' : Scaled b S M d)
    (hneg : q + d < 0) : q + d ≤ (-1 : ℤ) / b ^ S := by
  obtain ⟨m, rfl⟩ := h.exists_int hb
  obtain ⟨n, rfl⟩ := h'.exists_int hb
  have hpow : (0 : ℚ) < b ^ S := pow_pos (by exact_mod_cast hb) S
  rw [← add_div] at hneg ⊢
  have hlt : (m : ℚ) + n < 0 := by
    by_contra hle
    exact absurd hneg (not_lt.2 (div_nonneg (not_lt.1 hle) hpow.le))
  have hle : m + n ≤ -1 := by
    have : m + n < 0 := by exact_mod_cast hlt
    omega
  exact div_le_div_of_nonneg_right (by exact_mod_cast hle) hpow.le

/-- **Half a unit in the last place**: a number in range has a scaled one that near. -/
theorem exists_scaled_near (hb : 0 < b) (hq : |q| * b ^ S + 1 / 2 ≤ M) :
    ∃ c, Scaled b S M c ∧ |q - c| ≤ 1 / (2 * b ^ S) := by
  have hpow : (0 : ℚ) < b ^ S := pow_pos (by exact_mod_cast hb) S
  have hround : |q * b ^ S - round (q * b ^ S)| ≤ 1 / 2 := abs_sub_round _
  refine ⟨round (q * b ^ S) / b ^ S, Scaled.of_div ?_ le_rfl, ?_⟩
  · have habs : |q * b ^ S| = |q| * b ^ S := by rw [abs_mul, abs_of_pos hpow]
    have htri := abs_sub_abs_le_abs_sub (round (q * b ^ S) : ℚ) (q * b ^ S)
    rw [abs_sub_comm] at htri
    have : |(round (q * b ^ S) : ℚ)| ≤ M := by linarith
    exact_mod_cast this
  · have heq : q - round (q * b ^ S) / b ^ S = (q * b ^ S - round (q * b ^ S)) / b ^ S := by
      rw [sub_div, mul_div_cancel_right₀ _ hpow.ne']
    rw [heq, abs_div, abs_of_pos hpow, ← div_div]
    exact div_le_div_of_nonneg_right hround hpow.le

/-! ### A nearest scaled number, computed -/

/-- The integer of at most `M` in size that is nearest to `n`. -/
def clamp (M n : ℤ) : ℤ := max (-M) (min M n)

theorem abs_clamp_le (hM : 0 ≤ M) (n : ℤ) : |clamp M n| ≤ M :=
  abs_le.2 ⟨le_max_left _ _, max_le (by omega) (min_le_left _ _)⟩

/-- The numbers next to `q` from below and from above, for each exponent. -/
def neighbours (b S : ℕ) (M : ℤ) (q : ℚ) : List ℚ :=
  (List.range (S + 1)).flatMap fun k =>
    [clamp M ⌊q * b ^ k⌋ / b ^ k, clamp M ⌈q * b ^ k⌉ / b ^ k]

/-- The first of the neighbours that are nearest to `q`. -/
def roundScaled (b S : ℕ) (M : ℤ) (q : ℚ) : ℚ :=
  ((neighbours b S M q).argmin fun d => |q - d|).getD 0

theorem scaled_of_mem_neighbours (hM : 0 ≤ M) (h : d ∈ neighbours b S M q) : Scaled b S M d := by
  obtain ⟨k, hk, hd⟩ := List.mem_flatMap.1 h
  have hk : k ≤ S := Nat.lt_succ_iff.1 (List.mem_range.1 hk)
  simp only [List.mem_cons, List.not_mem_nil, or_false] at hd
  rcases hd with rfl | rfl
  · exact Scaled.of_div (abs_clamp_le hM _) hk
  · exact Scaled.of_div (abs_clamp_le hM _) hk

/-- A scaled number is no nearer than one of the neighbours. -/
theorem exists_neighbour (hb : 0 < b) (h : Scaled b S M d) :
    ∃ c ∈ neighbours b S M q, |q - c| ≤ |q - d| := by
  obtain ⟨m, k, hk, hm, rfl⟩ := h
  obtain ⟨hlow, hhigh⟩ := abs_le.1 hm
  have hpow : (0 : ℚ) < b ^ k := pow_pos (by exact_mod_cast hb) k
  have hmem : ∀ c ∈ [(clamp M ⌊q * b ^ k⌋ : ℚ) / b ^ k, clamp M ⌈q * b ^ k⌉ / b ^ k],
      c ∈ neighbours b S M q := fun c hc =>
    List.mem_flatMap.2 ⟨k, List.mem_range.2 (Nat.lt_succ_of_le hk), hc⟩
  rcases le_total (m : ℚ) (q * b ^ k) with hle | hle
  · -- the clamped floor lies between the two
    have hfloor : m ≤ clamp M ⌊q * b ^ k⌋ := le_max_of_le_right (le_min hhigh (Int.le_floor.2 hle))
    have hbelow : clamp M ⌊q * b ^ k⌋ ≤ ⌊q * b ^ k⌋ :=
      max_le (hlow.trans (Int.le_floor.2 hle)) (min_le_right _ _)
    have hq : (clamp M ⌊q * b ^ k⌋ : ℚ) / b ^ k ≤ q :=
      (div_le_iff₀ hpow).2 ((Int.cast_le.2 hbelow).trans (Int.floor_le _))
    have hd : (m : ℚ) / b ^ k ≤ clamp M ⌊q * b ^ k⌋ / b ^ k :=
      div_le_div_of_nonneg_right (Int.cast_le.2 hfloor) hpow.le
    refine ⟨_, hmem _ List.mem_cons_self, ?_⟩
    rw [abs_of_nonneg (by linarith), abs_of_nonneg (by linarith)]
    linarith
  · have hceil : clamp M ⌈q * b ^ k⌉ ≤ m :=
      max_le hlow ((min_le_right _ _).trans (Int.ceil_le.2 hle))
    have habove : ⌈q * b ^ k⌉ ≤ clamp M ⌈q * b ^ k⌉ :=
      le_max_of_le_right (le_min ((Int.ceil_le.2 hle).trans hhigh) le_rfl)
    have hq : q ≤ (clamp M ⌈q * b ^ k⌉ : ℚ) / b ^ k :=
      (le_div_iff₀ hpow).2 ((Int.le_ceil _).trans (Int.cast_le.2 habove))
    have hd : (clamp M ⌈q * b ^ k⌉ : ℚ) / b ^ k ≤ m / b ^ k :=
      div_le_div_of_nonneg_right (Int.cast_le.2 hceil) hpow.le
    refine ⟨_, hmem _ (List.mem_cons_of_mem _ List.mem_cons_self), ?_⟩
    rw [abs_of_nonpos (by linarith), abs_of_nonpos (by linarith)]
    linarith

/-- **The first nearest neighbour is a nearest scaled number.** -/
theorem nearest_roundScaled (hb : 0 < b) (hM : 0 ≤ M) :
    Nearest (Scaled b S M) q (roundScaled b S M q) := by
  obtain ⟨c, hc, -⟩ := exists_neighbour (q := q) hb (Scaled.of_int (S := S) (m := 0) (by simpa))
  unfold roundScaled
  cases hmin : (neighbours b S M q).argmin fun d => |q - d| with
  | none =>
    rw [List.argmin_eq_none.1 hmin] at hc
    simp at hc
  | some d =>
    refine ⟨scaled_of_mem_neighbours hM (List.argmin_mem hmin), fun c hc => ?_⟩
    obtain ⟨c', hc', hle⟩ := exists_neighbour (q := q) hb hc
    exact (List.le_of_mem_argmin hc' hmin).trans hle

end Scaled

end Lumina
