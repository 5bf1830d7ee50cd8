import Lumina.Trace.Basic
import Mathlib.Algebra.Order.Field.Basic
import Mathlib.Tactic.Linarith
import Mathlib.Tactic.Ring

/-!
# Budgets

The events of a run have times, and take something each.  What they take is paid from a credit,
which the state keeps below a cap and which grows with time at some rate.  What is taken from a
time on is then paid from the credit at that time (`Budget.total_upto_le`), and what is taken in a
window of time is at most the cap and what grows in the window (`Budget.total_window_le`),
whatever was done before.

## Main definitions

* `total took s es` : what the events of a run take together.
* `Budget` : a credit that pays for what is taken.
-/

namespace Lumina

namespace Trace

variable {σ ε K : Type*} [Field K] [LinearOrder K] {step : σ → ε → σ} {time : ε → K}
  {took : σ → ε → K} {Good : ε → Prop} {Inv : K → σ → Prop} {credit : σ → K → K}
  {rate cap now s t : K} {x : σ} {es : List ε}

/-- What the events of a run take together. -/
def total (step : σ → ε → σ) (took : σ → ε → K) (x : σ) : List ε → K
  | [] => 0
  | e :: es => took x e + total step took (step x e) es

/-- What is taken at the times that satisfy `p`. -/
def during (time : ε → K) (took : σ → ε → K) (p : K → Prop) [DecidablePred p] (x : σ) (e : ε) : K :=
  if p (time e) then took x e else 0

omit [LinearOrder K] in
theorem total_congr {took' : σ → ε → K} (h : ∀ e ∈ es, ∀ x, took x e = took' x e) :
    total step took x es = total step took' x es := by
  induction es generalizing x with
  | nil => rfl
  | cons e es ih =>
    rw [total, total, h e List.mem_cons_self, ih fun e he => h e (List.mem_cons_of_mem _ he)]

omit [LinearOrder K] in
theorem total_eq_zero (h : ∀ e ∈ es, ∀ x, took x e = 0) : total step took x es = 0 := by
  induction es generalizing x with
  | nil => rfl
  | cons e es ih =>
    rw [total, h e List.mem_cons_self, ih fun e he => h e (List.mem_cons_of_mem _ he), add_zero]

/-- In a state that satisfies the invariant at a time, the credit pays for what a good event
takes. -/
structure Budget (step : σ → ε → σ) (time : ε → K) (took : σ → ε → K) (Good : ε → Prop)
    (Inv : K → σ → Prop) (credit : σ → K → K) (rate cap : K) : Prop where
  later : ∀ {x now t}, Inv now x → now ≤ t → Inv t x
  nonneg : ∀ {x now}, Inv now x → 0 ≤ credit x now
  le_cap : ∀ x now, credit x now ≤ cap
  grows : ∀ {x now t}, Inv now x → now ≤ t → credit x t ≤ credit x now + rate * (t - now)
  keeps : ∀ {x e}, Good e → Inv (time e) x → Inv (time e) (step x e)
  pays : ∀ {x e}, Good e → Inv (time e) x →
    took x e + credit (step x e) (time e) ≤ credit x (time e)

namespace Budget

variable [IsStrictOrderedRing K]

/-- **What is taken from now on** is paid from the credit and what grows. -/
theorem total_upto_le (b : Budget step time took Good Inv credit rate cap) (hrate : 0 ≤ rate)
    (hgood : ∀ e ∈ es, Good e) (h : Inv now x)
    (hsorted : es.Pairwise fun e e' => time e ≤ time e') (hnow : ∀ e ∈ es, now ≤ time e)
    (hle : now ≤ t) :
    total step (during time took (· ≤ t)) x es ≤ credit x now + rate * (t - now) := by
  have hgrown : 0 ≤ rate * (t - now) := mul_nonneg hrate (sub_nonneg.2 hle)
  induction es generalizing x now with
  | nil => exact add_nonneg (b.nonneg h) hgrown
  | cons e es ih =>
    rw [List.pairwise_cons] at hsorted
    rw [List.forall_mem_cons] at hgood
    by_cases het : time e ≤ t
    · have hnext := b.later h (hnow e List.mem_cons_self)
      have hrest := ih hgood.2 (b.keeps hgood.1 hnext) hsorted.2 hsorted.1 het
        (mul_nonneg hrate (sub_nonneg.2 het))
      have hpays := b.pays hgood.1 hnext
      have hgrows := b.grows h (hnow e List.mem_cons_self)
      have hsplit : rate * (t - now) = rate * (time e - now) + rate * (t - time e) := by ring
      rw [total, during, if_pos het]
      linarith
    · -- the events after the window take nothing in it
      have hzero : total step (during time took (· ≤ t)) x (e :: es) = 0 := by
        refine total_eq_zero fun e' he' y => if_neg fun hle' => het ?_
        rcases List.mem_cons.1 he' with rfl | he'
        · exact hle'
        · exact (hsorted.1 e' he').trans hle'
      rw [hzero]
      exact add_nonneg (b.nonneg h) hgrown

/-- **What is taken in a window of time** does not depend on what was done before. -/
theorem total_window_le (b : Budget step time took Good Inv credit rate cap) (hrate : 0 ≤ rate)
    (hgood : ∀ e ∈ es, Good e) (h : Inv now x)
    (hsorted : es.Pairwise fun e e' => time e ≤ time e') (hnow : ∀ e ∈ es, now ≤ time e)
    (hle : now ≤ s) (hst : s ≤ t) :
    total step (during time took fun r => s ≤ r ∧ r ≤ t) x es ≤ cap + rate * (t - s) := by
  induction es generalizing x now with
  | nil =>
    exact add_nonneg ((b.nonneg h).trans (b.le_cap x now))
      (mul_nonneg hrate (sub_nonneg.2 hst))
  | cons e es ih =>
    have he : now ≤ time e := hnow e List.mem_cons_self
    by_cases hes : time e < s
    · have hskip : during time took (fun r => s ≤ r ∧ r ≤ t) x e = 0 :=
        if_neg fun hin => absurd hin.1 (not_le.2 hes)
      rw [List.pairwise_cons] at hsorted
      rw [List.forall_mem_cons] at hgood
      rw [total, hskip, zero_add]
      exact ih hgood.2 (b.keeps hgood.1 (b.later h he)) hsorted.2 hsorted.1 hes.le
    · -- the window has begun
      have hfrom : ∀ e' ∈ e :: es, s ≤ time e' := by
        intro e' he'
        rcases List.mem_cons.1 he' with rfl | he'
        · exact not_lt.1 hes
        · exact (not_lt.1 hes).trans ((List.pairwise_cons.1 hsorted).1 e' he')
      have hcongr : total step (during time took fun r => s ≤ r ∧ r ≤ t) x (e :: es) =
          total step (during time took (· ≤ t)) x (e :: es) := by
        refine total_congr fun e' he' y => ?_
        unfold during
        simp only [hfrom e' he', true_and]
      rw [hcongr]
      exact (b.total_upto_le hrate hgood (b.later h hle) hsorted hfrom hst).trans
        (add_le_add (b.le_cap x s) le_rfl)

end Budget

end Trace

end Lumina
