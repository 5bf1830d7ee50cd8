import Lumina.Trace.Basic
import Mathlib.Data.Nat.Basic

/-!
# Progress

Of the events of a run some help and the others do no harm.  `Often P n` says that at least `n` of
them satisfy `P` where they happen.  If no event lowers a measure and each that satisfies `P` raises
it, up to a bound, then the measure is after the run as high as so many of them can raise it
(`Often.progress`).  Nothing is assumed of when they happen or of what happens between them.

## Main definitions

* `Often P n` : at least `n` events of a run satisfy `P` in the states that they meet.
-/

namespace Lumina

namespace Trace

variable {σ ε : Type*} {step : σ → ε → σ} {P : σ → ε → Prop} {Q : ε → Prop} {Inv : σ → Prop}
  {μ : σ → ℕ} {s : σ} {es : List ε} {n gain bound : ℕ}

/-- At least `n` events of the run satisfy `P` in the states that they meet. -/
inductive Often (step : σ → ε → σ) (P : σ → ε → Prop) : ℕ → σ → List ε → Prop
  | done {s : σ} {es : List ε} : Often step P 0 s es
  | hit {n : ℕ} {s : σ} {e : ε} {es : List ε} : P s e → Often step P n (step s e) es →
      Often step P (n + 1) s (e :: es)
  | wait {n : ℕ} {s : σ} {e : ε} {es : List ε} : Often step P n (step s e) es →
      Often step P n s (e :: es)

/-- What no event lowers is after a run at least what it was. -/
theorem le_run (hes : ∀ e ∈ es, Q e) (hs : Inv s)
    (hstep : ∀ s e, Inv s → Q e → Inv (step s e) ∧ μ s ≤ μ (step s e)) :
    μ s ≤ μ (run step s es) := by
  induction es generalizing s with
  | nil => exact le_rfl
  | cons e es ih =>
    obtain ⟨hq, hrest⟩ := List.forall_mem_cons.1 hes
    obtain ⟨hnext, hle⟩ := hstep s e hs hq
    exact hle.trans (ih hrest hnext)

/-- **Progress.**  Events that raise the measure raise it together, whatever comes between. -/
theorem Often.progress (h : Often step P n s es) (hes : ∀ e ∈ es, Q e) (hs : Inv s)
    (hstep : ∀ s e, Inv s → Q e → Inv (step s e) ∧ μ s ≤ μ (step s e))
    (hgain : ∀ s e, Inv s → P s e → min (μ s + gain) bound ≤ μ (step s e)) :
    min (μ s + gain * n) bound ≤ μ (run step s es) := by
  induction h with
  | done =>
    have hle := le_run hes hs hstep
    rw [Nat.mul_zero, Nat.add_zero]
    omega
  | @hit n s e es hp _ ih =>
    obtain ⟨hq, hrest⟩ := List.forall_mem_cons.1 hes
    have hnext := ih hrest (hstep s e hs hq).1
    have hraised := hgain s e hs hp
    rw [run_cons, Nat.mul_succ]
    omega
  | @wait n s e es _ ih =>
    obtain ⟨hq, hrest⟩ := List.forall_mem_cons.1 hes
    obtain ⟨hinv, hle⟩ := hstep s e hs hq
    have hnext := ih hrest hinv
    rw [run_cons]
    omega

end Trace

end Lumina
