import Mathlib.Data.List.Induction
import Mathlib.Order.Basic

/-!
# Traces

A component that reacts to events is a function `step` from a state and an event to the next
state, and a run is the fold of its events.  This file has the rules for runs: an invariant that
every event keeps holds after a run (`run_invariant`); a property of steps holds at every step of
a run (`Each`); and events that a part of the state does not notice may be left out of the run
(`run_filter`).

## Main definitions

* `run` : the state after some events.
* `Each P` : every event of a run satisfies `P` in the state that it meets.
-/

namespace Lumina

namespace Trace

variable {σ ε ω : Type*} {step : σ → ε → σ} {s s' : σ} {es es' : List ε} {e : ε}

/-- The state after some events. -/
def run (step : σ → ε → σ) (s : σ) (es : List ε) : σ := es.foldl step s

@[simp] theorem run_nil : run step s [] = s := rfl

@[simp] theorem run_cons : run step s (e :: es) = run step (step s e) es := rfl

theorem run_append : run step s (es ++ es') = run step (run step s es) es' := List.foldl_append

@[simp] theorem run_snoc : run step s (es ++ [e]) = step (run step s es) e := by
  rw [run_append, run_cons, run_nil]

/-- What holds at the start and is kept by every event holds after a run. -/
theorem run_invariant {Inv : σ → Prop} (h : Inv s) (hstep : ∀ s e, Inv s → Inv (step s e))
    (es : List ε) : Inv (run step s es) := by
  induction es generalizing s with
  | nil => exact h
  | cons e es ih => exact ih (hstep s e h)

/-- Every event of the run satisfies `P` in the state that it meets. -/
def Each (step : σ → ε → σ) (P : σ → ε → Prop) (s : σ) : List ε → Prop
  | [] => True
  | e :: es => P s e ∧ Each step P (step s e) es

section Each

variable {P Q : σ → ε → Prop}

@[simp] theorem each_nil : Each step P s [] := trivial

@[simp] theorem each_cons : Each step P s (e :: es) ↔ P s e ∧ Each step P (step s e) es := Iff.rfl

theorem each_append :
    Each step P s (es ++ es') ↔ Each step P s es ∧ Each step P (run step s es) es' := by
  induction es generalizing s with
  | nil => simp
  | cons e es ih => simp [ih, and_assoc]

@[simp] theorem each_snoc :
    Each step P s (es ++ [e]) ↔ Each step P s es ∧ P (run step s es) e := by
  simp [each_append]

theorem Each.mono (hPQ : ∀ s e, P s e → Q s e) (h : Each step P s es) : Each step Q s es := by
  induction es generalizing s with
  | nil => exact trivial
  | cons e es ih => exact ⟨hPQ s e h.1, ih h.2⟩

/-- What every event satisfies that meets the invariant and satisfies `P`, which keeps it. -/
theorem Each.of_invariant {Inv : σ → Prop} (h : Inv s)
    (hstep : ∀ s e, Inv s → P s e → Inv (step s e) ∧ Q s e) (hes : Each step P s es) :
    Each step Q s es := by
  induction es generalizing s with
  | nil => exact trivial
  | cons e es ih =>
    obtain ⟨hnext, hq⟩ := hstep s e h hes.1
    exact ⟨hq, ih hnext hes.2⟩

/-- A property of states that an event keeps, and does what else it should, exactly if the event
satisfies `Q`. -/
theorem each_iff {Good : σ → Prop} (hs : Good s)
    (h : ∀ s e, Good s → (Good (step s e) ∧ P s e ↔ Q s e)) :
    Each step (fun s e => Good (step s e) ∧ P s e) s es ↔ Each step Q s es := by
  induction es generalizing s with
  | nil => exact Iff.rfl
  | cons e es ih =>
    rw [each_cons, each_cons, ← h s e hs]
    exact and_congr_right fun hgood => ih hgood.1

end Each

/-- **Events that a view does not notice may be left out.** -/
theorem run_filter {view : σ → ω} {p : ε → Bool}
    (hskip : ∀ s, ∀ e ∈ es, p e = false → view (step s e) = view s)
    (hcongr : ∀ s s', ∀ e ∈ es, p e = true → view s = view s' →
      view (step s e) = view (step s' e))
    (h : view s = view s') : view (run step s es) = view (run step s' (es.filter p)) := by
  induction es generalizing s s' with
  | nil => exact h
  | cons e es ih =>
    have ih : ∀ {s s' : σ}, view s = view s' →
        view (run step s es) = view (run step s' (es.filter p)) :=
      ih (fun s e he => hskip s e (List.mem_cons_of_mem _ he))
        fun s s' e he => hcongr s s' e (List.mem_cons_of_mem _ he)
    cases hp : p e with
    | true =>
      rw [List.filter_cons_of_pos hp, run_cons, run_cons]
      exact ih (hcongr s s' e List.mem_cons_self hp h)
    | false =>
      rw [List.filter_cons_of_neg (by simp [hp]), run_cons]
      exact ih ((hskip s e List.mem_cons_self hp).trans h)

end Trace

end Lumina
