import Lumina.Model.UsePolled
import Lumina.Trace.Basic

/-!
# The order of polled data

The flag of an effect keeps the responses of earlier effects out of `data`.  It does not tell the
requests of one effect apart: where their responses overtake each other an older one is stored
over a newer one, and until the effect of a new render has run the flag of the last one is still
down.  `polled_forward_iff` says that these are the only ways in which data goes backwards.

## Main definitions

* `UsePolled.NeverBackwards` : nothing older was stored later.
* `UsePolled.InOrder` : the responses of one effect arrive in order.
* `UsePolled.Inv` : the invariant of the runs.
-/

namespace Lumina

open Lumina.Trace

namespace UsePolled

variable {T : Type} {s : UsePolled T}

/-- Nothing older was stored later: no response of an earlier request, and none of a request for
the dependencies of an earlier render. -/
def NeverBackwards (s : UsePolled T) : Prop :=
  s.stored.Pairwise (fun p q => p.request.id ≤ q.request.id) ∧
    ∀ p ∈ s.stored, p.request.deps = p.deps

/-- Where data arrives for an effect that has not been cleaned up, none has arrived for a later
request of that effect; and while a new render waits for its effect, only data arrives that was
asked for since. -/
def InOrder (s : UsePolled T) : PollEvent T → Prop
  | .settled id (.ok _) => ∀ q, s.request id = some q → s.cancelled q.effect = false →
    (∀ p ∈ s.received, p.effect = q.effect → p.id ≤ q.id) ∧ (s.due = true → q.deps = s.deps)
  | _ => True

/-! ### The invariant -/

/-- The requests that have been started and have not failed. -/
def started (s : UsePolled T) : List PollRequest := s.inFlight ++ s.received

/-- The invariant of the runs. -/
structure Inv (s : UsePolled T) : Prop where
  lt : ∀ q ∈ s.started, q.id < s.requests ∧ q.effect < s.effects
  /-- Later effects start their requests later. -/
  order : ∀ p ∈ s.started, ∀ q ∈ s.started, p.effect < q.effect → p.id < q.id
  deps : ∀ q ∈ s.started, s.cancelled q.effect = false → s.due = false → q.deps = s.deps
  /-- Only the last effect is not cleaned up. -/
  live : ∀ e < s.effects, s.cancelled e = false → e + 1 = s.effects
  runRef : ∀ e, s.runRef = some e → e + 1 = s.effects
  interval : ∀ e, s.interval = some e → e + 1 = s.effects
  stored_received : ∀ p ∈ s.stored, p.request ∈ s.received
  received_stored : ∀ q ∈ s.received, s.cancelled q.effect = false →
    ∃ p ∈ s.stored, p.request = q

theorem inv_mount : (mount : UsePolled T).Inv where
  lt := by simp [mount, started]
  order := by simp [mount, started]
  deps := by simp [mount, started]
  live := by simp [mount]
  runRef := by simp [mount]
  interval := by simp [mount]
  stored_received := by simp [mount]
  received_stored := by simp [mount]

theorem mem_started_run {e : ℕ} {first : Bool} {q : PollRequest} :
    q ∈ (s.run e first).started ↔ q ∈ s.started ∨ q = ⟨s.requests, e, s.deps⟩ := by
  simp only [started, run, List.mem_append, List.mem_singleton]
  tauto

theorem mem_started_effect {q : PollRequest} :
    q ∈ s.effect.started ↔ q ∈ s.started ∨ q = ⟨s.requests, s.effects, s.deps⟩ := by
  simp only [started, effect, run, List.mem_append, List.mem_singleton]
  tauto

/-- The last effect starts a request. -/
theorem Inv.run (h : s.Inv) {e : ℕ} {first : Bool} (he : e + 1 = s.effects) :
    (s.run e first).Inv where
  lt q hq := by
    rcases mem_started_run.1 hq with hq | rfl
    · obtain ⟨hid, heffect⟩ := h.lt q hq
      exact ⟨Nat.lt_succ_of_lt hid, heffect⟩
    · exact ⟨Nat.lt_succ_self _, he ▸ Nat.lt_succ_self e⟩
  order p hp q hq hlt := by
    rcases mem_started_run.1 hp with hp | rfl <;> rcases mem_started_run.1 hq with hq | rfl
    · exact h.order p hp q hq hlt
    · exact (h.lt p hp).1
    · have hlast := (h.lt q hq).2
      simp only at hlt
      omega
    · exact absurd hlt (Nat.lt_irrefl _)
  deps q hq hlive hdue := by
    rcases mem_started_run.1 hq with hq | rfl
    · exact h.deps q hq hlive hdue
    · rfl
  live := h.live
  runRef := h.runRef
  interval := h.interval
  stored_received := h.stored_received
  received_stored := h.received_stored

/-- The cleanup of the last effect. -/
theorem Inv.cleanup (h : s.Inv) :
    s.cleanup.Inv ∧ ∀ e < s.cleanup.effects, s.cleanup.cancelled e = true := by
  have hcancelled : ∀ e, s.cleanup.cancelled e = false → e + 1 ≠ s.effects ∧
      s.cancelled e = false := by
    intro e he
    unfold UsePolled.cleanup at he
    simp only at he
    split_ifs at he with hlast
    exact ⟨hlast, he⟩
  have hall : ∀ e < s.effects, s.cleanup.cancelled e = true := by
    intro e he
    by_contra hlive
    obtain ⟨hlast, hlive⟩ := hcancelled e (eq_false_of_ne_true hlive)
    exact hlast (h.live e he hlive)
  refine ⟨?_, hall⟩
  exact
    { lt := h.lt
      order := h.order
      deps := fun q hq hlive hdue => h.deps q hq (hcancelled _ hlive).2 hdue
      live := fun e he hlive => absurd ((hall e he).symm.trans hlive) (by decide)
      runRef := h.runRef
      interval := by simp [UsePolled.cleanup]
      stored_received := h.stored_received
      received_stored := fun q hq hlive => h.received_stored q hq (hcancelled _ hlive).2 }

/-- A new effect, where the others have been cleaned up. -/
theorem Inv.effect (h : s.Inv) (hall : ∀ e < s.effects, s.cancelled e = true) : s.effect.Inv where
  lt q hq := by
    rcases mem_started_effect.1 hq with hq | rfl
    · obtain ⟨hid, heffect⟩ := h.lt q hq
      exact ⟨Nat.lt_succ_of_lt hid, Nat.lt_succ_of_lt heffect⟩
    · exact ⟨Nat.lt_succ_self _, Nat.lt_succ_self _⟩
  order p hp q hq hlt := by
    rcases mem_started_effect.1 hp with hp | rfl <;> rcases mem_started_effect.1 hq with hq | rfl
    · exact h.order p hp q hq hlt
    · exact (h.lt p hp).1
    · exact absurd hlt (Nat.not_lt.2 (Nat.le_of_lt (h.lt q hq).2))
    · exact absurd hlt (Nat.lt_irrefl _)
  deps q hq hlive _ := by
    rcases mem_started_effect.1 hq with hq | rfl
    · exact absurd ((hall _ (h.lt q hq).2).symm.trans hlive) (by decide)
    · rfl
  live e he hlive := by
    rcases Nat.lt_succ_iff_lt_or_eq.1 he with he | rfl
    · exact absurd ((hall e he).symm.trans hlive) (by decide)
    · rfl
  runRef e he := by
    obtain rfl := Option.some.inj he
    rfl
  interval e he := by
    obtain rfl := Option.some.inj he
    rfl
  stored_received := h.stored_received
  received_stored := h.received_stored

theorem Inv.flush (h : s.Inv) : s.flush.Inv := by
  unfold UsePolled.flush
  split_ifs
  · obtain ⟨hclean, hall⟩ := h.cleanup
    exact hclean.effect hall
  · exact h

/-! ### Responses -/

/-- A response changes neither the effects nor the renders, and starts nothing. -/
theorem Inv.arrived (h : s.Inv) {state : AsyncState T} {inFlight received : List PollRequest}
    {stored : List (Stored T)} (hsub : ∀ p ∈ inFlight ++ received, p ∈ s.started)
    (hstored : ∀ p ∈ stored, p.request ∈ received)
    (hreceived : ∀ q ∈ received, s.cancelled q.effect = false → ∃ p ∈ stored, p.request = q) :
    Inv { s with state := state, inFlight := inFlight, received := received, stored := stored } where
  lt p hp := h.lt p (hsub p hp)
  order p hp p' hp' := h.order p (hsub p hp) p' (hsub p' hp')
  deps p hp := h.deps p (hsub p hp)
  live := h.live
  runRef := h.runRef
  interval := h.interval
  stored_received := hstored
  received_stored := hreceived

theorem mem_erase_append {q p : PollRequest} {received : List PollRequest}
    (h : p ∈ s.inFlight.erase q ++ received) (hreceived : ∀ p ∈ received, p ∈ s.started) :
    p ∈ s.started := by
  rcases List.mem_append.1 h with hp | hp
  · exact List.mem_append_left _ (List.mem_of_mem_erase hp)
  · exact hreceived p hp

theorem Inv.settle (h : s.Inv) {q : PollRequest} (hq : q ∈ s.inFlight) (result : Except String T) :
    (settle q result { s with inFlight := s.inFlight.erase q }).Inv := by
  cases result with
  | error message =>
    have hsub : ∀ p ∈ s.inFlight.erase q ++ s.received, p ∈ s.started := fun p hp =>
      mem_erase_append hp fun p hp => List.mem_append_right _ hp
    unfold UsePolled.settle
    simp only
    split_ifs
    · exact h.arrived hsub h.stored_received h.received_stored
    · exact h.arrived hsub h.stored_received h.received_stored
  | ok data =>
    have hsub : ∀ p ∈ s.inFlight.erase q ++ (s.received ++ [q]), p ∈ s.started := by
      refine fun p hp => mem_erase_append hp fun p hp => ?_
      rcases List.mem_append.1 hp with hp | hp
      · exact List.mem_append_right _ hp
      · exact List.mem_append_left _ (List.mem_singleton.1 hp ▸ hq)
    have hold : ∀ p ∈ s.stored, p.request ∈ s.received ++ [q] := fun p hp =>
      List.mem_append_left _ (h.stored_received p hp)
    unfold UsePolled.settle
    simp only
    split_ifs with hcancelled
    · -- the flag is up, and nothing is stored
      refine h.arrived hsub hold fun p hp hlive => ?_
      rcases List.mem_append.1 hp with hp | hp
      · exact h.received_stored p hp hlive
      · obtain rfl := List.mem_singleton.1 hp
        exact absurd (hcancelled.symm.trans hlive) (by decide)
    · refine h.arrived hsub (fun p hp => ?_) fun p hp hlive => ?_
      · rcases List.mem_append.1 hp with hp | hp
        · exact hold p hp
        · rw [List.mem_singleton.1 hp]
          exact List.mem_append_right _ (List.mem_singleton_self q)
      · rcases List.mem_append.1 hp with hp | hp
        · obtain ⟨r, hr, heq⟩ := h.received_stored p hp hlive
          exact ⟨r, List.mem_append_left _ hr, heq⟩
        · exact ⟨_, List.mem_append_right _ (List.mem_singleton_self _),
            (List.mem_singleton.1 hp).symm⟩

theorem mem_inFlight_of_request {id : ℕ} {q : PollRequest} (h : s.request id = some q) :
    q ∈ s.inFlight :=
  List.mem_of_find?_eq_some h

/-- **One event** keeps the invariant. -/
theorem Inv.step (h : s.Inv) (e : PollEvent T) : (s.step e).Inv := by
  cases e with
  | depsChange =>
    unfold UsePolled.step
    simp only
    split_ifs
    · exact { h.flush with deps := fun _ _ _ hdue => by cases hdue }
    · exact h
  | effects =>
    unfold UsePolled.step
    simp only
    split_ifs
    · exact h.flush
    · exact h
  | tick =>
    cases he : s.interval with
    | none => simpa only [UsePolled.step, he] using h
    | some e => simpa only [UsePolled.step, he] using h.run (h.interval e he)
  | refetch =>
    cases he : s.runRef with
    | none => simpa only [UsePolled.step, he] using h
    | some e =>
      simp only [UsePolled.step, he]
      split_ifs
      · exact h
      · exact h.run (h.runRef e he)
  | settled id result =>
    cases hq : s.request id with
    | none => simpa only [UsePolled.step, hq] using h
    | some q => simpa only [UsePolled.step, hq] using h.settle (mem_inFlight_of_request hq) result
  | unmount =>
    unfold UsePolled.step
    simp only
    split_ifs
    · exact { h.flush.cleanup.1 with }
    · exact h

/-! ### Storing -/

theorem stored_flush : s.flush.stored = s.stored ∧ s.flush.state.data = s.state.data := by
  unfold flush
  split_ifs <;> exact ⟨rfl, rfl⟩

/-- **What one event stores**: nothing, or the data that arrives for a live effect. -/
theorem step_cases (s : UsePolled T) (e : PollEvent T) :
    ((s.step e).stored = s.stored ∧ (s.step e).state.data = s.state.data) ∧ s.InOrder e ∨
      ∃ id q data, e = .settled id (.ok data) ∧ s.request id = some q ∧
        s.cancelled q.effect = false ∧ (s.step e).stored = s.stored ++ [⟨q, s.deps, data⟩] ∧
        (s.step e).state.data = some data := by
  cases e with
  | depsChange =>
    refine .inl ⟨?_, trivial⟩
    unfold step
    simp only
    split_ifs
    · exact stored_flush
    · exact ⟨rfl, rfl⟩
  | effects =>
    refine .inl ⟨?_, trivial⟩
    unfold step
    simp only
    split_ifs
    · exact stored_flush
    · exact ⟨rfl, rfl⟩
  | tick =>
    refine .inl ⟨?_, trivial⟩
    unfold step
    cases s.interval <;> exact ⟨rfl, rfl⟩
  | refetch =>
    refine .inl ⟨?_, trivial⟩
    unfold step
    cases s.runRef with
    | none => exact ⟨rfl, rfl⟩
    | some e =>
      simp only
      split_ifs <;> exact ⟨rfl, rfl⟩
  | settled id result =>
    cases hq : s.request id with
    | none => cases result <;> simp [step, hq, InOrder]
    | some q =>
      cases result with
      | error message =>
        refine .inl ⟨?_, trivial⟩
        simp only [step, hq, settle]
        split_ifs <;> exact ⟨rfl, rfl⟩
      | ok data =>
        cases hlive : s.cancelled q.effect with
        | true => simp [step, settle, InOrder, hq, hlive]
        | false =>
          exact .inr ⟨id, q, data, rfl, hq, hlive, by simp [step, settle, hq, hlive],
            by simp [step, settle, hq, hlive]⟩
  | unmount =>
    refine .inl ⟨?_, trivial⟩
    unfold step
    simp only
    split_ifs
    · exact stored_flush
    · exact ⟨rfl, rfl⟩

/-- What `data` holds is what was stored last. -/
theorem data_eq_getLast (es : List (PollEvent T)) :
    (Trace.run step mount es).state.data =
      ((Trace.run step mount es).stored.getLast?).map (·.value) := by
  induction es using List.reverseRecOn with
  | nil => rfl
  | append_singleton es e ih =>
    rw [run_snoc]
    rcases step_cases (Trace.run step mount es) e with
      ⟨⟨hstored, hdata⟩, -⟩ | ⟨id, q, data, -, -, -, hstored, hdata⟩
    · rw [hstored, hdata, ih]
    · rw [hstored, hdata, List.getLast?_concat]
      rfl

/-- What earlier effects have stored was asked for earlier. -/
theorem Inv.stored_le_iff (h : s.Inv) {q : PollRequest} (hq : q ∈ s.started)
    (hlive : s.cancelled q.effect = false) : (∀ p ∈ s.stored, p.request.id ≤ q.id) ↔
      ∀ p ∈ s.received, p.effect = q.effect → p.id ≤ q.id := by
  have hlast := h.live q.effect (h.lt q hq).2 hlive
  constructor
  · intro hall p hp heffect
    obtain ⟨r, hr, rfl⟩ := h.received_stored p hp (heffect ▸ hlive)
    exact hall r hr
  · intro hall p hp
    have hreceived := h.stored_received p hp
    by_cases heffect : p.request.effect = q.effect
    · exact hall _ hreceived heffect
    · have hstarted : p.request ∈ s.started := List.mem_append_right _ hreceived
      have hlt := (h.lt _ hstarted).2
      exact Nat.le_of_lt (h.order _ hstarted q hq (by omega))

/-- **One event** does not take data backwards exactly if it is in order. -/
theorem neverBackwards_step (h : s.Inv) (e : PollEvent T) :
    (s.step e).NeverBackwards ↔ s.NeverBackwards ∧ s.InOrder e := by
  unfold NeverBackwards
  rcases step_cases s e with ⟨⟨hstored, -⟩, hin⟩ | ⟨id, q, data, rfl, hq, hlive, hstored, -⟩
  · rw [hstored]
    exact (and_iff_left hin).symm
  · have hmem : q ∈ s.started := List.mem_append_left _ (mem_inFlight_of_request hq)
    have hdeps : q.deps = s.deps ↔ (s.due = true → q.deps = s.deps) := by
      cases hdue : s.due with
      | true => simp
      | false => simp [h.deps q hmem hlive hdue]
    have hin : s.InOrder (.settled id (.ok data)) ↔
        (∀ p ∈ s.stored, p.request.id ≤ q.id) ∧ q.deps = s.deps := by
      rw [h.stored_le_iff hmem hlive, hdeps]
      simp [InOrder, hq, hlive]
    rw [hstored, hin, List.pairwise_append]
    simp only [List.pairwise_singleton, List.mem_singleton, forall_eq, true_and,
      List.forall_mem_append]
    tauto

/-- **Polled data never goes backwards** in exactly the runs in which whatever arrives for the
effect that is live arrives in order. -/
theorem polled_forward_iff (es : List (PollEvent T)) :
    (Trace.run step mount es).NeverBackwards ↔ Each step InOrder mount es := by
  have hinv : ∀ es : List (PollEvent T), (Trace.run step mount es).Inv := fun es =>
    run_invariant inv_mount (fun s e h => h.step e) es
  induction es using List.reverseRecOn with
  | nil => simp [NeverBackwards, mount]
  | append_singleton es e ih =>
    rw [run_snoc, each_snoc, neverBackwards_step (hinv es)]
    exact and_congr_left' ih

end UsePolled

namespace Sample

/-- A request at the start and one by `refetch`, answered the other way round. -/
def overtaken : List (PollEvent ℕ) :=
  [.effects, .refetch, .settled 1 (.ok 7), .settled 0 (.ok 5)]

/-- The older response is stored over the newer one. -/
theorem overtaken_backwards :
    (run UsePolled.step UsePolled.mount (overtaken.take 3)).state.data = some 7 ∧
      (run UsePolled.step UsePolled.mount overtaken).state.data = some 5 ∧
      ¬ ∀ es : List (PollEvent ℕ), (run UsePolled.step UsePolled.mount es).NeverBackwards := by
  refine ⟨rfl, rfl, fun h => ?_⟩
  have hstored := (h overtaken).1
  have heq : (run UsePolled.step UsePolled.mount overtaken).stored =
      [⟨⟨1, 0, 0⟩, 0, 7⟩, ⟨⟨0, 0, 0⟩, 0, 5⟩] := rfl
  rw [heq] at hstored
  exact absurd hstored (by decide)

end Sample

end Lumina
