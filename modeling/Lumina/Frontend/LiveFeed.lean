import Lumina.Model.Live
import Lumina.System.LiveEvents
import Lumina.Trace.Basic

/-!
# What a page makes of live events

A listener of the shared feed is called for every event that arrives while it is subscribed, once
and in order, as long as no other listener throws (`liveEvents_exact`), and a listener for the
status was last told what the status is (`liveStatus_told`).  The toaster shows the warnings and
critical alerts that have arrived and were not closed since, in order (`toasts_exact`); so the
toasts of a page tell different recorded alerts of these severities (`toasts_tell_alerts`).

## Main definitions

* `LiveFeed.stepCalls` : the feed with the calls it has made.
* `LiveToaster.shown` : the events for which there was a toast, `LiveToaster.Closed` : the toast
  was closed.
-/

namespace Lumina

open Trace

/-! ### The feed -/

namespace LiveFeed

variable {throws : ℕ → LiveEvent → Bool} {l : ℕ} {s : LiveFeed} {calls calls' : List LiveCall}
  {es : List FeedEvent}

/-- The feed and the calls it has made, after one more event. -/
def stepCalls (throws : ℕ → LiveEvent → Bool) (s : LiveFeed × List LiveCall) (e : FeedEvent) :
    LiveFeed × List LiveCall :=
  ((step throws s.1 e).1, s.2 ++ (step throws s.1 e).2)

/-- The events that a listener was called for. -/
def eventsTo (l : ℕ) (calls : List LiveCall) : List LiveEvent :=
  calls.filterMap fun c =>
    match c with
    | .event k e => if k = l then some e else none
    | .status _ _ => none

/-- What a listener was told of the status. -/
def statusTo (l : ℕ) (calls : List LiveCall) : List Bool :=
  calls.filterMap fun c =>
    match c with
    | .event _ _ => none
    | .status k connected => if k = l then some connected else none

/-- The payloads that can be parsed. -/
def payloads (es : List FeedEvent) : List LiveEvent :=
  es.filterMap fun e =>
    match e with
    | .alert data => data
    | _ => none

@[simp] theorem eventsTo_nil : eventsTo l [] = [] := rfl

@[simp] theorem eventsTo_event (k : ℕ) (e : LiveEvent) :
    eventsTo l (.event k e :: calls) = (if k = l then [e] else []) ++ eventsTo l calls := by
  unfold eventsTo
  by_cases hk : k = l <;> simp [hk]

@[simp] theorem eventsTo_status (k : ℕ) (connected : Bool) :
    eventsTo l (.status k connected :: calls) = eventsTo l calls := rfl

@[simp] theorem statusTo_nil : statusTo l [] = [] := rfl

@[simp] theorem statusTo_event (k : ℕ) (e : LiveEvent) :
    statusTo l (.event k e :: calls) = statusTo l calls := rfl

@[simp] theorem statusTo_status (k : ℕ) (connected : Bool) :
    statusTo l (.status k connected :: calls) =
      (if k = l then [connected] else []) ++ statusTo l calls := by
  unfold statusTo
  by_cases hk : k = l <;> simp [hk]

@[simp] theorem eventsTo_append :
    eventsTo l (calls ++ calls') = eventsTo l calls ++ eventsTo l calls' := List.filterMap_append

@[simp] theorem statusTo_append :
    statusTo l (calls ++ calls') = statusTo l calls ++ statusTo l calls' := List.filterMap_append

@[simp] theorem eventsTo_setConnected (value : Bool) :
    eventsTo l (s.setConnected value).2 = [] := by
  unfold setConnected
  split_ifs
  · rfl
  · simp [eventsTo]

@[simp] theorem statusTo_forEachListener (e : LiveEvent) (ls : List ℕ) :
    statusTo l (forEachListener throws e ls) = [] := by
  induction ls with
  | nil => rfl
  | cons k ls ih =>
    unfold forEachListener
    split_ifs
    · rfl
    · simpa [statusTo] using ih

@[simp] theorem setConnected_eventListeners (value : Bool) :
    (s.setConnected value).1.eventListeners = s.eventListeners := by
  unfold setConnected
  split_ifs <;> rfl

@[simp] theorem setConnected_statusListeners (value : Bool) :
    (s.setConnected value).1.statusListeners = s.statusListeners := by
  unfold setConnected
  split_ifs <;> rfl

@[simp] theorem setConnected_source (value : Bool) :
    (s.setConnected value).1.source = s.source := by
  unfold setConnected
  split_ifs <;> rfl

@[simp] theorem setConnected_connected (value : Bool) :
    (s.setConnected value).1.connected = value := by
  unfold setConnected
  split_ifs with h
  · exact h
  · rfl

theorem mem_addTo {k : ℕ} {ls : List ℕ} : k ∈ addTo ls l ↔ k ∈ ls ∨ k = l := by
  unfold addTo
  split_ifs with h
  · exact ⟨.inl, fun hk => hk.elim id fun heq => heq ▸ h⟩
  · simp

theorem nodup_addTo {ls : List ℕ} (h : ls.Nodup) : (addTo ls l).Nodup := by
  unfold addTo
  split_ifs with hmem
  · exact h
  · exact nodup_snoc h hmem

/-- **One message** goes to a listener once, unless another one throws. -/
theorem eventsTo_forEachListener (hthrows : ∀ k, k ≠ l → ∀ e, throws k e = false) (e : LiveEvent)
    {ls : List ℕ} (h : ls.Nodup) :
    eventsTo l (forEachListener throws e ls) = if l ∈ ls then [e] else [] := by
  induction ls with
  | nil => rfl
  | cons k ls ih =>
    obtain ⟨hk, hls⟩ := List.nodup_cons.1 h
    have hrest := ih hls
    unfold forEachListener
    by_cases hkl : k = l
    · subst hkl
      rw [if_neg hk] at hrest
      rw [if_pos List.mem_cons_self]
      split_ifs
      · rw [eventsTo_event, if_pos rfl, eventsTo_nil, List.append_nil]
      · rw [eventsTo_event, if_pos rfl, hrest, List.append_nil]
    · rw [hthrows k hkl e, if_neg Bool.false_ne_true, eventsTo_event, if_neg hkl, hrest]
      simp [Ne.symm hkl]

/-- The listeners are sets. -/
theorem step_nodup (e : FeedEvent) (h : s.eventListeners.Nodup) :
    (step throws s e).1.eventListeners.Nodup := by
  cases e with
  | subscribeEvents k available => exact nodup_addTo h
  | unsubscribeEvents k => exact h.filter _
  | subscribeStatus k available => exact h
  | unsubscribeStatus k => exact h
  | opened =>
    simp only [step]
    split_ifs
    · rwa [setConnected_eventListeners]
    · exact h
  | error =>
    simp only [step]
    split_ifs
    · rwa [setConnected_eventListeners]
    · exact h
  | alert data =>
    simp only [step]
    split_ifs
    · cases data <;> simpa using h
    · exact h

/-- **One step** calls a subscribed listener for the payload that arrives, if one does, and keeps
it subscribed. -/
theorem step_eventsTo (hthrows : ∀ k, k ≠ l → ∀ e, throws k e = false) {e : FeedEvent}
    (hne : e ≠ .unsubscribeEvents l) (hset : s.eventListeners.Nodup) (hl : l ∈ s.eventListeners)
    (hsource : s.source = true) :
    eventsTo l (step throws s e).2 = payloads [e] ∧ l ∈ (step throws s e).1.eventListeners ∧
      (step throws s e).1.source = true := by
  cases e with
  | subscribeEvents k available =>
    exact ⟨rfl, mem_addTo.2 (.inl hl), by simp [step, ensureConnected, hsource]⟩
  | unsubscribeEvents k =>
    have hkl : l ≠ k := fun heq => hne (congrArg _ heq.symm)
    exact ⟨rfl, List.mem_filter.2 ⟨hl, by simpa using hkl⟩, hsource⟩
  | subscribeStatus k available =>
    exact ⟨rfl, hl, by simp [step, ensureConnected, hsource]⟩
  | unsubscribeStatus k => exact ⟨rfl, hl, hsource⟩
  | opened => simp [step, hsource, hl, payloads]
  | error => simp [step, hsource, hl, payloads]
  | alert data =>
    cases data with
    | none => simp [step, hsource, hl, payloads]
    | some e =>
      simp [step, hsource, hl, payloads, eventsTo_forEachListener hthrows e hset]

/-- What a status listener was last told is the status. -/
def Told (s : LiveFeed × List LiveCall) : Prop :=
  ∀ l ∈ s.1.statusListeners, (statusTo l s.2).getLast? = some s.1.connected

theorem statusTo_map (value : Bool) (ls : List ℕ) :
    statusTo l (ls.map (LiveCall.status · value)) =
      List.replicate (ls.count l) value := by
  induction ls with
  | nil => rfl
  | cons k ls ih =>
    rw [List.map_cons, statusTo_status, ih, List.count_cons]
    by_cases hkl : k = l
    · simp [hkl, List.replicate_succ]
    · simp [hkl]

/-- A change of the status is told to all listeners. -/
theorem Told.setConnected (h : Told (s, calls)) (value : Bool) :
    Told ((s.setConnected value).1, calls ++ (s.setConnected value).2) := by
  intro l hl
  rw [setConnected_statusListeners] at hl
  rw [setConnected_connected, statusTo_append]
  unfold LiveFeed.setConnected
  split_ifs with hvalue
  · have htold := h l hl
    rw [hvalue] at htold
    simpa [statusTo] using htold
  · rw [statusTo_map]
    obtain ⟨n, hn⟩ := Nat.exists_eq_succ_of_ne_zero (List.count_pos_iff.2 hl).ne'
    rw [hn, List.replicate_succ', ← List.append_assoc, List.getLast?_append]
    rfl

theorem Told.append {new : List LiveCall} (h : Told (s, calls)) (hnew : ∀ l, statusTo l new = []) :
    Told (s, calls ++ new) := by
  intro l hl
  rw [statusTo_append, hnew l, List.append_nil]
  exact h l hl

/-- **One step** leaves every status listener told. -/
theorem Told.step (h : Told (s, calls)) (e : FeedEvent) : Told (stepCalls throws (s, calls) e) := by
  cases e with
  | subscribeEvents k available => exact h.append fun _ => rfl
  | unsubscribeEvents k => exact h.append fun _ => rfl
  | subscribeStatus k available =>
    intro l hl
    simp only [stepCalls, LiveFeed.step, statusTo_append]
    rcases mem_addTo.1 hl with hl | rfl
    · by_cases hkl : k = l
      · simp [statusTo, hkl, ensureConnected]
      · simpa [statusTo, hkl, ensureConnected] using h l hl
    · simp [statusTo, ensureConnected]
  | unsubscribeStatus k =>
    intro l hl
    have hmem : l ∈ s.statusListeners := (List.mem_filter.1 hl).1
    simpa [stepCalls, LiveFeed.step] using h l hmem
  | opened =>
    simp only [stepCalls, LiveFeed.step]
    split_ifs
    · exact h.setConnected true
    · exact h.append fun _ => rfl
  | error =>
    simp only [stepCalls, LiveFeed.step]
    split_ifs
    · exact h.setConnected false
    · exact h.append fun _ => rfl
  | alert data =>
    simp only [stepCalls, LiveFeed.step]
    split_ifs
    · cases data with
      | none => exact h.setConnected true
      | some e =>
        rw [← List.append_assoc]
        exact (h.setConnected true).append fun l => statusTo_forEachListener e s.eventListeners
    · exact h.append fun _ => rfl

/-- The calls of a subscribed listener over a run. -/
theorem eventsTo_run (hthrows : ∀ k, k ≠ l → ∀ e, throws k e = false)
    (hes : .unsubscribeEvents l ∉ es) (hset : s.eventListeners.Nodup)
    (hl : l ∈ s.eventListeners) (hsource : s.source = true) :
    eventsTo l (run (stepCalls throws) (s, calls) es).2 = eventsTo l calls ++ payloads es := by
  induction es generalizing s calls with
  | nil => simp [payloads]
  | cons e es ih =>
    obtain ⟨hne, hes⟩ := not_or.1 (mt List.mem_cons.2 hes)
    obtain ⟨hcalls, hl', hsource'⟩ := step_eventsTo hthrows (Ne.symm hne) hset hl hsource
    rw [run_cons, stepCalls, ih hes (step_nodup e hset) hl' hsource', eventsTo_append, hcalls,
      List.append_assoc]
    congr 1
    exact List.filterMap_append.symm

end LiveFeed

/-- **A listener is called for every event that arrives while it is subscribed**, once and in
order, provided that no other listener throws. -/
theorem liveEvents_exact {throws : ℕ → LiveEvent → Bool} {l : ℕ}
    (hthrows : ∀ k, k ≠ l → ∀ e, throws k e = false) (before after : List FeedEvent)
    (available : Bool) (hafter : .unsubscribeEvents l ∉ after)
    (hsource : (run (LiveFeed.stepCalls throws) (LiveFeed.initial, [])
      (before ++ [.subscribeEvents l available])).1.source = true) :
    LiveFeed.eventsTo l (run (LiveFeed.stepCalls throws) (LiveFeed.initial, [])
        (before ++ .subscribeEvents l available :: after)).2 =
      LiveFeed.eventsTo l (run (LiveFeed.stepCalls throws) (LiveFeed.initial, []) before).2 ++
        LiveFeed.payloads after := by
  have hset : (run (LiveFeed.stepCalls throws) (LiveFeed.initial, [])
      (before ++ [.subscribeEvents l available])).1.eventListeners.Nodup :=
    @run_invariant _ _ (LiveFeed.stepCalls throws) (LiveFeed.initial, [])
      (fun s => s.1.eventListeners.Nodup) List.nodup_nil
      (fun s e hs => LiveFeed.step_nodup e hs) _
  have hl : l ∈ (run (LiveFeed.stepCalls throws) (LiveFeed.initial, [])
      (before ++ [.subscribeEvents l available])).1.eventListeners := by
    rw [run_snoc]
    exact LiveFeed.mem_addTo.2 (.inr rfl)
  have hcalls : (run (LiveFeed.stepCalls throws) (LiveFeed.initial, [])
      (before ++ [.subscribeEvents l available])).2 =
        (run (LiveFeed.stepCalls throws) (LiveFeed.initial, []) before).2 := by
    rw [run_snoc]
    exact List.append_nil _
  rw [List.append_cons, run_append, ← hcalls]
  exact LiveFeed.eventsTo_run hthrows hafter hset hl hsource

/-- **A status listener was last told the status**, after any calls and events. -/
theorem liveStatus_told (throws : ℕ → LiveEvent → Bool) (es : List FeedEvent) (l : ℕ)
    (h : l ∈ (run (LiveFeed.stepCalls throws) (LiveFeed.initial, []) es).1.statusListeners) :
    (LiveFeed.statusTo l (run (LiveFeed.stepCalls throws) (LiveFeed.initial, []) es).2).getLast? =
      some (run (LiveFeed.stepCalls throws) (LiveFeed.initial, []) es).1.connected := by
  have htold : LiveFeed.Told (run (LiveFeed.stepCalls throws) (LiveFeed.initial, []) es) :=
    run_invariant (fun l hl => by cases hl) (fun s e hs => hs.step e) es
  exact htold l h

/-! ### Toasts -/

namespace LiveToaster

variable {s : LiveToaster} {es es' : List ToasterEvent} {e : ToasterEvent} {id : ℕ}

/-- The live events among the events. -/
def lives (es : List ToasterEvent) : List LiveEvent :=
  es.filterMap fun e =>
    match e with
    | .live e => some e
    | _ => none

/-- The events for which there was a toast. -/
def shown (es : List ToasterEvent) : List LiveEvent := (lives es).filter fun e => Shows e

/-- The toast was closed after it had come up. -/
def Closed (es : List ToasterEvent) (id : ℕ) : Prop :=
  ∃ before e after, es = before ++ e :: after ∧ (e = .expire id ∨ e = .dismiss id) ∧
    id ≤ (shown before).length

theorem shown_snoc : shown (es ++ [e]) = shown es ++ shown [e] := by
  simp [shown, lives]

theorem closed_snoc : Closed (es ++ [e]) id ↔
    Closed es id ∨ (e = .expire id ∨ e = .dismiss id) ∧ id ≤ (shown es).length := by
  constructor
  · rintro ⟨before, e', after, hes, he, hid⟩
    rcases List.eq_nil_or_concat after with rfl | ⟨after, a, rfl⟩
    · obtain ⟨rfl, heq⟩ := List.append_inj' hes rfl
      obtain rfl := List.singleton_inj.1 heq
      exact .inr ⟨he, hid⟩
    · rw [List.concat_eq_append, ← List.cons_append, ← List.append_assoc] at hes
      obtain ⟨rfl, -⟩ := List.append_inj' hes rfl
      exact .inl ⟨before, e', after, rfl, he, hid⟩
  · rintro (⟨before, e', after, rfl, he, hid⟩ | ⟨he, hid⟩)
    · exact ⟨before, e', after ++ [e], by simp, he, hid⟩
    · exact ⟨es, e, [], rfl, he, hid⟩

/-- What the toaster shows after some events. -/
structure Shown (es : List ToasterEvent) (s : LiveToaster) : Prop where
  nextId : s.nextId = (shown es).length + 1
  ids : (s.toasts.map (·.id)).Pairwise (· < ·)
  events : (s.toasts.map (·.event)).Sublist (shown es)
  timers : ∀ id ∈ s.timers, id ≤ (shown es).length
  timer : ∀ t ∈ s.toasts, t.id ∈ s.timers
  toasts : ∀ t, t ∈ s.toasts ↔
    1 ≤ t.id ∧ (shown es)[t.id - 1]? = some t.event ∧ ¬ Closed es t.id

theorem Shown.le {t : Toast} (h : Shown es s) (ht : t ∈ s.toasts) :
    t.id ≤ (shown es).length := by
  obtain ⟨hpos, hget, -⟩ := (h.toasts t).1 ht
  have hlt := (List.getElem?_eq_some_iff.1 hget).1
  omega

/-- A toast comes up. -/
theorem Shown.live {e : LiveEvent} (h : Shown es s) (he : Shows e) :
    Shown (es ++ [.live e]) (s.step (.live e)) := by
  have hshown : shown (es ++ [.live e]) = shown es ++ [e] := by
    rw [shown_snoc]
    simp [shown, lives, he]
  have hclosed : ∀ id, Closed (es ++ [.live e]) id ↔ Closed es id := fun id => by
    rw [closed_snoc]
    simp
  simp only [step, if_pos he]
  refine ⟨?_, ?_, ?_, fun id hid => ?_, fun t ht => ?_, fun t => ?_⟩
  · rw [hshown, List.length_append, h.nextId, List.length_singleton]
  · rw [List.map_append, List.pairwise_append]
    refine ⟨h.ids, List.pairwise_singleton _ _, fun id hid n hn => ?_⟩
    obtain ⟨t, ht, rfl⟩ := List.mem_map.1 hid
    have hle := h.le ht
    have hnext := h.nextId
    simp only [List.map_cons, List.map_nil, List.mem_singleton] at hn
    omega
  · rw [hshown, List.map_append]
    exact h.events.append (List.Sublist.refl _)
  · rw [hshown, List.length_append, List.length_singleton]
    rcases List.mem_append.1 hid with hid | hid
    · exact (h.timers id hid).trans (Nat.le_succ _)
    · rw [List.mem_singleton.1 hid, h.nextId]
  · rcases List.mem_append.1 ht with ht | ht
    · exact List.mem_append_left _ (h.timer t ht)
    · rw [List.mem_singleton.1 ht]
      exact List.mem_append_right _ (List.mem_singleton_self _)
  · rw [List.mem_append, h.toasts t, hshown, hclosed, List.mem_singleton]
    constructor
    · rintro (⟨hpos, hget, hopen⟩ | rfl)
      · have hlt := (List.getElem?_eq_some_iff.1 hget).1
        exact ⟨hpos, by rw [List.getElem?_append_left hlt, hget], hopen⟩
      · refine ⟨?_, ?_, ?_⟩
        · show 1 ≤ s.nextId
          rw [h.nextId]
          omega
        · rw [h.nextId]
          simp
        · -- its number is new
          rintro ⟨before, e', after, rfl, -, hid⟩
          have hid : s.nextId ≤ (shown before).length := hid
          have hnext := h.nextId
          simp only [shown, lives, List.filterMap_append, List.filter_append,
            List.length_append] at hid hnext
          omega
    · rintro ⟨hpos, hget, hopen⟩
      by_cases hlt : t.id - 1 < (shown es).length
      · rw [List.getElem?_append_left hlt] at hget
        exact .inl ⟨hpos, hget, hopen⟩
      · have hlen := (List.getElem?_eq_some_iff.1 hget).1
        rw [List.length_append, List.length_singleton] at hlen
        obtain ⟨e', id⟩ := t
        have hid : id = s.nextId := by
          rw [h.nextId]
          dsimp only at hpos hlt hlen
          omega
        rw [List.getElem?_append_right (not_lt.1 hlt)] at hget
        dsimp only at hget hlt hlen
        have hzero : id - 1 - (shown es).length = 0 := by omega
        rw [hzero, List.getElem?_cons_zero] at hget
        exact .inr (by rw [hid, Option.some.inj hget])

/-- A toast is closed, or an event does nothing. -/
theorem Shown.close (h : Shown es s) (he : e = .expire id ∨ e = .dismiss id)
    {timers : List ℕ} (htimers : ∀ k, k ∈ timers → k ∈ s.timers)
    (hkept : ∀ k, k ≠ id → k ∈ s.timers → k ∈ timers) :
    Shown (es ++ [e]) { s.remove id with timers := timers } := by
  have hshown : shown (es ++ [e]) = shown es := by
    rw [shown_snoc]
    rcases he with rfl | rfl <;> simp [shown, lives]
  have hmem : ∀ t, t ∈ (s.remove id).toasts ↔ t ∈ s.toasts ∧ t.id ≠ id := fun t => by
    simp [remove]
  refine ⟨by rw [hshown]; exact h.nextId, ?_, ?_, fun k hk => ?_, fun t ht => ?_, fun t => ?_⟩
  · exact h.ids.sublist (List.filter_sublist.map _)
  · rw [hshown]
    exact (List.filter_sublist.map _).trans h.events
  · rw [hshown]
    exact h.timers k (htimers k hk)
  · obtain ⟨ht, hne⟩ := (hmem t).1 ht
    exact hkept _ hne (h.timer t ht)
  · show t ∈ (s.remove id).toasts ↔ _
    rw [hmem, h.toasts t, hshown, closed_snoc]
    constructor
    · rintro ⟨⟨hpos, hget, hopen⟩, hne⟩
      refine ⟨hpos, hget, ?_⟩
      rintro (hclosed | ⟨he', -⟩)
      · exact hopen hclosed
      · rcases he with rfl | rfl <;> rcases he' with he' | he' <;> cases he' <;> exact hne rfl
    · rintro ⟨hpos, hget, hopen⟩
      refine ⟨⟨hpos, hget, fun hclosed => hopen (.inl hclosed)⟩, fun heq => hopen (.inr ?_)⟩
      have hlt := (List.getElem?_eq_some_iff.1 hget).1
      exact ⟨heq ▸ he, by omega⟩

theorem Shown.step (h : Shown es s) (e : ToasterEvent) : Shown (es ++ [e]) (s.step e) := by
  have hsame : ∀ id, (e = .expire id ∨ e = .dismiss id) → (∀ t ∈ s.toasts, t.id ≠ id) →
      Shown (es ++ [e]) s := by
    intro id he hnone
    have hclose := h.close he (fun k hk => hk) fun k _ hk => hk
    have hremove : { s.remove id with timers := s.timers } = s := by
      have hfilter : s.toasts.filter (·.id ≠ id) = s.toasts :=
        List.filter_eq_self.2 fun t ht => by simpa using hnone t ht
      rw [remove, hfilter]
    rwa [hremove] at hclose
  cases e with
  | live e =>
    by_cases he : Shows e
    · exact h.live he
    · have hshown : shown (es ++ [.live e]) = shown es := by
        rw [shown_snoc]
        simp [shown, lives, he]
      have hclosed : ∀ id, Closed (es ++ [.live e]) id ↔ Closed es id := fun id => by
        rw [closed_snoc]
        simp
      simp only [LiveToaster.step, if_neg he]
      refine ⟨by rw [hshown]; exact h.nextId, h.ids, ?_, ?_, h.timer, fun t => ?_⟩
      · rw [hshown]
        exact h.events
      · rw [hshown]
        exact h.timers
      · rw [hshown, hclosed]
        exact h.toasts t
  | expire id =>
    simp only [LiveToaster.step]
    split_ifs with hmem
    · exact h.close (.inl rfl) (fun k hk => (List.mem_filter.1 hk).1)
        fun k hne hk => List.mem_filter.2 ⟨hk, by simpa using hne⟩
    · exact hsame id (.inl rfl) fun t ht heq => hmem (heq ▸ h.timer t ht)
  | dismiss id =>
    simp only [LiveToaster.step]
    split_ifs with hmem
    · exact h.close (.inr rfl) (fun k hk => hk) fun k _ hk => hk
    · exact hsame id (.inr rfl) fun t ht heq => hmem (List.mem_map.2 ⟨t, ht, heq⟩)

theorem shown_run (es : List ToasterEvent) : Shown es (run step mount es) := by
  induction es using List.reverseRecOn with
  | nil =>
    exact ⟨rfl, .nil, .slnil, nofun, nofun, fun t => ⟨nofun, fun h => by simp [shown, lives] at h⟩⟩
  | append_singleton es e ih =>
    rw [run_snoc]
    exact ih.step e

end LiveToaster

/-- **The toasts**: after any events those that came up and were not closed, by their numbers; and
every one of them has its timer. -/
theorem toasts_exact (es : List ToasterEvent) :
    ((run LiveToaster.step .mount es).toasts.map (·.id)).Pairwise (· < ·) ∧
      (∀ t, t ∈ (run LiveToaster.step .mount es).toasts ↔ 1 ≤ t.id ∧
        (LiveToaster.shown es)[t.id - 1]? = some t.event ∧ ¬ LiveToaster.Closed es t.id) ∧
      ∀ t ∈ (run LiveToaster.step .mount es).toasts,
        t.id ∈ (run LiveToaster.step .mount es).timers :=
  have h := LiveToaster.shown_run es
  ⟨h.ids, h.toasts, h.timer⟩

/-- **The toasts of a page tell recorded alerts** that are warnings or critical, in their order and
each at most once, where the toaster was called for events that the page was handed. -/
theorem toasts_tell_alerts {webhook : WebhookConfig} {s : LiveSystem}
    (h : LiveSystem.Reachable webhook s) {page : LivePage} (hpage : page ∈ s.pages)
    {es : List ToasterEvent}
    (hlives : (LiveToaster.lives es).Sublist (page.received.map LiveEvent.ofNotification)) :
    ((run LiveToaster.step .mount es).toasts.map (·.event)).Sublist
      ((s.system.store.db.alerts.filter fun a =>
        a.severity = "WARNING" ∨ a.severity = "CRITICAL").map fun a =>
          LiveEvent.ofNotification a.event) := by
  have hreceived := (h.received hpage).map LiveEvent.ofNotification
  have hshown := (hlives.trans hreceived).filter fun e => LiveToaster.Shows e
  refine (LiveToaster.shown_run es).events.trans (hshown.trans ?_)
  rw [List.map_map, List.filter_map]
  have hfilter : ∀ a : AlertRow, (LiveToaster.Shows (LiveEvent.ofNotification a.event) : Bool) =
      decide (a.severity = "WARNING" ∨ a.severity = "CRITICAL") := fun a => by
    simp [LiveToaster.Shows, LiveEvent.ofNotification, AlertRow.event]
  rw [Function.comp_def, Function.comp_def, List.filter_congr fun a _ => hfilter a]

end Lumina

/-! ### A badge and two listeners -/

namespace Lumina.Sample

open Lumina.Trace LiveFeed

/-- The source opens and then fails. -/
theorem badge_offline :
    (statusTo 0 (run (stepCalls fun _ _ => false) (initial, [])
      [.subscribeStatus 0 true, .opened, .error]).2).getLast? = some false :=
  liveStatus_told (fun _ _ => false) [.subscribeStatus 0 true, .opened, .error] 0 (by decide)

def whaleEvent : LiveEvent :=
  LiveEvent.ofNotification ("whale_payment", "INFO", [.str "large payment"], 9)

def dropEvent : LiveEvent :=
  LiveEvent.ofNotification ("liquidity_drop", "WARNING", [.str "a drop"], 12)

/-- Listener 1 is called for the second event, which comes after it has subscribed. -/
theorem second_event :
    eventsTo 1 (run (stepCalls fun _ _ => false) (initial, [])
      [.subscribeEvents 0 true, .alert (some whaleEvent), .subscribeEvents 1 true,
        .alert (some dropEvent)]).2 = [dropEvent] := by
  refine (@liveEvents_exact (fun _ _ => false) 1 (fun _ _ _ => rfl)
    [.subscribeEvents 0 true, .alert (some whaleEvent)] [.alert (some dropEvent)] true
    (by simp) rfl).trans ?_
  rfl

/-- The warning that the page was handed is on the screen, and it tells the alert. -/
theorem handed_toasts :
    (run LiveToaster.step .mount [.live (LiveEvent.ofNotification
        ("whale_payment", "WARNING", [.str "large payment"], 9))]).toasts =
      [⟨LiveEvent.ofNotification ("whale_payment", "WARNING", [.str "large payment"], 9), 1⟩] ∧
    ((run LiveToaster.step .mount [.live (LiveEvent.ofNotification
      ("whale_payment", "WARNING", [.str "large payment"], 9))]).toasts.map (·.event)).Sublist
      ((handed.system.store.db.alerts.filter fun a =>
        a.severity = "WARNING" ∨ a.severity = "CRITICAL").map fun a =>
          LiveEvent.ofNotification a.event) :=
  ⟨by decide +kernel,
    toasts_tell_alerts (follows_watching.reaches reachable_watching attended_handed).1
      (List.mem_singleton.2 rfl) (List.Sublist.refl _)⟩

end Lumina.Sample
