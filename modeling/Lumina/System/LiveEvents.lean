import Lumina.Alerts.Accounted
import Lumina.Model.Events

/-!
# Live events tell alerts

A live event is published after its alert was recorded, so what a page is handed are some of the
recorded alerts, in their order and each at most once, whatever the writes of both processes, the
listener, the channel and the pages do, and in whatever order (`live_tells_alerts`).

Events get lost on the way: a link is down, or a page falls behind by more than the channel keeps.
While neither happens to it, a page is handed everything that was published
(`live_complete`).

## Main definitions

* `LiveSystem.Step` : a write of either process, or a step of a live event on its way.
* `LiveSystem.Follows` : what a page has been handed or is yet to be.
* `LiveSystem.Attended` : a step that loses nothing of what a page follows.
-/

namespace Lumina

open Relation

variable {webhook : WebhookConfig}

/-! ### What was published -/

/-- What was published since tells some of the alerts recorded since. -/
def Publishes (w w' : World) : Prop :=
  ∃ rows events, w'.db.alerts = w.db.alerts ++ rows ∧ w'.notified = w.notified ++ events ∧
    events.Sublist (rows.map (·.event))

/-- A write that neither records nor publishes. -/
theorem Publishes.of_same {w w' : World} (halerts : w'.db.alerts = w.db.alerts)
    (hnotified : w'.notified = w.notified) : Publishes w w' :=
  ⟨[], [], by rw [halerts, List.append_nil], by rw [hnotified, List.append_nil], .slnil⟩

/-- **An event is published after its alert was recorded.** -/
theorem IngestWrite.publishes {w w' : World} (h : IngestWrite webhook w w') : Publishes w w' := by
  cases h with
  | pool row => exact .of_same (upsertPool_alerts _ _) rfl
  | token row => exact .of_same (upsertToken_alerts _ _) rfl
  | whale row =>
    unfold insertWhaleTransaction
    split_ifs <;> exact .of_same rfl rfl
  | alert env a _ htells =>
    by_cases hok : env.insertAlert = .ok
    · rw [record_eq hok]
      refine ⟨_, _, rfl, rfl, ?_⟩
      split_ifs
      · exact List.Sublist.refl _
      · exact List.nil_sublist _
    · rw [record_of_not_inserted hok]
      exact .of_same rfl rfl
  | _ => exact .of_same rfl rfl

namespace System

/-- The published events tell some of the alerts, in their order. -/
def Published (s : System) : Prop :=
  s.notified.Sublist (s.store.db.alerts.map (·.event))

theorem Step.published {s s' : System} (h : Step webhook s s') (hs : s.Published) :
    s'.Published := by
  unfold Published at hs ⊢
  cases h with
  | ingest hwrite =>
    obtain ⟨rows, events, halerts, hnotified, hsub⟩ := hwrite.publishes
    rw [withWorld, halerts, hnotified, List.map_append]
    exact hs.append hsub
  | api hwrite =>
    obtain ⟨⟨f, hf, halerts⟩, -, -⟩ := hwrite.sameEvents
    -- an event does not tell whether its alert is acknowledged
    have hevent : ∀ a, (f a).event = a.event := fun a => by
      obtain ⟨-, htime, hkind, hseverity, hmessage, -⟩ := AlertRow.mk.inj (hf a)
      rw [AlertRow.event, hkind, hseverity, hmessage, htime, AlertRow.event]
    have hcomp : (AlertRow.event ∘ f) = AlertRow.event := funext hevent
    rwa [halerts, List.map_map, hcomp]
  | retention job =>
    rcases job.drop_cases s.store.db with ⟨rows, -, hdb⟩ | ⟨rows, -, hdb⟩
    · rwa [retain, hdb]
    · rwa [retain, hdb]

end System

/-! ### The way of an event -/

namespace LiveSystem

/-- One write of either process, or one step of a live event on its way. -/
inductive Step (webhook : WebhookConfig) : LiveSystem → LiveSystem → Prop
  | write {s : LiveSystem} {system : System} (h : System.Step webhook s.system system) :
      Step webhook s (s.notify system)
  | push (e : PushEvent) (s : LiveSystem) : Step webhook s (s.push e)

/-- What a page has been handed, and what is on its way to it, are messages of the channel. -/
structure PageInv (sent : List Notification) (page : LivePage) : Prop where
  received : page.received.Sublist sent
  stream : ∀ stream, page.stream = some stream → stream.receiver ≤ sent.length ∧
    (page.received ++ stream.frames).Sublist (sent.take stream.receiver)

/-- The channel was sent some of the published events, and the pages follow it. -/
structure Inv (s : LiveSystem) (sent : List Notification) : Prop where
  published : s.system.Published
  bus : s.bus.Carries sent
  listener : (sent ++ s.listener.getD []).Sublist s.system.notified
  pages : ∀ page ∈ s.pages, PageInv sent page

variable {s s' : LiveSystem} {sent : List Notification} {page : LivePage}

theorem forall_mem_modify {α : Type} {p : α → Prop} {f : α → α} {l : List α}
    (hf : ∀ a, p a → p (f a)) (h : ∀ a ∈ l, p a) (n : ℕ) : ∀ a ∈ l.modify n f, p a := by
  intro a ha
  obtain ⟨i, hi⟩ := List.mem_iff_getElem?.1 ha
  rw [List.getElem?_modify] at hi
  obtain ⟨b, hb, rfl⟩ := Option.map_eq_some_iff.1 hi
  have hmem := h b (List.mem_of_getElem? hb)
  split_ifs
  · exact hf b hmem
  · exact hmem

theorem PageInv.of_no_stream (h : page.received.Sublist sent) (hnone : page.stream = none) :
    PageInv sent page := by
  refine ⟨h, fun stream hstream => ?_⟩
  rw [hnone] at hstream
  cases hstream

theorem PageInv.send (h : PageInv sent page) (event : Notification) :
    PageInv (sent ++ [event]) page := by
  refine ⟨h.received.trans (List.sublist_append_left _ _), fun stream hstream => ?_⟩
  obtain ⟨hle, hsub⟩ := h.stream stream hstream
  refine ⟨hle.trans (by simp), ?_⟩
  rwa [List.take_append_of_le_length hle]

theorem PageInv.connect {bus : Broadcast Notification} (hbus : bus.Carries sent)
    (h : PageInv sent page) : PageInv sent (page.connect bus) := by
  unfold LivePage.connect
  split
  · exact h
  · refine ⟨h.received, fun stream hstream => ?_⟩
    obtain rfl : eventsStream bus = stream := Option.some.inj hstream
    rw [eventsStream, hbus.tail, List.take_length, List.append_nil]
    exact ⟨le_rfl, h.received⟩

theorem PageInv.poll {bus : Broadcast Notification} (hbus : bus.Carries sent)
    (h : PageInv sent page) : PageInv sent (page.poll bus) := by
  refine ⟨h.received, fun stream hstream => ?_⟩
  obtain ⟨stream', hstream', rfl⟩ := Option.map_eq_some_iff.1 hstream
  obtain ⟨hle, hsub⟩ := h.stream stream' hstream'
  refine ⟨hbus.recv_le hle, ?_⟩
  have hrecv := hbus.recv_sublist hsub
  rwa [List.append_assoc] at hrecv

theorem PageInv.read (h : PageInv sent page) : PageInv sent page.read := by
  unfold LivePage.read
  split
  · rename_i receiver event frames hstream
    obtain ⟨hle, hsub⟩ := h.stream _ hstream
    rw [← List.singleton_append, ← List.append_assoc] at hsub
    refine ⟨?_, fun stream hnext => ?_⟩
    · exact (List.sublist_append_left _ _).trans (hsub.trans (List.take_sublist _ _))
    · obtain rfl := Option.some.inj hnext
      exact ⟨hle, hsub⟩
  · exact h

/-- **One step** keeps to some of the published events, in their order. -/
theorem Step.inv (h : Step webhook s s') (hs : s.Inv sent) : ∃ sent', s'.Inv sent' := by
  cases h with
  | @write _ system hwrite =>
    refine ⟨sent, hwrite.published hs.published, hs.bus, ?_, hs.pages⟩
    obtain ⟨new, hnew⟩ := hwrite.notified
    have hlistener := hs.listener
    simp only [notify]
    rw [← hnew, List.drop_left]
    cases hl : s.listener with
    | none =>
      rw [hl] at hlistener
      exact hlistener.trans (List.sublist_append_left _ _)
    | some queue =>
      rw [hl] at hlistener
      rw [Option.map_some, Option.getD_some, ← List.append_assoc]
      exact hlistener.append (List.Sublist.refl new)
  | push e _ =>
    cases e with
    | listen =>
      refine ⟨sent, hs.published, hs.bus, ?_, hs.pages⟩
      have hlistener := hs.listener
      cases hl : s.listener <;> simpa [LiveSystem.push, hl] using hlistener
    | lost =>
      refine ⟨sent, hs.published, hs.bus, ?_, hs.pages⟩
      have hlistener := (List.sublist_append_left _ _).trans hs.listener
      simpa [LiveSystem.push] using hlistener
    | forward =>
      have hlistener := hs.listener
      simp only [LiveSystem.push, forward]
      split
      · rename_i event queue hl
        rw [hl] at hlistener
        split_ifs
        · refine ⟨sent ++ [event], hs.published, hs.bus.send event, ?_,
            fun page hpage => (hs.pages page hpage).send event⟩
          simpa using hlistener
        · -- there is no receiver
          refine ⟨sent, hs.published, hs.bus, ?_, hs.pages⟩
          exact ((List.Sublist.refl sent).append (List.sublist_cons_self _ _)).trans hlistener
      · exact ⟨sent, hs⟩
    | openPage =>
      refine ⟨sent, hs.published, hs.bus, hs.listener, fun page hpage => ?_⟩
      rcases List.mem_append.1 hpage with hpage | hpage
      · exact hs.pages page hpage
      · rw [List.mem_singleton.1 hpage]
        exact .of_no_stream (List.nil_sublist _) rfl
    | connect n =>
      exact ⟨sent, hs.published, hs.bus, hs.listener,
        forall_mem_modify (fun _ h => h.connect hs.bus) hs.pages n⟩
    | poll n =>
      exact ⟨sent, hs.published, hs.bus, hs.listener,
        forall_mem_modify (fun _ h => h.poll hs.bus) hs.pages n⟩
    | read n =>
      exact ⟨sent, hs.published, hs.bus, hs.listener,
        forall_mem_modify (fun _ h => h.read) hs.pages n⟩
    | disconnect n =>
      exact ⟨sent, hs.published, hs.bus, hs.listener,
        forall_mem_modify (fun _ h => .of_no_stream h.received rfl) hs.pages n⟩

/-- The states that are reached in any order of writes and steps on the way. -/
def Reachable (webhook : WebhookConfig) : LiveSystem → Prop := ReflTransGen (Step webhook) empty

theorem Reachable.inv (h : Reachable webhook s) : ∃ sent, s.Inv sent := by
  induction h with
  | refl => exact ⟨[], .slnil, Broadcast.carries_new 256, .slnil, nofun⟩
  | tail _ hstep ih =>
    obtain ⟨sent, hs⟩ := ih
    exact hstep.inv hs

theorem Reachable.received (h : Reachable webhook s) (hpage : page ∈ s.pages) :
    page.received.Sublist (s.system.store.db.alerts.map (·.event)) := by
  obtain ⟨sent, hs⟩ := h.inv
  have hsent : sent.Sublist s.system.notified :=
    (List.sublist_append_left _ _).trans hs.listener
  exact (hs.pages page hpage).received.trans (hsent.trans hs.published)

/-! ### Nothing lost -/

/-- Page `n` is connected and has not fallen behind, the listener listens, and `events` are what
the page was handed and what is on its way to it. -/
def Follows (n : ℕ) (s : LiveSystem) (events : List Notification) : Prop :=
  ∃ page stream queue, s.pages[n]? = some page ∧ page.stream = some stream ∧
    s.listener = some queue ∧ s.bus.oldest ≤ stream.receiver ∧
    events = page.received ++ (stream.frames ++ (s.bus.ahead stream.receiver ++ queue))

/-- The channel can take another event before page `n` gets its next one. -/
def HasRoom (n : ℕ) (s : LiveSystem) : Prop :=
  ∀ page stream, s.pages[n]? = some page → page.stream = some stream →
    s.bus.tail < stream.receiver + s.bus.capacity

/-- A step that loses nothing of what page `n` follows. -/
inductive Attended (webhook : WebhookConfig) (n : ℕ) : LiveSystem → LiveSystem → Prop
  | write {s : LiveSystem} {system : System} (h : System.Step webhook s.system system) :
      Attended webhook n s (s.notify system)
  | push {e : PushEvent} {s : LiveSystem} (hlost : e ≠ .lost) (hpage : e ≠ .disconnect n)
      (hroom : e = .forward → HasRoom n s) : Attended webhook n s (s.push e)

variable {n : ℕ} {events : List Notification}

theorem Attended.step (h : Attended webhook n s s') : Step webhook s s' := by
  cases h with
  | write hwrite => exact .write hwrite
  | push => exact .push _ _

/-- A step of another page. -/
theorem Follows.modify_ne {m : ℕ} {f : LivePage → LivePage} (hne : m ≠ n)
    (h : s.Follows n events) : Follows n { s with pages := s.pages.modify m f } events := by
  obtain ⟨page, stream, queue, hpage, hstream, hqueue, hle, hevents⟩ := h
  refine ⟨page, stream, queue, ?_, hstream, hqueue, hle, hevents⟩
  rwa [List.getElem?_modify_ne _ _ hne]

/-- A step of the page, of which this is the next state. -/
theorem Follows.modify {f : LivePage → LivePage} {page : LivePage} {queue : List Notification}
    (stream : EventStream) (hpage : s.pages[n]? = some page)
    (hstream : (f page).stream = some stream) (hqueue : s.listener = some queue)
    (hle : s.bus.oldest ≤ stream.receiver)
    (hevents : events =
      (f page).received ++ (stream.frames ++ (s.bus.ahead stream.receiver ++ queue))) :
    Follows n { s with pages := s.pages.modify n f } events := by
  refine ⟨f page, stream, queue, ?_, hstream, hqueue, hle, hevents⟩
  rw [List.getElem?_modify_eq, hpage, Option.map_eq_map, Option.map_some]

theorem any_isSome {pages : List LivePage} {stream : EventStream} (hpage : pages[n]? = some page)
    (hstream : page.stream = some stream) : pages.any (·.stream.isSome) = true := by
  refine List.any_eq_true.2 ⟨page, List.mem_of_getElem? hpage, ?_⟩
  rw [hstream, Option.isSome_some]

/-- **One step of the way** moves the events on, and loses none of them. -/
theorem Follows.push {e : PushEvent} (hs : s.Inv sent) (h : s.Follows n events)
    (hlost : e ≠ .lost) (hdisconnect : e ≠ .disconnect n) (hroom : e = .forward → HasRoom n s) :
    (s.push e).Follows n events := by
  obtain ⟨page, stream, queue, hpage, hstream, hqueue, hle, hevents⟩ := id h
  have hinv := (hs.pages page (List.mem_of_getElem? hpage)).stream stream hstream
  cases e with
  | listen =>
    refine ⟨page, stream, queue, hpage, hstream, ?_, hle, hevents⟩
    simp [LiveSystem.push, hqueue]
  | lost => exact absurd rfl hlost
  | forward =>
    simp only [LiveSystem.push, forward, hqueue]
    cases queue with
    | nil => exact h
    | cons event queue =>
      obtain ⟨hnext, hahead⟩ := hs.bus.ahead_send hle (hs.bus.tail ▸ hinv.1)
        (hroom rfl page stream hpage hstream) event
      dsimp only
      rw [if_pos (any_isSome hpage hstream)]
      refine ⟨page, stream, queue, hpage, hstream, rfl, hnext, ?_⟩
      rw [hevents, hahead, List.append_assoc, List.singleton_append]
  | openPage =>
    refine ⟨page, stream, queue, ?_, hstream, hqueue, hle, hevents⟩
    exact List.getElem?_append_left (List.getElem?_eq_some_iff.1 hpage).1 ▸ hpage
  | connect m =>
    by_cases hne : m = n
    · subst hne
      refine Follows.modify stream hpage ?_ hqueue hle ?_
      · simp [LivePage.connect, hstream]
      · simpa [LivePage.connect, hstream] using hevents
    · exact h.modify_ne hne
  | poll m =>
    by_cases hne : m = n
    · subst hne
      obtain ⟨hnext, hahead⟩ := hs.bus.recv_ahead hle
      refine Follows.modify (stream.poll s.bus) hpage ?_ hqueue hnext ?_
      · simp [LivePage.poll, hstream]
      · rw [hevents, ← hahead]
        simp [LivePage.poll, EventStream.poll]
    · exact h.modify_ne hne
  | read m =>
    by_cases hne : m = n
    · subst hne
      obtain ⟨receiver, frames⟩ := stream
      cases frames with
      | nil =>
        refine Follows.modify ⟨receiver, []⟩ hpage ?_ hqueue hle ?_
        · simp [LivePage.read, hstream]
        · simpa [LivePage.read, hstream] using hevents
      | cons event frames =>
        refine Follows.modify ⟨receiver, frames⟩ hpage ?_ hqueue hle ?_
        · simp [LivePage.read, hstream]
        · rw [hevents]
          simp [LivePage.read, hstream]
    · exact h.modify_ne hne
  | disconnect m =>
    by_cases hne : m = n
    · exact absurd (congrArg PushEvent.disconnect hne) hdisconnect
    · exact h.modify_ne hne

/-- A write adds what it publishes to what the page follows. -/
theorem Follows.notify {system : System} (h : s.Follows n events) :
    (s.notify system).Follows n (events ++ system.notified.drop s.system.notified.length) := by
  obtain ⟨page, stream, queue, hpage, hstream, hqueue, hle, rfl⟩ := h
  refine ⟨page, stream, queue ++ system.notified.drop s.system.notified.length, hpage, hstream,
    ?_, hle, ?_⟩
  · rw [LiveSystem.notify, hqueue, Option.map_some]
  · simp [LiveSystem.notify, List.append_assoc]

theorem notified_grows (h : Step webhook s s') : s.system.notified <+: s'.system.notified := by
  cases h with
  | write hwrite => exact hwrite.notified
  | push e _ => rw [push_system]

theorem Attended.follows (hs : s.Inv sent) (h : Attended webhook n s s')
    (hf : s.Follows n events) :
    s'.Follows n (events ++ s'.system.notified.drop s.system.notified.length) := by
  cases h with
  | write hwrite => exact hf.notify
  | @push e _ hlost hpage hroom =>
    rw [push_system, List.drop_length, List.append_nil]
    exact hf.push hs hlost hpage hroom

theorem Follows.reaches (hreach : Reachable webhook s) (hf : s.Follows n events)
    (h : ReflTransGen (Attended webhook n) s s') :
    Reachable webhook s' ∧ s.system.notified <+: s'.system.notified ∧
      s'.Follows n (events ++ s'.system.notified.drop s.system.notified.length) := by
  induction h with
  | refl => exact ⟨hreach, List.prefix_refl _, by simpa using hf⟩
  | @tail t t' _ hlast ih =>
    obtain ⟨ht, hprefix, hft⟩ := ih
    obtain ⟨sent, hinv⟩ := ht.inv
    refine ⟨ht.tail hlast.step, hprefix.trans (notified_grows hlast.step), ?_⟩
    have hnext := hlast.follows hinv hft
    obtain ⟨new, hnew⟩ := notified_grows hlast.step
    obtain ⟨old, hold⟩ := hprefix
    rw [← hnew, ← hold] at hnext ⊢
    simpa [List.append_assoc] using hnext

end LiveSystem

/-- **What a page is handed tells recorded alerts**, in their order and each at most once. -/
theorem live_tells_alerts {s : LiveSystem} (h : LiveSystem.Reachable webhook s) {page : LivePage}
    (hpage : page ∈ s.pages) :
    page.received.Sublist (s.system.store.db.alerts.map (·.event)) :=
  h.received hpage

/-- **A page that stays connected is handed everything**, while the listener stays connected and
the channel never outruns the page: what it followed before, and what was published since. -/
theorem live_complete {s s' : LiveSystem} (hreach : LiveSystem.Reachable webhook s) {n : ℕ}
    {events : List Notification} (hf : s.Follows n events)
    (h : ReflTransGen (LiveSystem.Attended webhook n) s s') :
    s'.Follows n (events ++ s'.system.notified.drop s.system.notified.length) :=
  (hf.reaches hreach h).2.2

end Lumina

/-! ### A page that is handed an event -/

namespace Lumina.Sample

open LiveSystem

/-- A whale alert, with the details that tell its payment. -/
def toldAlert : PendingAlert :=
  { opsAlert with severity := .warning, details := (Event.whale paidRow).details }

/-- A page is connected, and so is the listener. -/
def watching : LiveSystem := ((empty.push .openPage).push (.connect 0)).push .listen

/-- An alert is recorded. -/
def afterAlert : System :=
  System.empty.withWorld (record (.clean 9) Config.default.webhook toldAlert System.empty.world).2

/-- The page is handed its event. -/
def handed : LiveSystem :=
  (((watching.notify afterAlert).push .forward).push (.poll 0)).push (.read 0)

theorem reachable_watching : LiveSystem.Reachable Config.default.webhook watching :=
  ((Relation.ReflTransGen.refl.tail (.push .openPage _)).tail (.push (.connect 0) _)).tail
    (.push .listen _)

theorem attended_handed :
    Relation.ReflTransGen (Attended Config.default.webhook 0) watching handed := by
  have hwrite : System.Step Config.default.webhook watching.system afterAlert :=
    .ingest (.alert (.clean 9) toldAlert _ ⟨.whale _, rfl⟩)
  have hroom : HasRoom 0 (watching.notify afterAlert) := by
    intro page stream hpage hstream
    obtain rfl := Option.some.inj hpage
    obtain rfl := Option.some.inj hstream
    decide
  have hforward : Attended Config.default.webhook 0 (watching.notify afterAlert)
      ((watching.notify afterAlert).push .forward) :=
    .push (by decide) (by decide) fun _ => hroom
  have hpoll : ∀ s : LiveSystem, Attended Config.default.webhook 0 s (s.push (.poll 0)) :=
    fun s => .push (by decide) (by decide) nofun
  have hread : ∀ s : LiveSystem, Attended Config.default.webhook 0 s (s.push (.read 0)) :=
    fun s => .push (by decide) (by decide) nofun
  exact (((Relation.ReflTransGen.single (.write hwrite)).tail hforward).tail (hpoll _)).tail
    (hread _)

theorem follows_watching : watching.Follows 0 [] :=
  ⟨⟨some ⟨0, []⟩, []⟩, ⟨0, []⟩, [], rfl, rfl, rfl, by decide, rfl⟩

theorem handed_complete :
    handed.Follows 0 ([] ++ [("whale_payment", "WARNING", [.str "large payment"], 9)]) :=
  live_complete reachable_watching follows_watching attended_handed

theorem handed_tells :
    handed.pages = [⟨some ⟨1, []⟩, [("whale_payment", "WARNING", [.str "large payment"], 9)]⟩] ∧
      [("whale_payment", "WARNING", [Piece.str "large payment"], (9 : Time))].Sublist
        (handed.system.store.db.alerts.map (·.event)) := by
  have hreach := (follows_watching.reaches reachable_watching attended_handed).1
  exact ⟨rfl, live_tells_alerts hreach (List.mem_singleton.2 rfl)⟩

end Lumina.Sample
