import Lumina.Lending.PanicFree
import Lumina.System.Payments

/-!
# The lending events of the whole system

The lending cycle is the second half of a cycle, and runs unless the process ends in the first one.
Nothing else in the system moves the cursor of the events (`step_lending`).  Cycles that come to
their end bring the cursor to the end of the stream, however they are scattered over a run and
whatever the events are (`lending_catch_up`).  An event that panics ends the process in every cycle
that reads it, so that the cursor never passes it (`lending_blocked`).

## Main definitions

* `SameEventsCursor` : the same cursor of the events.
* `SystemEvent.FeedsFrom` : the events of a cycle are those of one stream.
* `Completes` : a cycle whose lending cycle comes to its end.
-/

namespace Lumina

open Trace

variable {D : RustDecimal} {X : Codec} {config : Config} {rules : List AlertRuleRow} {w w' : World}

/-- The same cursor of the lending events. -/
def SameEventsCursor (w w' : World) : Prop :=
  getIngestCursor eventsCursorKey w'.db = getIngestCursor eventsCursorKey w.db

instance : IsPreorder World SameEventsCursor where
  refl _ := rfl
  trans _ _ _ h h' := Eq.trans h' h

theorem SameIngest.sameEventsCursor (h : SameIngest w w') : SameEventsCursor w w' :=
  congrFun h.2 _

/-! ### The first half of a cycle -/

/-- The cursor of the payments is another one. -/
theorem sameEventsCursor_advance (rows : List WhaleTransactionRow) (c : String) (w : World) :
    SameEventsCursor w (advance rows c w) := by
  have hne : eventsCursorKey ≠ paymentsCursorKey := by decide
  exact Function.update_of_ne hne (some c) w.db.ingestState

theorem sameEventsCursor_ingestPayments (env : PaymentsEnv) :
    Proc.Within SameEventsCursor (ingestPayments D config env rules) := by
  intro w
  have hgrow := ingestPayments_grow D config env rules w
  refine IsTrans.trans _ _ _ ?_ hgrow.sameIngest.sameEventsCursor
  rcases commitPayments_cases D config env rules w with
    ⟨hw, -⟩ | ⟨newest, rest, -, -, heq⟩ | ⟨c, payments, last, rows, pending, -, -, -, -, heq⟩
  · rw [hw]
    exact refl w
  · rw [heq]
    exact sameEventsCursor_advance [] newest.pagingToken w
  · rw [heq]
    exact sameEventsCursor_advance rows last.pagingToken w

theorem sameEventsCursor_runOnce (env : RunEnv) :
    Proc.Within SameEventsCursor (runOnce D config env) := by
  rw [runOnce_eq]
  exact Proc.Within.bind (fun w => (sameIngest_beforePayments env w).sameEventsCursor)
    fun rules => sameEventsCursor_ingestPayments env.payments

/-! ### One step of the system -/

/-- A cycle whose first half ends the process, or that has no pools to follow, leaves the cursor
alone; another one does just what its lending cycle does. -/
theorem step_lending (P : Deployment) (s : System) (e : SystemEvent) :
    SameEventsCursor s.world (s.step P e).world ∨
      ∃ env w₁, e = .cycle env ∧ SameEventsCursor s.world w₁ ∧
        (s.step P e).world = (ingestLendingCycle P.server.decimal P.codec P.config env.lending
          P.config.blendPoolIds w₁).2 := by
  cases e with
  | request env req => exact .inl (System.request_sameIngest env req).sameEventsCursor
  | retention job => exact .inl (System.retain_sameIngest job s).sameEventsCursor
  | cycle env =>
    have hrun := @sameEventsCursor_runOnce P.server.decimal P.config env.run s.world
    rcases ingestCycle_world P.server.decimal P.codec P.config env s.world with
      ⟨-, heq⟩ | ⟨-, heq⟩
    · refine .inl ?_
      rw [← heq] at hrun
      exact hrun
    · exact .inr ⟨env, _, rfl, hrun, heq⟩

/-! ### Runs -/

section Stream

variable {P : Deployment} {F : EventFeed P.server.decimal P.codec} {known : String → Prop}
  {s : System} {e : SystemEvent} {later : List SystemEvent}

/-- The events of a cycle are those of the stream, and its cursors are known. -/
def SystemEvent.FeedsFrom {D : RustDecimal} {X : Codec} (F : EventFeed D X)
    (known : String → Prop) : SystemEvent → Prop
  | .cycle env => F.Serves env.lending.rpc ∧ GivesOut known env.lending.rpc
  | .request _ _ => True
  | .retention _ => True

theorem SameEventsCursor.position (h : SameEventsCursor w w') :
    F.position w'.db = F.position w.db := by
  rw [EventFeed.position, EventFeed.position, h]

theorem SameEventsCursor.follows (h : SameEventsCursor w w') :
    EventFeed.Follows known w'.db ↔ EventFeed.Follows known w.db := by
  rw [EventFeed.Follows, EventFeed.Follows, h]

/-- **Every step** leaves a cursor that the RPC has given out, does not move it back, and does not
move it past an event that panics. -/
theorem step_eventsFollows (hfollows : EventFeed.Follows known s.store.db)
    (he : e.FeedsFrom F known) :
    EventFeed.Follows known (s.step P e).store.db ∧
      F.position s.store.db ≤ F.position (s.step P e).store.db ∧
      ∀ i event, F.stream[i]? = some event → Poisoned P.server.decimal P.codec event →
        F.position s.store.db ≤ i → F.position (s.step P e).store.db ≤ i := by
  rcases step_lending P s e with hsame | ⟨env, w₁, rfl, hw, heq⟩
  · have hpos : F.position (s.step P e).store.db = F.position s.store.db := hsame.position
    rw [hpos]
    exact ⟨hsame.follows.2 hfollows, le_rfl, fun _ _ _ _ hle => hle⟩
  · have hdb : (s.step P (.cycle env)).store.db = (ingestLendingCycle P.server.decimal P.codec
        P.config env.lending P.config.blendPoolIds w₁).2.db := congrArg World.db heq
    have hpos : F.position w₁.db = F.position s.store.db := hw.position
    rw [hdb, ← hpos]
    exact ingestLendingCycle_follows he.1 he.2 (hw.follows.2 hfollows)

/-- A cycle that follows some pools, does not end the process in its first half, and comes to the
end of its lending cycle, with an RPC that answers. -/
def Completes (P : Deployment) (F : EventFeed P.server.decimal P.codec) (known : String → Prop)
    (s : System) : SystemEvent → Prop
  | .cycle env => P.config.blendPoolIds ≠ [] ∧
      ¬ (runOnce P.server.decimal P.config env.run).CutOff s.world ∧
      F.Serves env.lending.rpc ∧ F.Answers known env.lending.rpc ∧
      (ingestLendingCycle P.server.decimal P.codec P.config env.lending P.config.blendPoolIds
        (runOnce P.server.decimal P.config env.run s.world).2).1 = .ret ()
  | .request _ _ => False
  | .retention _ => False

/-- **Such a cycle** moves the cursor on by 2000 events, or to the end of the stream. -/
theorem Completes.advances (h : Completes P F known s e)
    (hfollows : EventFeed.Follows known s.store.db) :
    min (F.position s.store.db + 2000) F.stream.length ≤ F.position (s.step P e).store.db := by
  cases e with
  | request env req => exact h.elim
  | retention job => exact h.elim
  | cycle env =>
    obtain ⟨hpools, huncut, hserves, hanswers, hret⟩ := h
    have hrun := @sameEventsCursor_runOnce P.server.decimal P.config env.run s.world
    rcases ingestCycle_world P.server.decimal P.codec P.config env s.world with
      ⟨hcut | hnil, -⟩ | ⟨-, heq⟩
    · exact absurd hcut huncut
    · exact absurd hnil hpools
    · have hdb : (s.step P (.cycle env)).store.db = _ := congrArg World.db heq
      have hpos : F.position (runOnce P.server.decimal P.config env.run s.world).2.db =
        F.position s.store.db := hrun.position
      rw [hdb, ← hpos]
      exact ingestLendingCycle_advances hanswers hserves (hrun.follows.2 hfollows) hret

/-- **The lending events catch up.**  Let cycles that come to their end be scattered over a run,
between cycles that fail or end the process anywhere, requests and jobs.  Together they move the
cursor on by 2000 events each, or to the end of the stream: no event holds it up that does not
panic. -/
theorem lending_catch_up {n : ℕ} (hfeeds : ∀ e ∈ later, e.FeedsFrom F known)
    (hfollows : EventFeed.Follows known s.store.db)
    (hoften : Often (System.step P) (Completes P F known) n s later) :
    min (F.position s.store.db + 2000 * n) F.stream.length ≤
      F.position (run (System.step P) s later).store.db :=
  hoften.progress hfeeds hfollows
    (fun _ _ hs he => ⟨(step_eventsFollows hs he).1, (step_eventsFollows hs he).2.1⟩)
    fun _ _ hs he => he.advances hs

/-- The world in which a cycle comes to its lending part. -/
def System.halfway (P : Deployment) (s : System) (env : CycleEnv) : World :=
  (runOnce P.server.decimal P.config env.run s.world).2

/-- **An event that panics blocks the lending events.**  Once the cursor is before it, the cursor
never comes past it, whatever comes.  A cycle that reads it in its batch ends the process in its
lending part; and as soon as it is among the next 2000 events, every batch of an RPC that answers
has it. -/
theorem lending_blocked {i : ℕ} {event : RpcEvent} (hi : F.stream[i]? = some event)
    (hbad : Poisoned P.server.decimal P.codec event)
    (hfeeds : ∀ e ∈ later, e.FeedsFrom F known)
    (hfollows : EventFeed.Follows known s.store.db) (hpos : F.position s.store.db ≤ i)
    {s' : System} (hs' : s' = run (System.step P) s later) :
    F.position s'.store.db ≤ i ∧
      ∀ env, (SystemEvent.cycle env).FeedsFrom F known → ∀ bands events next,
        (readBatch env.lending P.config.blendPoolIds (s'.halfway P env)).1 =
          .ret (bands, events, next) →
        (event ∈ events → (ingestLendingCycle P.server.decimal P.codec P.config env.lending
          P.config.blendPoolIds).CutOff (s'.halfway P env)) ∧
        (F.Answers known env.lending.rpc → i < F.position s'.store.db + 2000 →
          event ∈ events) := by
  subst hs'
  induction later generalizing s with
  | nil =>
    refine ⟨hpos, fun env he bands events next hb => ⟨cutOff_ingestLendingCycle hbad hb, ?_⟩⟩
    intro hanswers hreach
    have hrun := @sameEventsCursor_runOnce P.server.decimal P.config env.run s.world
    have hhalf : F.position (s.halfway P env).db = F.position s.store.db := hrun.position
    rw [run_nil, ← hhalf] at hreach
    exact hanswers.mem_batch he.1 (hrun.follows.2 hfollows) hb hi (hhalf ▸ hpos) hreach
  | cons e later ih =>
    obtain ⟨he, hrest⟩ := List.forall_mem_cons.1 hfeeds
    obtain ⟨hnext, -, hblocked⟩ := step_eventsFollows hfollows he
    exact ih hrest hnext (hblocked i event hi hbad hpos)

end Stream

namespace Sample

section OneEvent

variable (D : RustDecimal) (X : Codec) (event : RpcEvent)

/-- A stream of one event. -/
def oneEvent : EventFeed D X where
  stream := [event]
  pos c := if c = cursor then 1 else 0
  start _ := 0
  ordered := List.pairwise_singleton _ _

/-- The cursor after so many events. -/
def cursorAt (n : ℕ) : String := if n = 1 then cursor else ""

/-- An RPC that answers every request with what the stream has from there on. -/
def tailRpc : EventsRpc := fun _ req =>
  let events := ([event].drop ((oneEvent D X event).resume req.startLedger req.cursor)).take
    req.limit
  .ret ⟨events, some (cursorAt ((oneEvent D X event).resume req.startLedger req.cursor +
    events.length))⟩

variable {D X event}

theorem pos_oneEvent (c : String) : (oneEvent D X event).pos c = if c = cursor then 1 else 0 := rfl

theorem empty_ne_cursor : "" ≠ cursor := by decide

theorem pos_cursorAt {n : ℕ} (h : n ≤ 1) : (oneEvent D X event).pos (cursorAt n) = n := by
  interval_cases n
  · rw [pos_oneEvent, cursorAt, if_neg Nat.zero_ne_one, if_neg empty_ne_cursor]
  · rw [pos_oneEvent, cursorAt, if_pos rfl, if_pos rfl]

theorem resume_le (startLedger : Option ℕ) (c : Option String) :
    (oneEvent D X event).resume startLedger c ≤ 1 := by
  cases c with
  | some c =>
    rw [EventFeed.resume, pos_oneEvent]
    split_ifs <;> decide
  | none => cases startLedger <;> exact Nat.zero_le _

theorem serves_tailRpc : (oneEvent D X event).Serves (tailRpc D X event) where
  events n req res h := by
    cases h
    have htake : ∀ l : List RpcEvent, l.take req.limit = l.take (l.take req.limit).length := by
      intro l
      rw [List.length_take, ← List.take_eq_take_min]
    exact htake _
  cursor n req res c h hc := by
    cases h
    cases hc
    have hle := @resume_le D X event req.startLedger req.cursor
    refine pos_cursorAt ?_
    rw [List.length_take, List.length_drop, List.length_singleton]
    omega

theorem answers_tailRpc :
    (oneEvent D X event).Answers (fun _ => True) (tailRpc D X event) := by
  intro n req c hc _
  refine ⟨cursorAt ((oneEvent D X event).pos c +
    (([event].drop ((oneEvent D X event).pos c)).take req.limit).length), trivial, ?_⟩
  rw [tailRpc, hc]
  rfl

end OneEvent

/-- The system with a cursor at the beginning of the stream. -/
def followingSystem : System :=
  { System.empty with
    store := { Store.empty with db := setIngestCursor eventsCursorKey "" Db.empty } }

theorem following (D : RustDecimal) (X : Codec) (event : RpcEvent) :
    EventFeed.Follows (fun _ => True) followingSystem.store.db ∧
      (oneEvent D X event).position followingSystem.store.db = 0 := by
  have hcursor : getIngestCursor eventsCursorKey followingSystem.store.db = some "" := by
    decide
  refine ⟨⟨"", hcursor, trivial⟩, ?_⟩
  rw [EventFeed.position_of_cursor _ hcursor, pos_oneEvent, if_neg empty_ne_cursor]

/-- A deployment that follows one pool. -/
def lendingDeployment (D : RustDecimal) (X : Codec) : Deployment :=
  { opsDeployment with
    codec := X
    config := { Config.default with blendPoolIdsRaw := pool }
    server := { adminServer with decimal := D } }

/-- A cycle that asks such an RPC. -/
def tailCycle (D : RustDecimal) (X : Codec) (event : RpcEvent) : CycleEnv :=
  { paid .ok with lending := { cycle .ok .ok with rpc := tailRpc D X event } }

/-- A cycle that is stopped in its loop. -/
def stoppedCycle (D : RustDecimal) (X : Codec) (event : RpcEvent) : CycleEnv :=
  { tailCycle D X event with
    lending := { cycle .stop .ok with rpc := tailRpc D X event } }

theorem feeds (D : RustDecimal) (X : Codec) (event : RpcEvent) :
    ∀ e ∈ [SystemEvent.cycle (stoppedCycle D X event), .cycle (tailCycle D X event)],
      e.FeedsFrom (oneEvent D X event) fun _ => True :=
  List.forall_mem_cons.2 ⟨⟨serves_tailRpc, fun _ _ _ _ _ _ => trivial⟩,
    List.forall_mem_singleton.2 ⟨serves_tailRpc, fun _ _ _ _ _ _ => trivial⟩⟩

/-- The cycle after one that was stopped brings the cursor to the end of the stream. -/
theorem supply_caught_up : 1 ≤ (oneEvent decimal codec supply.event).position
    (run (System.step (lendingDeployment decimal codec)) followingSystem
      [.cycle (stoppedCycle decimal codec supply.event),
        .cycle (tailCycle decimal codec supply.event)]).store.db := by
  obtain ⟨hfollows, -⟩ := following decimal codec supply.event
  have hcompletes : Completes (lendingDeployment decimal codec)
      (oneEvent decimal codec supply.event) (fun _ => True)
      (followingSystem.step (lendingDeployment decimal codec)
        (.cycle (stoppedCycle decimal codec supply.event)))
      (.cycle (tailCycle decimal codec supply.event)) :=
    ⟨by decide +kernel, by decide +kernel, serves_tailRpc, answers_tailRpc, by decide +kernel⟩
  have hprogress := @lending_catch_up (lendingDeployment decimal codec)
    (oneEvent decimal codec supply.event) (fun _ => True) followingSystem _ 1
    (feeds decimal codec supply.event) hfollows (.wait (.hit hcompletes .done))
  refine (le_min ?_ ?_).trans hprogress
  · omega
  · exact Nat.le_refl 1

/-- A supply of `2 ^ 100` stroops. -/
def hugeSupply : RpcEvent := (supplyCall "AAAACgAAABAAAAAAAAAAAAAAAAA=").event

/-- The system after a cycle that was stopped before the huge supply and one that reads it. -/
def blockedSystem : System :=
  run (System.step (lendingDeployment roundedDecimal hugeCodec)) followingSystem
    [.cycle (stoppedCycle roundedDecimal hugeCodec hugeSupply),
      .cycle (tailCycle roundedDecimal hugeCodec hugeSupply)]

/-- The cursor stays before the huge supply, and the next cycle reads it and ends the process. -/
theorem huge_supply_blocks :
    (oneEvent roundedDecimal hugeCodec hugeSupply).position blockedSystem.store.db ≤ 0 ∧
      (ingestLendingCycle roundedDecimal hugeCodec
        (lendingDeployment roundedDecimal hugeCodec).config
        (tailCycle roundedDecimal hugeCodec hugeSupply).lending
        (lendingDeployment roundedDecimal hugeCodec).config.blendPoolIds).CutOff
          (blockedSystem.halfway (lendingDeployment roundedDecimal hugeCodec)
            (tailCycle roundedDecimal hugeCodec hugeSupply)) := by
  obtain ⟨hfollows, hpos⟩ := following roundedDecimal hugeCodec hugeSupply
  have hbad : Poisoned roundedDecimal hugeCodec hugeSupply := by
    unfold Poisoned
    decide +kernel
  have hfeeds := feeds roundedDecimal hugeCodec hugeSupply
  obtain ⟨hle, hnever⟩ := @lending_blocked (lendingDeployment roundedDecimal hugeCodec)
    (oneEvent roundedDecimal hugeCodec hugeSupply) (fun _ => True) followingSystem _ 0 hugeSupply
    rfl hbad hfeeds hfollows hpos.le blockedSystem rfl
  have hb : (readBatch (tailCycle roundedDecimal hugeCodec hugeSupply).lending
      (lendingDeployment roundedDecimal hugeCodec).config.blendPoolIds
      (blockedSystem.halfway (lendingDeployment roundedDecimal hugeCodec)
        (tailCycle roundedDecimal hugeCodec hugeSupply))).1 =
      .ret (LtvBands.default, [hugeSupply], some cursor) := by
    decide +kernel
  obtain ⟨hends, hreads⟩ := hnever _ (hfeeds _ (by simp)) _ _ _ hb
  exact ⟨hle, hends (hreads answers_tailRpc (by omega))⟩

end Sample

end Lumina
