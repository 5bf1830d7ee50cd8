import Lumina.Alerts.Recorded
import Lumina.Payments.Threshold
import Lumina.Rules.TakesEffect
import Lumina.Trace.Basic

/-!
# Decisions under the configured rules

Both parts of a cycle read the rules before they judge a record, and a whale row or an alert is
decided by the thresholds that the rules give (`Pass.adds_under`).  A read that fails is taken for a
table without rules, so a cycle then decides under the defaults.  In every run in which no read
of the rules fails, or those that do miss no override, every pass does nothing at all or just what
it does with the rules of the table in its hands: what it records and what it leaves out, its
whale rows and its alerts, are decided under these rules (`rules_decide`).

## Main definitions

* `Pass` : the steps of a run: a part of a cycle, or a change of the rules.
* `Pass.under` : what a pass does with some rules in its hands.
* `Pass.Judges` : the records that a pass judges.
* `Decides` : what a pass does was decided under the rules of the table.
* `ReadsRules` : the pass reads the rules, or misses no override.
-/

namespace Lumina

open Tx

/-! ### The parts of a cycle, given the rules -/

section Under

variable (D : RustDecimal) (X : Codec) (config : Config) (rules : List AlertRuleRow)

/-- `runOnce` without its read of the rules. -/
def runOnceUnder (env : RunEnv) : Proc World Error Unit := do
  let pools ← Proc.lift (Horizon.liquidityPools env.pools config.horizonUrl 10)
  let assets ← Proc.lift (Horizon.assets env.assets config.horizonUrl 10)
  let pending ← commitBatch D config env rules pools assets
  recordAll env.record config.webhook pending
  ingestPayments D config env.payments rules

/-- The events of a lending cycle, with the cursor after them. -/
def readEvents (env : LendingEnv) (contractIds : List String) :
    Proc World Error (List RpcEvent × Option String) := do
  let cursor ← fetch env.getCursor (getIngestCursor eventsCursorKey)
  let startLedger ← match cursor with
    | some _ => pure none
    | none => do
      let sequence ← Proc.lift env.latestLedger
      pure (some (sequence - coldStartLedgerLookback))
  Proc.lift (getEvents env.rpc startLedger cursor contractIds maxEventPages)

/-- `ingestLendingCycle` without its read of the rules. -/
def lendingCycleUnder (env : LendingEnv) (contractIds : List String) : Proc World Error Unit := do
  let (events, next) ← readEvents env contractIds
  processEvents D X config (config.blendAssetPricesUsd D) (resolveLtvBands rules) env.event events
  match next with
  | none => pure ()
  | some c => exec env.setCursor (setIngestCursor eventsCursorKey c)

end Under

/-! ### Passes -/

/-- A step of a run. -/
inductive Pass where
  /-- The pools, tokens and payments of a cycle. -/
  | horizon (config : Config) (env : RunEnv)
  /-- The lending events of a cycle. -/
  | lending (config : Config) (env : LendingEnv)
  /-- The operator changes the rules. -/
  | operator (rules : List AlertRuleRow)

namespace Pass

/-- The world after a pass. -/
def after (D : RustDecimal) (X : Codec) (w : World) : Pass → World
  | horizon config env => (runOnce D config env w).2
  | lending config env => (ingestLendingCycle D X config env config.blendPoolIds w).2
  | operator rules => { w with db := { w.db with alertRules := rules } }

/-- The world after a pass that has the rules in its hands. -/
def under (D : RustDecimal) (X : Codec) (rules : List AlertRuleRow) (w : World) : Pass → World
  | horizon config env => (runOnceUnder D config rules env w).2
  | lending config env => (lendingCycleUnder D X config rules env config.blendPoolIds w).2
  | operator rules => { w with db := { w.db with alertRules := rules } }

/-- The settings that a pass judges by. -/
def config : Pass → Config
  | horizon config _ => config
  | lending config _ => config
  | operator _ => Config.default

/-- What happens to the read of the rules. -/
def reading : Pass → Fault
  | horizon _ env => env.rules
  | lending _ env => env.rules
  | operator _ => .ok

/-- The rules that a pass judges by: none where the read fails. -/
def loaded (w : World) (pass : Pass) : List AlertRuleRow :=
  if pass.reading = .fail then [] else listAlertRules w.db

/-- The records that a pass from `w` judges: the pools and the tokens that Horizon lists, the
payments that it answers after the cursor, and the lending rows that the pass writes. -/
inductive Judges (D : RustDecimal) (X : Codec) (w : World) : Pass → Ingested → Prop
  | pool {config : Config} {env : RunEnv} {pools : List LiquidityPool} {assets : List AssetRecord}
      {lp : LiquidityPool} :
      Horizon.liquidityPools env.pools config.horizonUrl 10 = .ret pools →
      Horizon.assets env.assets config.horizonUrl 10 = .ret assets → lp ∈ pools →
      Judges D X w (horizon config env) (.pool lp)
  | token {config : Config} {env : RunEnv} {pools : List LiquidityPool}
      {assets : List AssetRecord} {a : AssetRecord} :
      Horizon.liquidityPools env.pools config.horizonUrl 10 = .ret pools →
      Horizon.assets env.assets config.horizonUrl 10 = .ret assets → a ∈ assets →
      Judges D X w (horizon config env) (.token a)
  | payment {config : Config} {env : RunEnv} {cursor : String} {payments : List PaymentRecord}
      {p : PaymentRecord} :
      getIngestCursor paymentsCursorKey w.db = some cursor →
      Horizon.paymentsSince env.payments.server config.horizonUrl (some cursor)
        maxPagesPerCycle = .ret payments → p ∈ payments →
      Judges D X w (horizon config env) (.payment p)
  | position {config : Config} {env : LendingEnv} {events : List RpcEvent}
      {next : Option String} {s : StoredRow} :
      (readEvents env config.blendPoolIds w).1 = .ret (events, next) →
      s ∈ storedRows D X config (config.blendAssetPricesUsd D)
        (resolveLtvBands ((lending config env).loaded w)) env.event events.zipIdx w →
      Judges D X w (lending config env) (.position s.row)

end Pass

section Decides

variable (D : RustDecimal) (X : Codec) (pass : Pass) (rules : List AlertRuleRow) (w₀ : World)

/-- The row of a payment that meets its threshold under the rules. -/
def WhaleUnder (row : WhaleTransactionRow) : Prop :=
  ∃ p time amount, pass.Judges D X w₀ (.payment p) ∧
    paymentWhaleAmount D pass.config.whaleThreshold rules p = .ret (some amount) ∧
    row = whaleRow time p amount

/-- The events of a pass under the rules: a snapshot that shows a drop from the one before which
clears its threshold, a payment that meets its threshold, and a position that crosses upwards from
the band of the row before into an alertable one. -/
inductive EventUnder : Pass → Event → Prop
  | drop {config : Config} {env : RunEnv} {pools : List LiquidityPool}
      {assets : List AssetRecord} {x : Event} :
      Horizon.liquidityPools env.pools config.horizonUrl 10 = .ret pools →
      Horizon.assets env.assets config.horizonUrl 10 = .ret assets →
      x ∈ eventsAlong (watchedRecords D config env rules pools assets) w₀ →
      EventUnder (.horizon config env) x
  | whale {config : Config} {env : RunEnv} {row : WhaleTransactionRow} :
      WhaleUnder D X (.horizon config env) rules w₀ row →
      EventUnder (.horizon config env) (.whale row)
  | escalation {config : Config} {env : LendingEnv} {events : List RpcEvent}
      {next : Option String} {s : StoredRow} {x : Event} :
      (readEvents env config.blendPoolIds w₀).1 = .ret (events, next) →
      s ∈ storedRows D X config (config.blendAssetPricesUsd D) (resolveLtvBands rules) env.event
        events.zipIdx w₀ →
      s.event (resolveLtvBands rules) = some x → EventUnder (.lending config env) x

/-- Every whale row and every alert that `w'` has beyond `w` is that of an event of the pass under
the rules. -/
structure AddsUnder (w w' : World) : Prop where
  whales : ∃ rows, w'.db.whaleTransactions = w.db.whaleTransactions ++ rows ∧
    ∀ row ∈ rows, WhaleUnder D X pass rules w₀ row
  alerts : ∃ new, w'.db.alerts = w.db.alerts ++ new ∧
    ∀ a ∈ new, ∃ x, EventUnder D X rules w₀ pass x ∧ a.telling = x.telling

/-- What a pass from `w` does is decided under the rules of the table: each row and alert that it
adds is, and all that the pass does is what it does with these rules in its hands, or nothing. -/
structure Decides (w : World) (pass : Pass) : Prop where
  adds : AddsUnder D X pass (listAlertRules w.db) w w (pass.after D X w)
  all : pass.after D X w = w ∨ pass.after D X w = pass.under D X (listAlertRules w.db) w

/-- The pass reads the rules, or the rules override the threshold of no record that it judges. -/
def ReadsRules (w : World) (pass : Pass) : Prop :=
  pass.reading ≠ .fail ∨ ∀ record, pass.Judges D X w record →
    record.thresholds D pass.config (listAlertRules w.db) = record.thresholds D pass.config []

end Decides

variable {D : RustDecimal} {X : Codec} {config : Config} {pass : Pass}
  {rules rules' : List AlertRuleRow} {w₀ w w' : World}

instance : IsPreorder World (AddsUnder D X pass rules w₀) where
  refl w := ⟨⟨[], by simp, by simp⟩, ⟨[], by simp, by simp⟩⟩
  trans := by
    rintro w₁ w₂ w₃ ⟨⟨rows, hrows, hr⟩, ⟨new, hnew, hn⟩⟩ ⟨⟨rows', hrows', hr'⟩, ⟨new', hnew', hn'⟩⟩
    refine ⟨⟨rows ++ rows', by rw [hrows', hrows, List.append_assoc], fun row hrow => ?_⟩,
      ⟨new ++ new', by rw [hnew', hnew, List.append_assoc], fun a ha => ?_⟩⟩
    · exact (List.mem_append.1 hrow).elim (hr row) (hr' row)
    · exact (List.mem_append.1 ha).elim (hn a) (hn' a)

/-- What touches neither table adds nothing. -/
theorem AddsUnder.of_same (hwhales : w'.db.whaleTransactions = w.db.whaleTransactions)
    (halerts : w'.db.alerts = w.db.alerts) : AddsUnder D X pass rules w₀ w w' :=
  ⟨⟨[], by simp [hwhales], by simp⟩, ⟨[], by simp [halerts], by simp⟩⟩

/-! ### Recording -/

/-- Recording alerts of events under the rules. -/
theorem adds_recordAll (env : ℕ → RecordEnv) (webhook : WebhookConfig)
    {pending : List PendingAlert}
    (h : ∀ a ∈ pending, ∃ x, EventUnder D X rules w₀ pass x ∧ a.telling = x.telling) (w : World) :
    AddsUnder D X pass rules w₀ w (recordAll env webhook pending w).2 := by
  obtain ⟨new, hnew, hsub, -⟩ := recordAll_alerts env webhook pending w
  refine ⟨⟨[], ?_, by simp⟩, ⟨new, hnew, fun a ha => ?_⟩⟩
  · rw [(within_recordAll env webhook pending w).whaleTransactions, List.append_nil]
  · obtain ⟨b, hb, hcontent⟩ := List.mem_map.1 (hsub.subset (List.mem_map_of_mem ha))
    obtain ⟨x, hx, htelling⟩ := h b hb
    have hsame : a.telling = b.telling :=
      congrArg (fun c : Content => (c.1, c.2.2.2)) hcontent.symm
    exact ⟨x, hx, hsame.trans htelling⟩

/-! ### The snapshots -/

section Horizon

variable {env : RunEnv} {pools : List LiquidityPool} {assets : List AssetRecord}

/-- The batch writes neither whale rows nor alerts. -/
theorem adds_commitBatch (w : World) :
    AddsUnder D X pass rules w₀ w (commitBatch D config env rules' pools assets w).2 := by
  have hpool : ∀ (row : PoolRow) (w : World),
      AddsUnder D X pass rules w₀ w { w with db := upsertPool row w.db } := by
    intro row w
    refine .of_same ?_ (upsertPool_alerts _ _)
    unfold upsertPool
    split_ifs <;> rfl
  have htoken : ∀ (row : TokenRow) (w : World),
      AddsUnder D X pass rules w₀ w { w with db := upsertToken row w.db } := by
    intro row w
    refine .of_same ?_ (upsertToken_alerts _ _)
    unfold upsertToken
    split_ifs <;> rfl
  have hbatch : Proc.Within (AddsUnder D X pass rules w₀)
      (commitBatch D config env rules' pools assets) := by
    refine within_transaction ?_
    rw [batchBody_eq]
    exact within_collectAll (within_batchRecords _ _ _ _ _ _ hpool (fun _ _ => .of_same rfl rfl)
      htoken (fun _ _ => .of_same rfl rfl) fun _ _ _ _ _ => .of_same rfl rfl) []
  exact hbatch w

/-- The alerts that wait for the commit of the batch. -/
theorem events_commitBatch
    (hpools : Horizon.liquidityPools env.pools config.horizonUrl 10 = .ret pools)
    (hassets : Horizon.assets env.assets config.horizonUrl 10 = .ret assets)
    {pending : List PendingAlert}
    (h : (commitBatch D config env rules pools assets w).1 = .ret pending) :
    ∀ a ∈ pending, ∃ x, EventUnder D X rules w (.horizon config env) x ∧
      a.telling = x.telling := by
  intro a ha
  obtain ⟨x, hx, htelling⟩ :=
    List.mem_map.1 ((commitBatch_telling h).subset (List.mem_map_of_mem ha))
  exact ⟨x, .drop hpools hassets hx, htelling.symm⟩

/-! ### The payments -/

/-- One payment adds its row, if it meets its threshold under the rules. -/
theorem adds_ingestWhalePayment (calls : WhaleEnv) {p : PaymentRecord}
    (hp : (Pass.horizon config env).Judges D X w₀ (.payment p)) :
    Proc.Within (Tx.Via (AddsUnder D X (.horizon config env) rules w₀))
      (ingestWhalePayment D calls p config.whaleThreshold rules) := by
  intro t
  unfold ingestWhalePayment
  refine Proc.related_bind (refl t) fun q hq => ?_
  cases q with
  | none => exact refl _
  | some amount =>
    have hinsert : Proc.Within (Tx.Via (AddsUnder D X (.horizon config env) rules w₀))
        (Tx.execReturning calls.insert (insertWhaleTransaction (whaleRow calls.now p amount))) := by
      refine Tx.within_statement fun w => ?_
      unfold insertWhaleTransaction
      split_ifs
      · exact refl w
      · refine ⟨⟨[whaleRow calls.now p amount], rfl, fun row hrow => ?_⟩, ⟨[], by simp, by simp⟩⟩
        rw [List.mem_singleton.1 hrow]
        exact ⟨p, calls.now, amount, hp, hq, rfl⟩
    refine (hinsert.bind fun inserted => ?_) _
    cases inserted with
    | false => exact Proc.within_pure none
    | true => exact (Proc.within_lift _).bind fun _ => Proc.within_pure _

/-- The payments up to their commit, from a world with the cursor of `w₀`. -/
theorem adds_commitPayments (hcursor : getIngestCursor paymentsCursorKey w.db =
      getIngestCursor paymentsCursorKey w₀.db) :
    AddsUnder D X (.horizon config env) rules w₀ w
      (commitPayments D config env.payments rules w).2 := by
  unfold commitPayments
  refine Proc.related_bind (Proc.within_await (fun w => refl w) w) fun cursor hread => ?_
  rw [fetch_snd]
  cases cursor with
  | none =>
    refine ((Proc.within_lift _).bind fun latest => ?_) w
    cases latest.head? with
    | none => exact Proc.within_pure []
    | some newest =>
      have hseed : Proc.Within (AddsUnder D X (.horizon config env) rules w₀)
          (exec env.payments.seed (setIngestCursor paymentsCursorKey newest.pagingToken)) :=
        Proc.within_await fun _ => .of_same rfl rfl
      exact hseed.bind fun _ => Proc.within_pure []
  | some cursor =>
    have hc : getIngestCursor paymentsCursorKey w₀.db = some cursor :=
      hcursor.symm.trans (fetch_fst_eq_ret.1 hread).2
    refine Proc.related_bind (refl w) fun payments hpayments => ?_
    split_ifs
    · exact refl _
    · have hloop : Proc.Within (Tx.Via (AddsUnder D X (.horizon config env) rules w₀))
          (paymentsBody D config env.payments rules payments cursor) := by
        refine (Proc.within_foldlM_of_mem (fun c hc' found => ?_) _).bind fun _ =>
          Proc.Within.bind (R := Tx.Via (AddsUnder D X (.horizon config env) rules w₀))
            (Tx.within_exec fun _ => .of_same rfl rfl) fun _ => Proc.within_pure _
        have hmem := List.fst_mem_of_mem_zipIdx hc'
        refine (adds_ingestWhalePayment _ (.payment hc hpayments hmem)).bind fun alert => ?_
        cases alert <;> exact Proc.within_pure _
      exact within_transaction hloop _

/-- The payments with their alerts. -/
theorem adds_ingestPayments (hcursor : getIngestCursor paymentsCursorKey w.db =
      getIngestCursor paymentsCursorKey w₀.db) :
    AddsUnder D X (.horizon config env) rules w₀ w
      (ingestPayments D config env.payments rules w).2 := by
  have hcommit : AddsUnder D X (.horizon config env) rules w₀ w
      (commitPayments D config env.payments rules w).2 := adds_commitPayments hcursor
  unfold ingestPayments
  refine Proc.related_bind hcommit fun pending hpending => ?_
  refine adds_recordAll _ _ (fun a ha => ?_) _
  -- the alerts are those of the rows that were added
  obtain ⟨rows, hrows, hwhales⟩ := hcommit.whales
  have htelling := commitPayments_telling (Prod.ext hpending rfl)
  rw [hrows, List.drop_left, List.map_map] at htelling
  obtain ⟨row, hrow, hsame⟩ := List.mem_map.1 (htelling ▸ List.mem_map_of_mem ha)
  exact ⟨.whale row, .whale (hwhales row hrow), hsame.symm⟩

end Horizon

/-! ### The first half of a cycle -/

/-- The same whale rows and cursors. -/
def SameIngest (w w' : World) : Prop :=
  w'.db.whaleTransactions = w.db.whaleTransactions ∧ w'.db.ingestState = w.db.ingestState

instance : IsPreorder World SameIngest where
  refl _ := ⟨rfl, rfl⟩
  trans _ _ _ h h' := ⟨h'.1.trans h.1, h'.2.trans h.2⟩

theorem AlertsGrow.sameIngest (h : AlertsGrow w w') : SameIngest w w' :=
  ⟨h.whaleTransactions, h.ingestState⟩

theorem sameIngest_commitBatch (env : RunEnv) (pools : List LiquidityPool)
    (assets : List AssetRecord) :
    Proc.Within SameIngest (commitBatch D config env rules pools assets) := by
  have hpool : ∀ (row : PoolRow) (w : World),
      SameIngest w { w with db := upsertPool row w.db } := by
    intro row w
    unfold upsertPool
    split_ifs <;> exact ⟨rfl, rfl⟩
  have htoken : ∀ (row : TokenRow) (w : World),
      SameIngest w { w with db := upsertToken row w.db } := by
    intro row w
    unfold upsertToken
    split_ifs <;> exact ⟨rfl, rfl⟩
  refine within_transaction ?_
  rw [batchBody_eq]
  exact within_collectAll (within_batchRecords _ _ _ _ _ _ hpool (fun _ _ => ⟨rfl, rfl⟩)
    htoken (fun _ _ => ⟨rfl, rfl⟩) fun _ _ _ _ _ => ⟨rfl, rfl⟩) []

/-- What precedes the payments of a cycle leaves their cursor alone. -/
theorem cursor_recordAll (env : RunEnv) (rules : List AlertRuleRow) (pools : List LiquidityPool)
    (assets : List AssetRecord) (pending : List PendingAlert) (w : World) :
    getIngestCursor paymentsCursorKey (recordAll env.record config.webhook pending
      (commitBatch D config env rules pools assets w).2).2.db =
        getIngestCursor paymentsCursorKey w.db := by
  have hrecord := (within_recordAll env.record config.webhook pending
    (commitBatch D config env rules pools assets w).2).sameIngest
  have hbatch := @sameIngest_commitBatch D config rules env pools assets w
  exact congrFun (hrecord.2.trans hbatch.2) _

/-- What the first half of a cycle adds. -/
theorem adds_runOnceUnder (env : RunEnv) (w : World) :
    AddsUnder D X (.horizon config env) rules w w (runOnceUnder D config rules env w).2 := by
  unfold runOnceUnder
  refine Proc.related_bind (refl w) fun pools hpools => ?_
  refine Proc.related_bind (refl w) fun assets hassets => ?_
  simp only [Proc.lift_apply] at hpools hassets ⊢
  refine Proc.related_bind (adds_commitBatch w) fun pending hpending => ?_
  have hevents := @events_commitBatch D X config rules w env pools assets hpools hassets pending
    hpending
  refine Proc.related_bind (adds_recordAll _ _ hevents _) fun u _ => ?_
  exact adds_ingestPayments (cursor_recordAll env rules pools assets pending w)

/-! ### The second half of a cycle -/

section Lending

variable {env : LendingEnv} {prices : PriceMap} {bands bands' : LtvBands} {calls : EventEnv}
  {event : RpcEvent}

theorem readEvents_world (contractIds : List String) (w : World) :
    (readEvents env contractIds w).2 = w := by
  have heq : Proc.Within Eq (readEvents env contractIds) := by
    refine Proc.Within.bind (R := Eq) within_fetch fun cursor => ?_
    have hevents : ∀ startLedger : Option ℕ, Proc.Within (Eq : World → World → Prop)
        (Proc.lift (getEvents env.rpc startLedger cursor contractIds maxEventPages)) :=
      fun startLedger => Proc.within_lift _
    cases cursor with
    | some c => exact Proc.Within.bind (R := Eq) (Proc.within_pure _) hevents
    | none =>
      refine Proc.Within.bind (R := Eq) (Proc.within_lift _) fun sequence => ?_
      exact Proc.Within.bind (R := Eq) (Proc.within_pure _) hevents
  exact (heq w).symm

/-- One lending event adds the alert of its own event. -/
theorem adds_processEvent
    (h : ∀ s, storedRow D X prices calls event w = some s → ∀ x, s.event bands = some x →
      EventUnder D X rules w₀ pass x) :
    AddsUnder D X pass rules w₀ w
      (processEvent D X config prices bands calls event w).2 := by
  rcases processEvent_cases D X config prices bands calls event w with
    ⟨e, row, -, hd, hg, hr, -⟩ | ⟨hw, -⟩
  · have hdb := (processEvent_stored config bands hd hg.1 hg.2 hr).1
    cases halert : (alertAfter bands calls.tie row w.db).join with
    | none =>
      rw [halert] at hdb
      exact .of_same (by rw [hdb]; rfl) (by rw [hdb]; rfl)
    | some a =>
      rw [halert] at hdb
      simp only [recordedDb] at hdb
      split_ifs at hdb
      · obtain ⟨ltv, level, hesc, htelling⟩ := lendingAlert_some (Option.join_eq_some_iff.1 halert)
        refine ⟨⟨[], by rw [hdb, List.append_nil]; rfl, by simp⟩, ⟨_, by rw [hdb]; rfl, ?_⟩⟩
        intro b hb
        rw [List.mem_singleton.1 hb]
        refine ⟨_, h _ (storedRow_of_row hd hg hr) (.escalation row ltv level) ?_, htelling⟩
        rw [StoredRow.event, hesc]
        rfl
      · exact .of_same (by rw [hdb]; rfl) (by rw [hdb]; rfl)
  · rw [hw]
    exact refl w

theorem adds_processAll {env : ℕ → EventEnv} {l : List (RpcEvent × ℕ)}
    (h : ∀ s ∈ storedRows D X config prices bands env l w, ∀ x, s.event bands = some x →
      EventUnder D X rules w₀ pass x) :
    AddsUnder D X pass rules w₀ w (processAll D X config prices bands env l w).2 := by
  induction l generalizing w with
  | nil => exact refl w
  | cons q l ih =>
    obtain ⟨event, i⟩ := q
    rw [storedRows, List.forall_mem_append] at h
    have hevent : AddsUnder D X pass rules w₀ w
        (processEvent D X config prices bands (env i) event w).2 :=
      adds_processEvent fun s hs => h.1 s (by simp [hs])
    have hrest := h.2
    rw [processAll_cons]
    generalize processEvent D X config prices bands (env i) event w = r at hevent hrest
    obtain ⟨o, w₁⟩ := r
    cases o with
    | ret b => exact IsTrans.trans _ _ _ hevent (ih hrest)
    | err e => exact IsTrans.trans _ _ _ hevent (ih hrest)
    | stop => exact hevent
    | panic => exact hevent

/-- What the second half of a cycle adds. -/
theorem adds_lendingCycleUnder (env : LendingEnv) (w : World) :
    AddsUnder D X (.lending config env) rules w w
      (lendingCycleUnder D X config rules env config.blendPoolIds w).2 := by
  have hsame := @readEvents_world env config.blendPoolIds w
  unfold lendingCycleUnder
  refine Proc.related_bind (by rw [hsame]; exact refl w) fun c hread => ?_
  obtain ⟨events, next⟩ := c
  rw [hsame]
  refine Proc.related_bind ?_ fun u _ => ?_
  · rw [processEvents_eq]
    exact adds_processAll fun s hs x hx => .escalation hread hs hx
  · cases next with
    | none => exact refl _
    | some c => exact Proc.within_await (fun _ => .of_same rfl rfl) _

end Lending

/-! ### One pass -/

variable (D X rules) in
/-- **What a pass adds with the rules in its hands** was decided under them. -/
theorem Pass.adds_under (pass : Pass) (w : World) :
    AddsUnder D X pass rules w w (pass.under D X rules w) := by
  cases pass with
  | horizon config env => exact adds_runOnceUnder env w
  | lending config env => exact adds_lendingCycleUnder env w
  | operator rules => exact .of_same rfl rfl

theorem loadRules_of_ne_stop {f : Fault} (h : f ≠ .stop) :
    loadRules f w = (.ret (if f = .fail then [] else listAlertRules w.db), w) := by
  cases f with
  | ok => rfl
  | fail => rfl
  | stop => exact absurd rfl h

/-- The first half of a cycle does what it does with the rules that it has loaded, or nothing where
the process ends at the read. -/
theorem runOnce_cases (env : RunEnv) (w : World) :
    (runOnce D config env w).2 = w ∨ runOnce D config env w =
      runOnceUnder D config (if env.rules = .fail then [] else listAlertRules w.db) env w := by
  unfold runOnce runOnceUnder
  rw [Proc.bind_apply, Proc.bind_apply, Proc.lift_apply]
  cases Horizon.liquidityPools env.pools config.horizonUrl 10 with
  | ret pools =>
    dsimp only
    rw [Proc.bind_apply, Proc.bind_apply, Proc.lift_apply]
    cases Horizon.assets env.assets config.horizonUrl 10 with
    | ret assets =>
      dsimp only
      rw [Proc.bind_apply]
      by_cases hstop : env.rules = .stop
      · rw [hstop]
        exact .inl rfl
      · rw [loadRules_of_ne_stop hstop]
        exact .inr rfl
    | err e => exact .inl rfl
    | stop => exact .inl rfl
    | panic => exact .inl rfl
  | err e => exact .inl rfl
  | stop => exact .inl rfl
  | panic => exact .inl rfl

theorem ingestLendingCycle_eq_bind (env : LendingEnv) (contractIds : List String) :
    ingestLendingCycle D X config env contractIds =
      loadRules env.rules >>= fun rules => lendingCycleUnder D X config rules env contractIds := by
  unfold ingestLendingCycle lendingCycleUnder readEvents
  simp only [bind_assoc]
  refine congrArg _ (funext fun rules => congrArg _ (funext fun cursor => ?_))
  cases cursor with
  | some c => rfl
  | none =>
    exact ((bind_assoc _ _ _).trans (congrArg _ (funext fun _ => bind_assoc _ _ _))).symm

variable (D X) in
/-- A pass does what it does with the rules that it has loaded, or nothing where the process ends
at the read. -/
theorem Pass.after_cases (pass : Pass) (w : World) :
    pass.after D X w = w ∨ pass.after D X w = pass.under D X (pass.loaded w) w := by
  cases pass with
  | horizon config env => exact (runOnce_cases env w).imp_right (congrArg Prod.snd)
  | lending config env =>
    rw [after, ingestLendingCycle_eq_bind, Proc.bind_apply]
    by_cases hstop : env.rules = .stop
    · rw [hstop]
      exact .inl rfl
    · rw [loadRules_of_ne_stop hstop]
      exact .inr rfl
  | operator rules => exact .inr rfl

/-! ### Rules that miss no override -/

section Congr

theorem foldlM_congr {α β : Type} {m : Type → Type} [Monad m] {f g : β → α → m β} {l : List α}
    (h : ∀ a ∈ l, ∀ b, f b a = g b a) (b : β) : l.foldlM f b = l.foldlM g b := by
  induction l generalizing b with
  | nil => rfl
  | cons a l ih =>
    obtain ⟨ha, hl⟩ := List.forall_mem_cons.1 h
    rw [List.foldlM_cons, List.foldlM_cons, ha b]
    exact bind_congr fun b' => ih hl b'

theorem commitBatch_congr {env : RunEnv} {pools : List LiquidityPool} {assets : List AssetRecord}
    (hpools : ∀ lp ∈ pools,
      resolveLiquidityDropThresholdPct rules' lp.id config.liquidityDropThresholdPct =
        resolveLiquidityDropThresholdPct rules lp.id config.liquidityDropThresholdPct)
    (hassets : ∀ a ∈ assets,
      resolveHolderDropThresholdPct rules' a.assetCode (some a.assetIssuer)
          config.holderDropThresholdPct =
        resolveHolderDropThresholdPct rules a.assetCode (some a.assetIssuer)
          config.holderDropThresholdPct) :
    commitBatch D config env rules' pools assets = commitBatch D config env rules pools assets := by
  unfold commitBatch
  rw [batchBody_eq, batchBody_eq, batchRecords, batchRecords]
  have hpool : poolRecords D config env rules' pools = poolRecords D config env rules pools := by
    refine List.map_congr_left fun c hc => ?_
    unfold ingestPool
    rw [hpools _ (List.fst_mem_of_mem_zipIdx hc)]
  have htoken : tokenRecords D config env rules' assets =
      tokenRecords D config env rules assets := by
    refine List.map_congr_left fun c hc => ?_
    unfold ingestToken
    rw [hassets _ (List.fst_mem_of_mem_zipIdx hc)]
  rw [hpool, htoken]

theorem ingestWhalePayment_congr {calls : WhaleEnv} {p : PaymentRecord} {threshold : F64}
    (h : p.amount.isSome →
      whaleThreshold D threshold rules' p = whaleThreshold D threshold rules p) :
    ingestWhalePayment D calls p threshold rules' =
      ingestWhalePayment D calls p threshold rules := by
  unfold ingestWhalePayment paymentWhaleAmount
  cases hp : p.amount with
  | none => rfl
  | some raw => rw [h (by rw [hp]; rfl)]

theorem ingestPayments_congr {env : PaymentsEnv}
    (h : ∀ cursor payments, getIngestCursor paymentsCursorKey w.db = some cursor →
      Horizon.paymentsSince env.server config.horizonUrl (some cursor) maxPagesPerCycle =
        .ret payments → ∀ p ∈ payments, p.amount.isSome →
          whaleThreshold D config.whaleThreshold rules' p =
            whaleThreshold D config.whaleThreshold rules p) :
    ingestPayments D config env rules' w = ingestPayments D config env rules w := by
  have hcommit : commitPayments D config env rules' w = commitPayments D config env rules w := by
    unfold commitPayments
    rw [Proc.bind_apply, Proc.bind_apply]
    cases hread : fetch env.getCursor (getIngestCursor paymentsCursorKey) w with
    | mk o w₁ =>
      obtain rfl : w₁ = w := by
        have hw := congrArg Prod.snd hread
        rwa [fetch_snd, eq_comm] at hw
      cases o with
      | ret cursor =>
        cases cursor with
        | none => rfl
        | some cursor =>
          have hc := (fetch_fst_eq_ret.1 (congrArg Prod.fst hread)).2
          dsimp only
          rw [Proc.bind_apply, Proc.bind_apply, Proc.lift_apply]
          cases hp : Horizon.paymentsSince env.server config.horizonUrl (some cursor)
            maxPagesPerCycle with
          | ret payments =>
            dsimp only
            have hbody : paymentsBody D config env rules' payments cursor =
                paymentsBody D config env rules payments cursor := by
              unfold paymentsBody ingestWhalePayments
              refine congrArg (· >>= _) (foldlM_congr (fun c hc' s => ?_) _)
              obtain ⟨p, i⟩ := c
              obtain ⟨pending, last⟩ := s
              have hp' := h cursor payments hc hp p (List.fst_mem_of_mem_zipIdx hc')
              exact congrArg (· >>= _) (ingestWhalePayment_congr hp')
            rw [hbody]
          | err e => rfl
          | stop => rfl
          | panic => rfl
      | err e => rfl
      | stop => rfl
      | panic => rfl
  unfold ingestPayments
  rw [Proc.bind_apply, Proc.bind_apply, hcommit]

section Lending

variable {prices : PriceMap} {bands bands' : LtvBands} {calls : EventEnv} {event : RpcEvent}

/-- The bands are read once a row is written. -/
theorem storeEvent_congr_of_none (h : storedRow D X prices calls event w = none) :
    storeEvent D X prices bands' calls event w = storeEvent D X prices bands calls event w := by
  cases hd : decodeEvent D X event with
  | ret d =>
    cases d with
    | none => simp [storeEvent, Proc.bind_apply, hd]
    | some e =>
      cases hl : calls.latest with
      | fail => simp [storeEvent, Proc.bind_apply, hd, fetch, hl]
      | stop => simp [storeEvent, Proc.bind_apply, hd, fetch, hl]
      | ok =>
        cases hr : rowAfter D prices calls.tie event.contractId e w.db with
        | none =>
          unfold rowAfter at hr
          simp [storeEvent, Proc.bind_apply, hd, fetch, hl, hr]
        | some row =>
          have hinsert : calls.insert ≠ .ok := fun hi => by
            rw [storedRow_of_row hd ⟨hl, hi⟩ hr] at h
            exact Option.some_ne_none _ h
          unfold rowAfter at hr
          cases hi : calls.insert with
          | ok => exact absurd hi hinsert
          | fail => simp [storeEvent, Proc.bind_apply, hd, fetch, hl, hr, exec, hi]
          | stop => simp [storeEvent, Proc.bind_apply, hd, fetch, hl, hr, exec, hi]
  | err e => simp [storeEvent, Proc.bind_apply, hd]
  | stop => simp [storeEvent, Proc.bind_apply, hd]
  | panic => simp [storeEvent, Proc.bind_apply, hd]

theorem lendingAlert_of_no_ltv {latest : Option LendingPositionRow} {row : LendingPositionRow}
    (h : row.ltv = none) : lendingAlert bands latest row = some none := by
  simp [lendingAlert, escalation, h]

/-- The bands do not matter to a row without an LTV. -/
theorem processEvent_congr
    (h : ∀ s, storedRow D X prices calls event w = some s → s.row.ltv = none) :
    processEvent D X config prices bands' calls event w =
      processEvent D X config prices bands calls event w := by
  have hstore : storeEvent D X prices bands' calls event w =
      storeEvent D X prices bands calls event w := by
    cases hs : storedRow D X prices calls event w with
    | none => exact storeEvent_congr_of_none hs
    | some s =>
      obtain ⟨e, hd, hg, -, hr, -⟩ := storedRow_eq_some hs
      rw [storeEvent_ok hd hg.1 hg.2 hr, storeEvent_ok hd hg.1 hg.2 hr, alertAfter, alertAfter,
        lendingAlert_of_no_ltv (h s hs), lendingAlert_of_no_ltv (h s hs)]
  unfold processEvent
  rw [Proc.bind_apply, Proc.bind_apply, hstore]

theorem processAll_congr {env : ℕ → EventEnv} {l : List (RpcEvent × ℕ)}
    (h : ∀ s ∈ storedRows D X config prices bands env l w, s.row.ltv = none) :
    processAll D X config prices bands' env l w = processAll D X config prices bands env l w := by
  induction l generalizing w with
  | nil => simp only [processAll, List.foldlM_nil]
  | cons q l ih =>
    obtain ⟨event, i⟩ := q
    rw [storedRows, List.forall_mem_append] at h
    have hevent : processEvent D X config prices bands' (env i) event w =
        processEvent D X config prices bands (env i) event w :=
      processEvent_congr fun s hs => h.1 s (by simp [hs])
    have hrest := h.2
    rw [processAll_cons, processAll_cons, hevent]
    generalize processEvent D X config prices bands (env i) event w = r at hrest
    obtain ⟨o, w₁⟩ := r
    cases o with
    | ret b => exact ih hrest
    | err e => exact ih hrest
    | stop => rfl
    | panic => rfl

theorem bands_of_thresholds {row : LendingPositionRow} (hrow : row.ltv.isSome)
    (h : (Ingested.position row).thresholds D config rules' =
      (Ingested.position row).thresholds D config rules) :
    resolveLtvBands rules' = resolveLtvBands rules := by
  simp only [Ingested.thresholds, hrow, if_true, List.cons.injEq, and_true] at h
  obtain ⟨hmedium, hhigh, hcritical⟩ := h
  generalize resolveLtvBands rules' = bands' at hmedium hhigh hcritical ⊢
  cases bands'
  exact LtvBands.mk.injEq .. ▸ ⟨hmedium, hhigh, hcritical⟩

end Lending

theorem runOnceUnder_congr {env : RunEnv}
    (hbatch : ∀ pools assets,
      Horizon.liquidityPools env.pools config.horizonUrl 10 = .ret pools →
      Horizon.assets env.assets config.horizonUrl 10 = .ret assets →
      commitBatch D config env rules' pools assets = commitBatch D config env rules pools assets)
    (hpayments : ∀ w₁ : World, getIngestCursor paymentsCursorKey w₁.db =
        getIngestCursor paymentsCursorKey w.db →
      ingestPayments D config env.payments rules' w₁ =
        ingestPayments D config env.payments rules w₁) :
    runOnceUnder D config rules' env w = runOnceUnder D config rules env w := by
  unfold runOnceUnder
  rw [Proc.bind_apply, Proc.bind_apply, Proc.lift_apply]
  cases hpools : Horizon.liquidityPools env.pools config.horizonUrl 10 with
  | ret pools =>
    dsimp only
    rw [Proc.bind_apply, Proc.bind_apply, Proc.lift_apply]
    cases hassets : Horizon.assets env.assets config.horizonUrl 10 with
    | ret assets =>
      dsimp only
      rw [Proc.bind_apply, Proc.bind_apply, hbatch pools assets hpools hassets]
      rcases hcommit : commitBatch D config env rules pools assets w with ⟨o, w₁⟩
      cases o with
      | ret pending =>
        dsimp only
        rw [Proc.bind_apply, Proc.bind_apply]
        have hcursor := @cursor_recordAll D config env rules pools assets pending w
        rw [hcommit] at hcursor
        generalize recordAll env.record config.webhook pending w₁ = r at hcursor
        obtain ⟨o, w₂⟩ := r
        cases o with
        | ret u => exact hpayments w₂ hcursor
        | err e => rfl
        | stop => rfl
        | panic => rfl
      | err e => rfl
      | stop => rfl
      | panic => rfl
    | err e => rfl
    | stop => rfl
    | panic => rfl
  | err e => rfl
  | stop => rfl
  | panic => rfl

theorem lendingCycleUnder_congr {env : LendingEnv} {contractIds : List String}
    (h : ∀ events next, (readEvents env contractIds w).1 = .ret (events, next) →
      ∀ s ∈ storedRows D X config (config.blendAssetPricesUsd D) (resolveLtvBands rules) env.event
        events.zipIdx w, s.row.ltv.isSome → resolveLtvBands rules' = resolveLtvBands rules) :
    lendingCycleUnder D X config rules' env contractIds w =
      lendingCycleUnder D X config rules env contractIds w := by
  have hsame := @readEvents_world env contractIds w
  unfold lendingCycleUnder
  rw [Proc.bind_apply, Proc.bind_apply]
  rcases hread : readEvents env contractIds w with ⟨o, w₁⟩
  rw [hread] at hsame
  obtain rfl : w₁ = w := hsame
  cases o with
  | ret c =>
    obtain ⟨events, next⟩ := c
    have hrows := h events next (congrArg Prod.fst hread)
    have hloop : processEvents D X config (config.blendAssetPricesUsd D) (resolveLtvBands rules')
        env.event events w₁ = processEvents D X config (config.blendAssetPricesUsd D)
          (resolveLtvBands rules) env.event events w₁ := by
      by_cases hsome : ∃ s ∈ storedRows D X config (config.blendAssetPricesUsd D)
          (resolveLtvBands rules) env.event events.zipIdx w₁, s.row.ltv.isSome
      · obtain ⟨s, hs, hltv⟩ := hsome
        rw [hrows s hs hltv]
      · refine processAll_congr fun s hs => Option.not_isSome_iff_eq_none.1 fun hltv => ?_
        exact hsome ⟨s, hs, hltv⟩
    dsimp only
    rw [Proc.bind_apply, Proc.bind_apply, hloop]
  | err e => rfl
  | stop => rfl
  | panic => rfl

/-- **Rules that give every record that a pass judges the same thresholds** make it do the
same. -/
theorem Pass.under_congr (h : ∀ record, pass.Judges D X w record →
      record.thresholds D pass.config rules = record.thresholds D pass.config (pass.loaded w)) :
    pass.under D X rules w = pass.under D X (pass.loaded w) w := by
  cases pass with
  | horizon config env =>
    refine congrArg Prod.snd (runOnceUnder_congr (fun pools assets hpools hassets => ?_)
      fun w₁ hcursor => ?_)
    · exact commitBatch_congr
        (fun lp hlp => (List.cons.inj (h _ (.pool hpools hassets hlp))).1)
        fun a ha => (List.cons.inj (h _ (.token hpools hassets ha))).1
    · refine ingestPayments_congr fun cursor payments hc hp p hmem hamount => ?_
      have hsame := h _ (.payment (hcursor.symm.trans hc) hp hmem)
      simpa [Ingested.thresholds, hamount, Pass.config] using hsame
  | lending config env =>
    refine congrArg Prod.snd (lendingCycleUnder_congr fun events next hread s hs hltv => ?_)
    exact bands_of_thresholds hltv (h _ (.position hread hs))
  | operator rules' => rfl

end Congr

/-- A pass that reads the rules decides under them. -/
theorem ReadsRules.decides (h : ReadsRules D X w pass) : Decides D X w pass := by
  have hunder : pass.under D X (pass.loaded w) w = pass.under D X (listAlertRules w.db) w := by
    by_cases hfail : pass.reading = .fail
    · refine (Pass.under_congr fun record hrecord => ?_).symm
      rw [Pass.loaded, if_pos hfail]
      exact h.elim (absurd hfail) fun hsame => hsame record hrecord
    · rw [Pass.loaded, if_neg hfail]
  rcases Pass.after_cases D X pass w with hw | hw
  · exact ⟨by rw [hw]; exact refl w, .inl hw⟩
  · rw [hunder] at hw
    exact ⟨by rw [hw]; exact pass.adds_under D X _ w, .inr hw⟩

/-- **Decisions are made under the rules.**  In every run in which no read of the rules fails, or
those that fail miss no override, all that a pass does, what it records and what it leaves out, is
decided under the rules that the table holds in it. -/
theorem rules_decide {passes : List Pass}
    (h : Trace.Each (fun w pass => pass.after D X w) (ReadsRules D X) w passes) :
    Trace.Each (fun w pass => pass.after D X w) (Decides D X) w passes :=
  h.mono fun _ _ hread => hread.decides

variable (D X config) in
/-- A cycle of the main loop is one pass or two. -/
theorem ingestCycle_eq_run (env : CycleEnv) (w : World) :
    ∃ passes : List Pass, passes <+: [.horizon config env.run, .lending config env.lending] ∧
      (ingestCycle D X config env w).2 = Trace.run (fun w pass => pass.after D X w) w passes := by
  rcases ingestCycle_world D X config env w with ⟨-, hw⟩ | ⟨-, hw⟩
  · exact ⟨[.horizon config env.run], ⟨[_], rfl⟩, hw⟩
  · exact ⟨_, List.prefix_refl _, hw⟩

/-- A row that was decided under some rules meets their threshold. -/
theorem WhaleUnder.threshold_le {row : WhaleTransactionRow}
    (h : WhaleUnder D X pass rules w₀ row) :
    resolveWhaleThreshold rules row.assetCode row.assetIssuer
      ((D.tryFromF64 pass.config.whaleThreshold).getD 0) ≤ row.amount := by
  obtain ⟨p, time, amount, -, hq, rfl⟩ := h
  exact le_of_paymentWhaleAmount hq

end Lumina

/-! ### A rule that was not read -/

namespace Lumina.Sample

/-- A rule that only the largest payments of XLM meet. -/
def xlmRule : AlertRuleRow := ⟨1, "xlm whales", "whale_threshold", some "XLM", none, 100000, true⟩

/-- The operator adds the rule, and then a cycle reads the payments. -/
def ruledPasses (rules : Fault) : List Pass :=
  [.operator [xlmRule], .horizon Config.default { (paid .ok).run with rules := rules }]

/-- **A failed read decides a payment under the default**, which the rule overrides. -/
theorem unread_rule : ¬ ∀ (D : RustDecimal) (X : Codec) (w : World) (passes : List Pass),
    Trace.Each (fun w pass => pass.after D X w) (Decides D X) w passes := by
  intro hall
  obtain ⟨-, hcycle, -⟩ := hall amounts codec seeded (ruledPasses .fail)
  obtain ⟨rows, hrows, hdecided⟩ := hcycle.adds.whales
  have hrow : rows = [paidRow] := by
    refine List.append_cancel_left (hrows.symm.trans ?_)
    decide +kernel
  have hle := (hdecided paidRow (by simp [hrow])).threshold_le
  exact absurd hle (by decide +kernel)

/-- A run that reads the rule leaves the payment out; then the operator takes the rule back, and a
cycle that cannot read the rules misses no override. -/
theorem read_rule : Trace.Each (fun w pass => pass.after amounts codec w) (Decides amounts codec)
    seeded (ruledPasses .ok ++ [.operator [],
      .horizon Config.default { (paid .ok).run with rules := .fail }]) := by
  refine rules_decide ⟨.inl ?_, .inl ?_, .inl ?_, .inr fun record _ => rfl, trivial⟩
  · decide
  · decide
  · decide

end Lumina.Sample
