import Lumina.Lending.Cycle
import Lumina.Snapshots.Isolated

/-!
# Alert-worthy events and their alerts

The alerts of a cycle are kept in memory and recorded after the data was committed, and a later
cycle compares with the committed data, so nothing raises an alert again that was not recorded.
Every committed event has an alert of its own at the end of its cycle, and for ever, provided that
the alerts of the cycle are inserted: no `insert_alert` fails, and the process does not end between
a commit and the last insertion after it (`CycleRun.events_recorded`).

## Main definitions

* `Event` : the alert-worthy events, of four kinds.
* `Due` : the events that a part of a cycle commits, each as often as it commits it.
* `HasAlerts` : each event of a list has an alert of its own among the new ones.
* `Unhindered` : every alert of a cycle is inserted.
* `CycleRun` : runs of cycles.
-/

namespace Lumina

open Tx

variable {D : RustDecimal} {X : Codec} {config : Config} {w w' w₁ w₂ w₃ : World}

/-! ### Alerts only grow -/

/-- No alert goes away. -/
def KeepsAlerts (w w' : World) : Prop := w.db.alerts <+: w'.db.alerts

instance : IsPreorder World KeepsAlerts where
  refl _ := List.prefix_refl _
  trans _ _ _ h h' := List.IsPrefix.trans h h'

theorem AlertsGrow.keepsAlerts (h : AlertsGrow w w') : KeepsAlerts w w' := by
  obtain ⟨new, seq, h⟩ := h
  exact ⟨new, by rw [h]⟩

theorem SameAlerts.keepsAlerts (h : SameAlerts w w') : KeepsAlerts w w' :=
  ⟨[], by rw [h, List.append_nil]⟩

theorem within_commitBatch (env : RunEnv) (rules : List AlertRuleRow)
    (pools : List LiquidityPool) (assets : List AssetRecord) :
    Proc.Within SameAlerts (commitBatch D config env rules pools assets) := by
  refine within_transaction ?_
  rw [batchBody_eq]
  exact within_collectAll (sameAlerts_batchRecords _ _ _ _ _ _) []

theorem commitPayments_keeps (env : PaymentsEnv) (rules : List AlertRuleRow) (w : World) :
    KeepsAlerts w (commitPayments D config env rules w).2 := by
  rcases commitPayments_cases D config env rules w with
    ⟨hw, -⟩ | ⟨_, _, -, -, heq⟩ | ⟨_, _, _, _, _, -, -, -, -, heq⟩
  · rw [hw]
    exact refl w
  · rw [heq]
    exact List.prefix_refl _
  · rw [heq]
    exact List.prefix_refl _

theorem within_ingestPayments (env : PaymentsEnv) (rules : List AlertRuleRow) :
    Proc.Within KeepsAlerts (ingestPayments D config env rules) := fun w =>
  IsTrans.trans _ _ _ (commitPayments_keeps env rules w)
    (ingestPayments_grow D config env rules w).keepsAlerts

theorem processEvent_keeps (prices : PriceMap) (bands : LtvBands) (env : EventEnv)
    (event : RpcEvent) (w : World) :
    KeepsAlerts w (processEvent D X config prices bands env event w).2 := by
  rcases processEvent_cases D X config prices bands env event w with
    ⟨e, row, alert, -, -, -, hdb⟩ | ⟨hw, -⟩
  · rw [KeepsAlerts, hdb]
    cases alert with
    | none => exact List.prefix_refl _
    | some a =>
      simp only [recordedDb]
      split_ifs
      · exact List.prefix_append _ _
      · exact List.prefix_refl _
  · rw [hw]
    exact refl w

theorem processAll_keeps (prices : PriceMap) (bands : LtvBands) (env : ℕ → EventEnv)
    (l : List (RpcEvent × ℕ)) (w : World) :
    KeepsAlerts w (processAll D X config prices bands env l w).2 := by
  refine Proc.within_foldlM (fun _ c => ?_) l () w
  obtain ⟨event, i⟩ := c
  have hevent : Proc.Within KeepsAlerts (processEvent D X config prices bands (env i) event) :=
    processEvent_keeps prices bands (env i) event
  exact hevent.attempt.bind fun _ => Proc.within_pure ()

/-- The end of a lending cycle, after its batch was read. -/
theorem finishCycle_keeps (prices : PriceMap) (bands : LtvBands) (env : LendingEnv)
    (events : List RpcEvent) (next : Option String) (w : World) :
    KeepsAlerts (processEvents D X config prices bands env.event events w).2
      ((do
        processEvents D X config prices bands env.event events
        match next with
        | none => pure ()
        | some c => exec env.setCursor (setIngestCursor eventsCursorKey c)) w).2 := by
  refine Proc.related_bind (refl _) fun u _ => ?_
  cases next with
  | none => exact refl _
  | some c => exact within_exec (fun w => List.prefix_refl _) _

/-- A lending cycle that reads a batch keeps the alerts that its loop leaves. -/
theorem ingestLendingCycle_keeps {env : LendingEnv} {contractIds : List String}
    {bands : LtvBands} {events : List RpcEvent} {next : Option String}
    (hb : (readBatch env contractIds w).1 = .ret (bands, events, next)) :
    KeepsAlerts
      (processAll D X config (config.blendAssetPricesUsd D) bands env.event events.zipIdx w).2
      (ingestLendingCycle D X config env contractIds w).2 := by
  have hread : readBatch env contractIds w = (.ret (bands, events, next), w) :=
    Prod.ext hb (readBatch_world env contractIds w)
  rw [ingestLendingCycle_eq, hread]
  exact finishCycle_keeps _ _ _ _ _ w

theorem within_ingestLendingCycle (env : LendingEnv) (contractIds : List String) :
    Proc.Within KeepsAlerts (ingestLendingCycle D X config env contractIds) := by
  intro w
  by_cases hb : ∃ r, (readBatch env contractIds w).1 = .ret r
  · obtain ⟨⟨bands, events, next⟩, hb⟩ := hb
    exact IsTrans.trans _ _ _ (processAll_keeps _ _ _ _ w) (ingestLendingCycle_keeps hb)
  · rw [ingestLendingCycle_of_no_batch fun r hr => hb ⟨r, hr⟩]
    exact refl w

theorem within_loadRules (f : Fault) : Proc.Within KeepsAlerts (loadRules f) := by
  refine within_fetch.attempt.bind ?_
  intro r
  cases r <;> exact Proc.within_pure _

theorem within_runOnce (env : RunEnv) : Proc.Within KeepsAlerts (runOnce D config env) := by
  refine (Proc.within_lift _).bind ?_
  intro pools
  refine (Proc.within_lift _).bind ?_
  intro assets
  refine (within_loadRules _).bind ?_
  intro rules
  have hcommit : Proc.Within KeepsAlerts (commitBatch D config env rules pools assets) :=
    fun w => (within_commitBatch env rules pools assets w).keepsAlerts
  have hrecord : ∀ pending, Proc.Within KeepsAlerts (recordAll env.record config.webhook pending) :=
    fun pending w => (within_recordAll env.record config.webhook pending w).keepsAlerts
  exact hcommit.bind fun pending => (hrecord pending).bind fun _ => within_ingestPayments _ _

/-- A cycle goes on to the lending pools, unless the process ended before or there are none. -/
theorem ingestCycle_world (D : RustDecimal) (X : Codec) (config : Config) (env : CycleEnv)
    (w : World) :
    ((runOnce D config env.run).CutOff w ∨ config.blendPoolIds = []) ∧
        (ingestCycle D X config env w).2 = (runOnce D config env.run w).2 ∨
      (¬ (runOnce D config env.run).CutOff w ∧ config.blendPoolIds ≠ []) ∧
        (ingestCycle D X config env w).2 = (ingestLendingCycle D X config env.lending
          config.blendPoolIds (runOnce D config env.run w).2).2 := by
  unfold ingestCycle Proc.CutOff
  rw [Proc.bind_apply, Proc.attempt_apply]
  generalize runOnce D config env.run w = r
  obtain ⟨o, w₁⟩ := r
  by_cases hids : config.blendPoolIds = []
  · refine .inl ⟨.inr hids, ?_⟩
    cases o <;> simp [hids]
  · have hlending := Proc.attempt_bind_pure_snd
      (ingestLendingCycle D X config env.lending config.blendPoolIds) () w₁
    cases o with
    | ret u => exact .inr ⟨⟨by simp, hids⟩, by simpa [hids] using hlending⟩
    | err e => exact .inr ⟨⟨by simp, hids⟩, by simpa [hids] using hlending⟩
    | stop => exact .inl ⟨.inl (.inl rfl), rfl⟩
    | panic => exact .inl ⟨.inl (.inr rfl), rfl⟩

/-- The second half of a cycle keeps the alerts that the first half leaves. -/
theorem ingestCycle_keeps (env : CycleEnv) (w : World) :
    KeepsAlerts (runOnce D config env.run w).2 (ingestCycle D X config env w).2 := by
  rcases ingestCycle_world D X config env w with ⟨-, heq⟩ | ⟨-, heq⟩
  · rw [heq]
    exact refl (runOnce D config env.run w).2
  · rw [heq]
    exact within_ingestLendingCycle _ _ _

/-! ### Alert-worthy events -/

/-- An alert-worthy event. -/
inductive Event where
  /-- The total shares of a pool fell by `drop` percent. -/
  | liquidityDrop (poolId assetA assetB : String) (before now drop : Decimal)
  /-- The number of holders of a token fell by `drop` percent. -/
  | holderDrop (assetCode assetIssuer : String) (before now : ℤ) (drop : Decimal)
  | whale (row : WhaleTransactionRow)
  /-- A lending position crossed into a higher band. -/
  | escalation (row : LendingPositionRow) (ltv : Decimal) (level : RiskLevel)

namespace Event

/-- The kind of the event's alert. -/
def kind : Event → String
  | liquidityDrop .. => "liquidity_drop"
  | holderDrop .. => "holder_drop"
  | whale _ => "whale_payment"
  | escalation .. => "liquidation_risk"

/-- The details that tell the event's alert. -/
def details : Event → Json
  | liquidityDrop poolId assetA assetB before now drop =>
    [("pool_id", some [.str poolId]), ("asset_a", some [.str assetA]),
      ("asset_b", some [.str assetB]), ("shares_before", some [.dec before]),
      ("shares_now", some [.dec now]), ("drop_pct", some [.dec drop])]
  | holderDrop assetCode assetIssuer before now drop =>
    [("asset_code", some [.str assetCode]), ("asset_issuer", some [.str assetIssuer]),
      ("holders_before", some [.int before]), ("holders_now", some [.int now]),
      ("drop_pct", some [.dec drop])]
  | whale row =>
    [("tx_hash", some [.str row.txHash]), ("asset_code", some [.str row.assetCode]),
      ("asset_issuer", row.assetIssuer.map fun s => [.str s]),
      ("amount", some [.dec row.amount]), ("source_account", some [.str row.sourceAccount]),
      ("dest_account", row.destAccount.map fun s => [.str s])]
  | escalation row ltv level =>
    [("account", some [.str row.account]), ("pool_contract", some [.str row.poolContract]),
      ("ltv", some [.dec ltv]), ("health_factor", row.healthFactor.map fun h => [.dec h]),
      ("risk_level", some [.str level.asStr])]

end Event

/-- What tells an event: the kind and the details of its alert. -/
def Event.telling (x : Event) : String × Json := (x.kind, x.details)

def AlertRow.telling (a : AlertRow) : String × Json := (a.kind, a.details)

def PendingAlert.telling (a : PendingAlert) : String × Json := (a.kind, a.details)

/-- Among the alerts that were inserted from `w` to `w'`, each event of the list has one of its
own: an event that comes twice has two. -/
def HasAlerts (xs : List Event) (w w' : World) : Prop :=
  ∃ new, w'.db.alerts = w.db.alerts ++ new ∧
    (xs.map Event.telling).Sublist (new.map AlertRow.telling)

section HasAlerts

variable {xs ys : List Event}

theorem KeepsAlerts.hasAlerts_nil (h : KeepsAlerts w w') : HasAlerts [] w w' := by
  obtain ⟨new, hnew⟩ := h
  exact ⟨new, hnew.symm, List.nil_sublist _⟩

theorem HasAlerts.append (h : HasAlerts xs w w') (h' : HasAlerts ys w' w₁) :
    HasAlerts (xs ++ ys) w w₁ := by
  obtain ⟨new, hnew, hsub⟩ := h
  obtain ⟨new', hnew', hsub'⟩ := h'
  refine ⟨new ++ new', by rw [hnew', hnew, List.append_assoc], ?_⟩
  rw [List.map_append, List.map_append]
  exact hsub.append hsub'

/-- Alerts that come later do no harm. -/
theorem HasAlerts.trans (h : HasAlerts xs w w') (hk : KeepsAlerts w' w₁) : HasAlerts xs w w₁ := by
  rw [← List.append_nil xs]
  exact h.append hk.hasAlerts_nil

/-- Neither do alerts that come before. -/
theorem KeepsAlerts.hasAlerts (hk : KeepsAlerts w w') (h : HasAlerts xs w' w₁) :
    HasAlerts xs w w₁ :=
  hk.hasAlerts_nil.append h

/-- A loop that inserts all its alerts leaves each event its own. -/
theorem hasAlerts_of_allRecorded {record : ℕ → RecordEnv} {webhook : WebhookConfig}
    {pending : List PendingAlert}
    (hpending : pending.map PendingAlert.telling = xs.map Event.telling)
    (h : AllRecorded record webhook pending.zipIdx w) :
    HasAlerts xs w (recordAll record webhook pending w).2 := by
  obtain ⟨new, hnew, -, hall⟩ := recordAll_alerts record webhook pending w
  have htelling : new.map AlertRow.telling = pending.map PendingAlert.telling := by
    have hcontent := congrArg (List.map fun c : Content => (c.1, c.2.2.2)) (hall.2 h)
    rwa [List.map_map, List.map_map] at hcontent
  exact ⟨new, hnew, by rw [htelling, hpending]⟩

end HasAlerts

/-! ### The events of a cycle -/

section Due

variable (D X config)

section Drops

variable (env : RunEnv) (rules : List AlertRuleRow)

/-- The drop that the pool number `i` shows, stored into the world `w`. -/
def poolEvent (lp : LiquidityPool) (i : ℕ) (w : World) : Option Event :=
  match poolSnapshot D env.now lp with
  | .ret (assetA, assetB, row) =>
    if (env.pool i).fault = .ok then do
      let before ← latestPoolTotalShares (env.pool i).tie lp.id w.db
      let drop ← (dropGate D before row.totalShares (resolveLiquidityDropThresholdPct rules lp.id
        config.liquidityDropThresholdPct)).join
      return .liquidityDrop lp.id assetA.asset assetB.asset before row.totalShares drop
    else none
  | _ => none

/-- The drop that the token number `i` shows, stored into the world `w`. -/
def tokenEvent (a : AssetRecord) (i : ℕ) (w : World) : Option Event :=
  if (env.token i).fault = .ok then do
    let before ← latestTokenNumAccounts (env.token i).tie a.assetCode a.assetIssuer w.db
    let drop ← (dropGate D before a.accountsAuthorized (resolveHolderDropThresholdPct rules
      a.assetCode (some a.assetIssuer) config.holderDropThresholdPct)).join
    return .holderDrop a.assetCode a.assetIssuer before a.accountsAuthorized drop
  else none

/-- A record of a batch, with the event that it shows in the world that it finds. -/
abbrev WatchedRecord := Proc (Tx World) Error (Option PendingAlert) × (World → Option Event)

/-- The records of the batch with their events; the prices show none. -/
def watchedRecords (pools : List LiquidityPool) (assets : List AssetRecord) :
    List WatchedRecord :=
  (pools.zipIdx.map fun c =>
      (ingestPool D (env.pool c.2) env.now c.1 config.liquidityDropThresholdPct rules,
        poolEvent D config env rules c.1 c.2)) ++
    (priceRecords D config env pools).map (fun m => (m, fun _ => none)) ++
    assets.zipIdx.map fun c =>
      (ingestToken D (env.token c.2) env.now c.1 config.holderDropThresholdPct rules,
        tokenEvent D config env rules c.1 c.2)

/-- The events of some records, one after the other. -/
def eventsAlong : List WatchedRecord → World → List Event
  | [], _ => []
  | (m, event) :: l, w => (event w).toList ++ eventsAlong l (isolated (w, []) m).1

end Drops

/-- A cycle from `w` commits its snapshots, with no failed statement. -/
structure SnapshotBatch (env : RunEnv) (w : World) (rules : List AlertRuleRow)
    (pools : List LiquidityPool) (assets : List AssetRecord) (pending : List PendingAlert)
    (w₁ : World) : Prop extends Committed D config env w rules pools assets pending w₁ where
  sound : ∀ m ∈ batchRecords D config env rules pools assets, ¬ Breaks m

/-- A cycle from `w` reaches its payments in the world `w₂` and commits them. -/
structure PaymentBatch (env : RunEnv) (w : World) (rules : List AlertRuleRow) (w₂ : World)
    (pending : List PendingAlert) (w₃ : World) : Prop where
  reached : ∃ pools assets pending₁ w₁, Committed D config env w rules pools assets pending₁ w₁ ∧
    recordAll env.record config.webhook pending₁ w₁ = (.ret (), w₂)
  commit : commitPayments D config env.payments rules w₂ = (.ret pending, w₃)

/-- A cycle from `w` reads a batch of lending events. -/
structure LendingBatch (env : CycleEnv) (w : World) (bands : LtvBands) (events : List RpcEvent) :
    Prop where
  reached : ¬ (runOnce D config env.run).CutOff w
  enabled : config.blendPoolIds ≠ []
  read : ∃ next, (readBatch env.lending config.blendPoolIds (runOnce D config env.run w).2).1 =
    .ret (bands, events, next)

/-- The event of a row that crossed into a higher band. -/
def StoredRow.event (bands : LtvBands) (s : StoredRow) : Option Event :=
  (escalation bands s.latest s.row).map fun c => .escalation s.row c.1 c.2

/-- The alert-worthy events that a part of a cycle from `w` commits, each as often as it commits
it: the pool and token snapshots that show a drop from the one before, the whale rows, and the
lending rows that escalate.  The events of different parts are of different kinds. -/
inductive Due (env : CycleEnv) (w : World) : List Event → Prop
  | drops {rules : List AlertRuleRow} {pools : List LiquidityPool} {assets : List AssetRecord}
      {pending : List PendingAlert} {w₁ : World} :
      SnapshotBatch D config env.run w rules pools assets pending w₁ →
      Due env w (eventsAlong (watchedRecords D config env.run rules pools assets) w)
  | whales {rules : List AlertRuleRow} {pending : List PendingAlert} {w₂ w₃ : World} :
      PaymentBatch D config env.run w rules w₂ pending w₃ →
      Due env w
        ((w₃.db.whaleTransactions.drop w₂.db.whaleTransactions.length).map Event.whale)
  | escalations {bands : LtvBands} {events : List RpcEvent} :
      LendingBatch D config env w bands events →
      Due env w ((storedRows D X config (config.blendAssetPricesUsd D) bands env.lending.event
        events.zipIdx (runOnce D config env.run w).2).filterMap (StoredRow.event bands))

/-- Every alert of a cycle from `w` is inserted: after a commit, no insertion of an alert of it
fails, and the process does not end before the last one; the insertion of the alert of an
escalation does not fail either, and its addresses can be abbreviated. -/
structure Unhindered (env : CycleEnv) (w : World) : Prop where
  drops : ∀ {rules pools assets pending w₁},
    SnapshotBatch D config env.run w rules pools assets pending w₁ →
      AllRecorded env.run.record config.webhook pending.zipIdx w₁
  whales : ∀ {rules w₂ pending w₃}, PaymentBatch D config env.run w rules w₂ pending w₃ →
    AllRecorded env.run.payments.record config.webhook pending.zipIdx w₃
  escalations : ∀ {bands events}, LendingBatch D config env w bands events →
    ∀ s ∈ storedRows D X config (config.blendAssetPricesUsd D) bands env.lending.event
      events.zipIdx (runOnce D config env.run w).2, s.event bands ≠ none →
      s.calls.record.insertAlert = .ok ∧ short s.row.account ≠ none ∧
        short s.row.poolContract ≠ none

end Due

/-! ### The alerts of the snapshots -/

/-- Where the record is not cut off, it finds the alert of its event. -/
def Finds (c : WatchedRecord) : Prop :=
  ∀ w, ¬ c.1.CutOff ⟨w, false⟩ →
    (isolated (w, []) c.1).2.map PendingAlert.telling = (c.2 w).toList.map Event.telling

section SnapshotOf

variable {β γ : Type} {calls : SnapshotEnv} {parsed : Outcome Error γ} {latest : Db → β}
  {upsert insert : γ → Db → Db} {alert : γ → β → Option (Option PendingAlert)}
  {event : World → Option Event}

theorem finds_snapshotOf (hparsed : (∀ row, parsed ≠ .ret row) → ∀ w, event w = none)
    (hfault : calls.fault ≠ .ok → ∀ w, event w = none)
    (halert : ∀ row found w, parsed = .ret row → calls.fault = .ok →
      alert row (latest w.db) = some found →
        found.toList.map PendingAlert.telling = (event w).toList.map Event.telling) :
    Finds (snapshotOf calls parsed latest upsert insert alert, event) := by
  intro w hcut
  dsimp only at hcut ⊢
  rcases snapshotOf_cases calls parsed latest upsert insert alert w with
    ⟨hp, -, hne⟩ | ⟨row, hp, ⟨hf, h⟩ | ⟨hf, w', h⟩ | ⟨hf, w', h⟩⟩
  · -- it does not parse
    have hthrough : ¬ Through (snapshotOf calls parsed latest upsert insert alert) w :=
      fun ⟨a, ha⟩ => hne a ha
    rw [isolated_of_not_through hthrough, hparsed hp]
    rfl
  · cases ha : alert row (latest w.db) with
    | none =>
      rw [ha] at h
      exact absurd (.inr (by rw [h]; rfl)) hcut
    | some found =>
      rw [ha] at h
      rw [isolated_of_ret h, List.nil_append]
      exact halert row found w hp hf ha
  · rw [isolated, h, hfault (by simp [hf])]
    rfl
  · exact absurd (.inl (by rw [h])) hcut

end SnapshotOf

section Step

variable {env : RunEnv} {rules : List AlertRuleRow} {pools : List LiquidityPool}
  {assets : List AssetRecord} {pending : List PendingAlert}

theorem finds_pool (lp : LiquidityPool) (i : ℕ) :
    Finds (ingestPool D (env.pool i) env.now lp config.liquidityDropThresholdPct rules,
      poolEvent D config env rules lp i) := by
  rw [ingestPool_eq]
  refine finds_snapshotOf (fun hp w => ?_) (fun hf w => ?_) fun row found w hp hf ha => ?_
  · unfold poolEvent
    split
    · rename_i heq
      exact absurd heq (hp _)
    · rfl
  · unfold poolEvent
    split
    · exact if_neg hf
    · rfl
  · obtain ⟨assetA, assetB, row⟩ := row
    unfold poolEvent
    rw [hp]
    dsimp only at ha ⊢
    rw [if_pos hf]
    cases hl : latestPoolTotalShares (env.pool i).tie lp.id w.db with
    | none =>
      rw [hl] at ha
      rw [← Option.some.inj ha]
      rfl
    | some before =>
      rw [hl] at ha
      rcases poolAlert_cases ha with ⟨hgate, rfl⟩ | ⟨drop, a, hgate, rfl, hkind, hdetails⟩
      · simp [hgate]
      · simp [hgate, PendingAlert.telling, hkind, hdetails, Event.telling, Event.kind,
          Event.details]

theorem finds_token (a : AssetRecord) (i : ℕ) :
    Finds (ingestToken D (env.token i) env.now a config.holderDropThresholdPct rules,
      tokenEvent D config env rules a i) := by
  rw [ingestToken_eq]
  refine finds_snapshotOf (fun hp w => absurd rfl (hp _)) (fun hf w => if_neg hf)
    fun row found w _ hf ha => ?_
  unfold tokenEvent
  rw [if_pos hf]
  cases hl : latestTokenNumAccounts (env.token i).tie a.assetCode a.assetIssuer w.db with
  | none =>
    rw [hl] at ha
    rw [← Option.some.inj ha]
    rfl
  | some before =>
    rw [hl] at ha
    rcases tokenAlert_cases ha with ⟨hgate, rfl⟩ | ⟨drop, b, hgate, rfl, hkind, hdetails⟩
    · simp [hgate]
    · simp [hgate, PendingAlert.telling, hkind, hdetails, Event.telling, Event.kind,
        Event.details]

/-- The prices raise no alert. -/
theorem finds_prices {m : Proc (Tx World) Error (Option PendingAlert)}
    (hm : m ∈ priceRecords D config env pools) : Finds (m, fun _ => none) := by
  intro w _
  unfold priceRecords at hm
  split_ifs at hm
  · obtain rfl := List.mem_singleton.1 hm
    obtain ⟨a, t, hret, hiso⟩ | hiso := isolated_cases
      (pricesRecord D env.prices env.now pools) (w, [])
    · obtain ⟨u, -, hu⟩ := Proc.bind_fst_eq_ret.1 (congrArg Prod.fst hret)
      obtain rfl := Outcome.ret.inj hu
      rw [hiso]
      rfl
    · rw [hiso]
      rfl
  · cases hm

theorem finds_watchedRecords :
    ∀ c ∈ watchedRecords D config env rules pools assets, Finds c := by
  intro c hc
  simp only [watchedRecords, List.mem_append, List.mem_map] at hc
  rcases hc with (⟨⟨lp, i⟩, -, rfl⟩ | ⟨m, hm, rfl⟩) | ⟨⟨a, i⟩, -, rfl⟩
  · exact finds_pool lp i
  · exact finds_prices hm
  · exact finds_token a i

theorem map_watchedRecords : (watchedRecords D config env rules pools assets).map (·.1) =
    batchRecords D config env rules pools assets := by
  simp [watchedRecords, batchRecords, poolRecords, tokenRecords, List.map_map,
    Function.comp_def]

/-- **A batch finds the alerts of its events**, up to a record that breaks. -/
theorem collectAll_finds {l : List WatchedRecord} {found found' : List PendingAlert}
    {t : Tx World} (hrecord : ∀ c ∈ l, Record c.1) (hfinds : ∀ c ∈ l, Finds c)
    (h : collectAll (l.map (·.1)) found ⟨w, false⟩ = (.ret found', t)) :
    ∃ rest, found.map PendingAlert.telling ++ (eventsAlong l w).map Event.telling =
        found'.map PendingAlert.telling ++ rest ∧ ((∀ c ∈ l, ¬ Breaks c.1) → rest = []) := by
  induction l generalizing w found with
  | nil =>
    obtain ⟨rfl, -⟩ : found = found' ∧ (⟨w, false⟩ : Tx World) = t := by
      simpa [collectAll] using h
    exact ⟨[], by simp [eventsAlong], fun _ => rfl⟩
  | cons c l ih =>
    obtain ⟨m, event⟩ := c
    obtain ⟨hm, hrest⟩ := List.forall_mem_cons.1 hrecord
    obtain ⟨hc, hfinds⟩ := List.forall_mem_cons.1 hfinds
    rw [List.map_cons] at h
    dsimp only at h hm
    have hcut : ¬ m.CutOff ⟨w, false⟩ := by
      unfold Proc.CutOff
      obtain ⟨_, a, ha, -⟩ | ⟨_, e, he, -⟩ := collectAll_cons h
      · simp [ha]
      · simp [he]
    have hrecords : ∀ q ∈ l.map (·.1), Record q := List.forall_mem_map.2 hrest
    rcases collectAll_round hm hrecords h with ⟨hbreaks, rfl, -⟩ | ⟨-, w₁, found₁, hiso, hcollect⟩
    · exact ⟨_, rfl, fun hsound => absurd hbreaks (hsound (m, event) List.mem_cons_self)⟩
    · obtain ⟨hw, hfound⟩ := Prod.mk.inj ((isolated_eq found m w).symm.trans hiso)
      obtain ⟨rest, heq, hnil⟩ := ih hrest hfinds hcollect
      refine ⟨rest, ?_, fun hsound => hnil fun c hc => hsound c (List.mem_cons_of_mem _ hc)⟩
      rw [← heq, ← hfound, ← hw, List.map_append, hc w hcut, eventsAlong, List.map_append,
        List.append_assoc]

/-- The alerts that wait for the commit of the batch are those of its first events. -/
theorem commitBatch_telling (h : (commitBatch D config env rules pools assets w).1 = .ret pending) :
    pending.map PendingAlert.telling <+:
      (eventsAlong (watchedRecords D config env rules pools assets) w).map Event.telling := by
  rcases transaction_cases env.start env.commit .db (batchBody D config env rules pools assets) w
    with ⟨found, t, -, -, hb, ht⟩ | ⟨hne, -⟩
  · unfold commitBatch at h
    rw [ht] at h
    obtain rfl := Outcome.ret.inj h
    have hrecord := record_batchRecords D config env rules pools assets
    rw [batchBody_eq, ← map_watchedRecords] at hb
    rw [← map_watchedRecords] at hrecord
    obtain ⟨rest, heq, -⟩ := collectAll_finds (fun c hc => hrecord _ (List.mem_map_of_mem hc))
      finds_watchedRecords hb
    exact ⟨rest, heq.symm⟩
  · exact absurd h (hne pending)

/-- Where no statement fails, they are those of all its events. -/
theorem SnapshotBatch.pending_telling
    (h : SnapshotBatch D config env w rules pools assets pending w₁) :
    pending.map PendingAlert.telling =
      (eventsAlong (watchedRecords D config env rules pools assets) w).map Event.telling := by
  obtain ⟨t, hbody, -⟩ := h.body
  have hrecord := record_batchRecords D config env rules pools assets
  have hsound := h.sound
  rw [← map_watchedRecords] at hbody hrecord hsound
  obtain ⟨rest, heq, hnil⟩ := collectAll_finds
    (fun c hc => hrecord _ (List.mem_map_of_mem hc)) finds_watchedRecords hbody
  rw [hnil fun c hc => hsound _ (List.mem_map_of_mem hc), List.append_nil] at heq
  exact heq.symm

/-- The snapshots that show a drop have their alerts. -/
theorem SnapshotBatch.hasAlerts (h : SnapshotBatch D config env w rules pools assets pending w₁)
    (hall : AllRecorded env.record config.webhook pending.zipIdx w₁) :
    HasAlerts (eventsAlong (watchedRecords D config env rules pools assets) w) w
      (runOnce D config env w).2 := by
  have hbatch : KeepsAlerts w w₁ := by
    have hwithin := @within_commitBatch D config env rules pools assets w
    rw [h.commit] at hwithin
    exact hwithin.keepsAlerts
  have hrest : KeepsAlerts (recordAll env.record config.webhook pending w₁).2
      (runOnce D config env w).2 := by
    rw [h.runOnce_eq]
    exact Proc.related_bind (refl _) fun u _ => within_ingestPayments env.payments rules _
  exact hbatch.hasAlerts ((hasAlerts_of_allRecorded h.pending_telling hall).trans hrest)

/-! ### The alerts of the payments -/

theorem rowAlert_whale {threshold : F64} {row : WhaleTransactionRow} {a : PendingAlert}
    (h : rowAlert D threshold rules row = some a) :
    a.kind = (Event.whale row).kind ∧ a.details = (Event.whale row).details := by
  unfold rowAlert whaleAlert at h
  obtain ⟨severity, -, h⟩ := Option.bind_eq_some_iff.1 h
  rw [← Option.some.inj h]
  exact ⟨rfl, rfl⟩

/-- The alerts of whale rows tell them. -/
theorem telling_of_rowAlerts {threshold : F64} {rows : List WhaleTransactionRow}
    (h : List.Forall₂ (fun row a => rowAlert D threshold rules row = some a) rows pending) :
    pending.map PendingAlert.telling = (rows.map Event.whale).map Event.telling := by
  induction h with
  | nil => rfl
  | cons hrow _ ih =>
    obtain ⟨hkind, hdetails⟩ := rowAlert_whale hrow
    rw [List.map_cons, ih, PendingAlert.telling, hkind, hdetails]
    rfl

/-- The alerts that wait for the commit of the payments are those of the new whale rows. -/
theorem commitPayments_telling {env : PaymentsEnv}
    (h : commitPayments D config env rules w = (.ret pending, w')) :
    pending.map PendingAlert.telling =
      ((w'.db.whaleTransactions.drop w.db.whaleTransactions.length).map Event.whale).map
        Event.telling := by
  rcases commitPayments_cases D config env rules w with
    ⟨hw, hnone⟩ | ⟨newest, rest, -, -, heq⟩ |
    ⟨c, payments, last, rows, pending', -, -, -, hreads, heq⟩
  · rw [h] at hw
    obtain rfl : w' = w := hw
    rw [hnone pending (congrArg Prod.fst h), List.drop_length]
    rfl
  · rw [heq, Prod.mk.injEq, Outcome.ret.injEq] at h
    obtain ⟨rfl, rfl⟩ := h
    simp [setIngestCursor]
  · rw [heq, Prod.mk.injEq, Outcome.ret.injEq] at h
    obtain ⟨rfl, rfl⟩ := h
    have hrows : (advance rows last.pagingToken w).db.whaleTransactions.drop
        w.db.whaleTransactions.length = rows := by
      simp [advance, setIngestCursor, addWhales]
    rw [hrows]
    exact telling_of_rowAlerts hreads.alerts

/-- The whale rows that were committed have their alerts. -/
theorem PaymentBatch.hasAlerts (h : PaymentBatch D config env w rules w₂ pending w₃)
    (hall : AllRecorded env.payments.record config.webhook pending.zipIdx w₃) :
    HasAlerts ((w₃.db.whaleTransactions.drop w₂.db.whaleTransactions.length).map Event.whale) w
      (runOnce D config env w).2 := by
  obtain ⟨pools, assets, pending₁, w₁, hcommitted, hrecorded⟩ := h.reached
  have hrun : runOnce D config env w = recordAll env.payments.record config.webhook pending w₃ := by
    rw [hcommitted.runOnce_eq, Proc.bind_apply, hrecorded]
    simp only [ingestPayments]
    rw [Proc.bind_apply, h.commit]
  have hbatch := (@within_commitBatch D config env rules pools assets w).keepsAlerts
  have hdrops := (within_recordAll env.record config.webhook pending₁ w₁).keepsAlerts
  have hpayments := @commitPayments_keeps D config env.payments rules w₂
  rw [hcommitted.commit] at hbatch
  rw [hrecorded] at hdrops
  rw [h.commit] at hpayments
  rw [hrun]
  have hbefore : KeepsAlerts w w₃ := hbatch.trans (hdrops.trans hpayments)
  exact hbefore.hasAlerts (hasAlerts_of_allRecorded (commitPayments_telling h.commit) hall)

end Step

/-! ### The alerts of lending positions -/

section Lending

variable {prices : PriceMap} {bands : LtvBands} {env : ℕ → EventEnv} {event : RpcEvent}

/-- An alert of a row tells that it escalated. -/
theorem lendingAlert_some {latest : Option LendingPositionRow} {row : LendingPositionRow}
    {a : PendingAlert} (h : lendingAlert bands latest row = some (some a)) :
    ∃ ltv level, escalation bands latest row = some (ltv, level) ∧
      a.telling = (Event.escalation row ltv level).telling := by
  unfold lendingAlert at h
  cases he : escalation bands latest row with
  | none => simp [he] at h
  | some c =>
    obtain ⟨ltv, level⟩ := c
    rw [he] at h
    obtain ⟨account, -, h⟩ := Option.bind_eq_some_iff.1 h
    obtain ⟨contract, -, h⟩ := Option.bind_eq_some_iff.1 h
    rw [← Option.some.inj (Option.some.inj h)]
    exact ⟨ltv, level, rfl, rfl⟩

/-- A row that escalates has an alert, where its addresses can be abbreviated. -/
theorem exists_lendingAlert {latest : Option LendingPositionRow} {row : LendingPositionRow}
    (h : escalation bands latest row ≠ none) (ha : short row.account ≠ none)
    (hc : short row.poolContract ≠ none) : ∃ a, lendingAlert bands latest row = some (some a) := by
  obtain ⟨e, he⟩ := Option.ne_none_iff_exists'.1 h
  obtain ⟨account, ha⟩ := Option.ne_none_iff_exists'.1 ha
  obtain ⟨contract, hc⟩ := Option.ne_none_iff_exists'.1 hc
  unfold lendingAlert
  rw [he]
  simp only [ha, hc]
  exact ⟨_, rfl⟩

/-- The escalation of an event, where its alert is inserted. -/
theorem hasAlerts_event {calls : EventEnv} (h : ∀ s, storedRow D X prices calls event w = some s →
      s.event bands ≠ none → s.calls.record.insertAlert = .ok ∧ short s.row.account ≠ none ∧
        short s.row.poolContract ≠ none) :
    HasAlerts ((storedRow D X prices calls event w).toList.filterMap (StoredRow.event bands)) w
      (processEvent D X config prices bands calls event w).2 := by
  have hkeeps : KeepsAlerts w (processEvent D X config prices bands calls event w).2 :=
    processEvent_keeps prices bands calls event w
  cases hs : storedRow D X prices calls event w with
  | none => exact hkeeps.hasAlerts_nil
  | some s =>
    by_cases hnone : s.event bands = none
    · have hnil : [s].filterMap (StoredRow.event bands) = [] := by simp [hnone]
      rw [Option.toList_some, hnil]
      exact hkeeps.hasAlerts_nil
    obtain ⟨hok, ha, hc⟩ := h s hs hnone
    obtain ⟨e, hd, hg, hcalls, hr, hlatest⟩ := storedRow_eq_some hs
    obtain ⟨a, halert⟩ := exists_lendingAlert (mt Option.map_eq_none_iff.2 hnone) ha hc
    obtain ⟨ltv, level, hesc, htelling⟩ := lendingAlert_some halert
    have hevent : [s].filterMap (StoredRow.event bands) = [.escalation s.row ltv level] := by
      simp [StoredRow.event, hesc]
    rw [hcalls] at hok
    have hdb := (processEvent_stored config bands hd hg.1 hg.2 hr).1
    rw [alertAfter, ← hlatest, halert] at hdb
    simp only [Option.join_some, recordedDb, if_pos hok] at hdb
    rw [Option.toList_some, hevent]
    refine ⟨_, by rw [hdb]; rfl, ?_⟩
    rw [List.map_singleton, List.map_singleton, ← htelling]
    exact List.Sublist.refl _

/-- The escalations of the loop, where their alerts are inserted. -/
theorem hasAlerts_processAll {l : List (RpcEvent × ℕ)}
    (h : ∀ s ∈ storedRows D X config prices bands env l w, s.event bands ≠ none →
      s.calls.record.insertAlert = .ok ∧ short s.row.account ≠ none ∧
        short s.row.poolContract ≠ none) :
    HasAlerts ((storedRows D X config prices bands env l w).filterMap (StoredRow.event bands)) w
      (processAll D X config prices bands env l w).2 := by
  induction l generalizing w with
  | nil => exact KeepsAlerts.hasAlerts_nil (refl w)
  | cons q l ih =>
    obtain ⟨event, i⟩ := q
    rw [storedRows, List.forall_mem_append] at h
    have hevent := @hasAlerts_event D X config w prices bands event (env i) fun s hs =>
      h.1 s (by simp [hs])
    have hrest := h.2
    rw [storedRows, processAll_cons, List.filterMap_append]
    generalize processEvent D X config prices bands (env i) event w = r at hevent hrest
    obtain ⟨o, w₁⟩ := r
    cases o with
    | ret b => exact hevent.append (ih hrest)
    | err e => exact hevent.append (ih hrest)
    | stop => exact hevent.append (KeepsAlerts.hasAlerts_nil (refl w₁))
    | panic => exact hevent.append (KeepsAlerts.hasAlerts_nil (refl w₁))

end Lending

/-! ### Runs -/

/-- A cycle of the main loop, with the world that it starts from. -/
structure Cycle where
  config : Config
  env : CycleEnv
  before : World

/-- Runs of cycles from `w₀`, each of which starts where the one before ended: at its end, or
where the process was stopped. -/
inductive CycleRun (D : RustDecimal) (X : Codec) (w₀ : World) : List Cycle → World → Prop
  | nil : CycleRun D X w₀ [] w₀
  | snoc {cycles : List Cycle} {c : Cycle} {w' : World} :
      CycleRun D X w₀ cycles c.before → (ingestCycle D X c.config c.env c.before).2 = w' →
      CycleRun D X w₀ (cycles ++ [c]) w'

/-- The world after the cycle. -/
def Cycle.after (D : RustDecimal) (X : Codec) (c : Cycle) : World :=
  (ingestCycle D X c.config c.env c.before).2

/-- **One cycle.**  Where its alerts are inserted, every event that it commits has an alert of its
own at its end. -/
theorem Unhindered.hasAlerts {env : CycleEnv} {xs : List Event}
    (hu : Unhindered D X config env w) (hx : Due D X config env w xs) :
    HasAlerts xs w (ingestCycle D X config env w).2 := by
  cases hx with
  | drops h => exact (h.hasAlerts (hu.drops h)).trans (ingestCycle_keeps env w)
  | whales h => exact (h.hasAlerts (hu.whales h)).trans (ingestCycle_keeps env w)
  | @escalations bands events h =>
    obtain ⟨next, hread⟩ := h.read
    have hloop := (hasAlerts_processAll (hu.escalations h)).trans (ingestLendingCycle_keeps hread)
    rcases ingestCycle_world D X config env w with ⟨hskipped, -⟩ | ⟨-, heq⟩
    · exact (hskipped.elim h.reached h.enabled).elim
    · rw [heq]
      exact KeepsAlerts.hasAlerts (within_runOnce env.run w) hloop

theorem CycleRun.keepsAlerts {w₀ : World} {cycles : List Cycle} (h : CycleRun D X w₀ cycles w) :
    ∀ c ∈ cycles, KeepsAlerts (c.after D X) w := by
  induction h with
  | nil => simp
  | @snoc cycles c w' _ hw ih =>
    intro c' hc'
    have hcycle : KeepsAlerts c.before (ingestCycle D X c.config c.env c.before).2 :=
      IsTrans.trans _ _ _ (within_runOnce c.env.run c.before) (ingestCycle_keeps c.env c.before)
    rw [← hw]
    rcases List.mem_append.1 hc' with hc' | hc'
    · exact IsTrans.trans _ _ _ (ih c' hc') hcycle
    · obtain rfl := List.mem_singleton.1 hc'
      exact refl (ingestCycle D X c'.config c'.env c'.before).2

/-- **Alert-worthy events are recorded.**  In every run whose cycles insert their alerts, each
event that a cycle commits has an alert of its own among those that this cycle inserts, and the
alerts stay. -/
theorem CycleRun.events_recorded {w₀ : World} {cycles : List Cycle} (h : CycleRun D X w₀ cycles w)
    (hu : ∀ c ∈ cycles, Unhindered D X c.config c.env c.before) :
    ∀ c ∈ cycles, (∀ xs, Due D X c.config c.env c.before xs →
      HasAlerts xs c.before (c.after D X)) ∧ KeepsAlerts (c.after D X) w :=
  fun c hc => ⟨fun _ hx => (hu c hc).hasAlerts hx, h.keepsAlerts c hc⟩

end Lumina

/-! ### A cycle that loses an alert -/

namespace Lumina.Sample

/-- A cycle with no pools and assets and the payments after the cursor, whose calls go through
but perhaps the insertion of an alert. -/
def paid (insertAlert : Fault) : CycleEnv where
  run := { polled [] .ok with
    payments := { paymentsEnv with
      record := fun _ => { RecordEnv.clean 1767225600000000 with insertAlert := insertAlert } } }
  lending :=
    { rules := .ok
      getCursor := .ok
      latestLedger := .err .http
      rpc := fun _ _ => .err .http
      event := fun _ => ⟨0, .ok, .ok, .clean 1767225600000000⟩
      setCursor := .ok }

/-- The row and the alert of the whale payment. -/
def paidRow : WhaleTransactionRow := whaleRow 1767225600000000 whalePayment 25000

def paidAlert : PendingAlert where
  kind := "whale_payment"
  severity := .info
  message := [.str "Whale payment: ", .dec 25000, .str " ", .str "XLM", .str " from ",
    .str paidRow.sourceAccount, .str " to ", .str (paidRow.destAccount.getD "")]
  details := (Event.whale paidRow).details

/-- The world after a cycle from `w`. -/
def afterPaid (insertAlert : Fault) (w : World) : World :=
  (ingestCycle amounts codec Config.default (paid insertAlert) w).2

theorem due_paid (insertAlert : Fault) :
    Due amounts codec Config.default (paid insertAlert) seeded [.whale paidRow] := by
  have hcommit : (commitPayments amounts Config.default paymentsEnv [] seeded).1 =
      .ret [paidAlert] := by decide +kernel
  have hrows : (commitPayments amounts Config.default paymentsEnv []
      seeded).2.db.whaleTransactions.drop seeded.db.whaleTransactions.length = [paidRow] := by
    decide +kernel
  have hbatch : PaymentBatch amounts Config.default (paid insertAlert).run seeded [] seeded
      [paidAlert] (commitPayments amounts Config.default paymentsEnv [] seeded).2 :=
    ⟨⟨[], [], [], seeded, ⟨rfl, rfl, rfl, rfl⟩, rfl⟩, Prod.ext hcommit rfl⟩
  have hdue : Due amounts codec Config.default (paid insertAlert) seeded _ := .whales hbatch
  rwa [hrows] at hdue

/-- The insertion of the alert fails after the commit, and the next cycle, in which every call
goes through, does not make up for it. -/
theorem lost_alert :
    CycleRun amounts codec seeded [⟨Config.default, paid .fail, seeded⟩,
        ⟨Config.default, paid .ok, afterPaid .fail seeded⟩]
        (afterPaid .ok (afterPaid .fail seeded)) ∧
      Due amounts codec Config.default (paid .fail) seeded [.whale paidRow] ∧
      (runOnce amounts Config.default (paid .ok).run (afterPaid .fail seeded)).1 = .ret () ∧
      ¬ HasAlerts [.whale paidRow] seeded (afterPaid .ok (afterPaid .fail seeded)) := by
  have hnone : (afterPaid .ok (afterPaid .fail seeded)).db.alerts = [] := by decide +kernel
  refine ⟨?_, due_paid .fail, by decide +kernel, ?_⟩
  · exact (CycleRun.nil.snoc (c := ⟨Config.default, paid .fail, seeded⟩) rfl).snoc
      (c := ⟨Config.default, paid .ok, afterPaid .fail seeded⟩) rfl
  · rintro ⟨new, hnew, hsub⟩
    rw [hnone] at hnew
    obtain ⟨-, rfl⟩ := List.append_eq_nil_iff.1 hnew.symm
    cases hsub

/-- Where the insertion goes through, the alert is there. -/
theorem paid_hasAlert : HasAlerts [.whale paidRow] seeded (afterPaid .ok seeded) := by
  have hrun : CycleRun amounts codec seeded [⟨Config.default, paid .ok, seeded⟩]
      (afterPaid .ok seeded) := CycleRun.nil.snoc (c := ⟨Config.default, paid .ok, seeded⟩) rfl
  refine (hrun.events_recorded (fun c hc => ?_) _ (List.mem_singleton_self _)).1 _ (due_paid .ok)
  obtain rfl := List.mem_singleton.1 hc
  refine ⟨fun _ => allRecorded_clean _ _ _ _, fun _ => allRecorded_clean _ _ _ _, fun h => ?_⟩
  exact absurd (by decide +kernel) h.enabled

end Lumina.Sample
