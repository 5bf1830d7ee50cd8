import Lumina.Api.AdminKey
import Lumina.Model.System
import Lumina.Rules.Decided
import Mathlib.Logic.Relation

/-!
# The writes of the system

Everything that the two processes do to the system is a chain of single writes: the ingester's
(`within_ingestCycle`) and the API's (`within_serve`).  A write has what the process has seen to
before it: a snapshot is inserted after its pool, and a rule after its validation.  What every
write keeps holds of the system whatever becomes of a cycle, and also where the API writes between
two statements of the ingester (`System.Step`).

## Main definitions

* `IngestWrite`, `ApiWrite` : one write of the ingester, and one of the API.
* `System.Step`, `System.Reachable` : the writes of both, and retention jobs, in any order.
-/

namespace Lumina

open Tx Relation

/-! ### The ingester -/

/-- An alert of the ingester tells an alert-worthy event. -/
def PendingAlert.Tells (a : PendingAlert) : Prop := ∃ x : Event, a.telling = x.telling

/-- One write of the ingester. -/
inductive IngestWrite (webhook : WebhookConfig) : World → World → Prop
  | pool (row : PoolRow) (w : World) : IngestWrite webhook w { w with db := upsertPool row w.db }
  | poolSnapshot (row : PoolSnapshotRow) (w : World)
      (h : ∃ p ∈ w.db.pools, p.poolId = row.poolId) :
      IngestWrite webhook w { w with db := insertPoolSnapshot row w.db }
  | token (row : TokenRow) (w : World) :
      IngestWrite webhook w { w with db := upsertToken row w.db }
  | tokenSnapshot (row : TokenSnapshotRow) (w : World)
      (h : ⟨row.assetCode, row.assetIssuer⟩ ∈ w.db.tokens) :
      IngestWrite webhook w { w with db := insertTokenSnapshot row w.db }
  | price (now : Time) (asset : AssetId) (priceUsd : Decimal) (source : String) (w : World) :
      IngestWrite webhook w { w with db := insertAssetPrice now asset priceUsd source w.db }
  | whale (row : WhaleTransactionRow) (w : World) :
      IngestWrite webhook w { w with db := (insertWhaleTransaction row w.db).2 }
  | position (row : LendingPositionRow) (w : World) :
      IngestWrite webhook w { w with db := insertLendingPosition row w.db }
  | cursor (key value : String) (w : World) :
      IngestWrite webhook w { w with db := setIngestCursor key value w.db }
  | alert (env : RecordEnv) (a : PendingAlert) (w : World) (h : a.Tells) :
      IngestWrite webhook w (record env webhook a w).2

/-- Some writes of the ingester. -/
abbrev IngestWrites (webhook : WebhookConfig) : World → World → Prop :=
  ReflTransGen (IngestWrite webhook)

instance (webhook : WebhookConfig) : IsPreorder World (IngestWrites webhook) where
  refl _ := .refl
  trans _ _ _ h h' := h.trans h'

variable {D : RustDecimal} {X : Codec} {config : Config} {webhook : WebhookConfig}
  {rules : List AlertRuleRow} {w : World}

section SnapshotOf

variable {β γ : Type} {calls : SnapshotEnv} {parsed : Outcome Error γ} {latest : Db → Option β}
  {upsert insert : γ → Db → Db} {alert : γ → Option β → Option (Option PendingAlert)}

/-- A statement of a transaction writes, or fails and writes nothing. -/
theorem Tx.exec_cases (f : Fault) (u : Db → Db) (t : Tx World) :
    (Tx.exec f u t).2.view = t.view ∧ (Tx.exec f u t).1 ≠ .ret () ∨
      (Tx.exec f u t).2.view = { t.view with db := u t.view.db } := by
  unfold Tx.exec Tx.execReturning Tx.statement
  cases f with
  | ok =>
    cases t.aborted with
    | false => exact .inr rfl
    | true => exact .inl ⟨rfl, nofun⟩
  | fail => exact .inl ⟨rfl, nofun⟩
  | stop => exact .inl ⟨rfl, nofun⟩

/-- What a record's two statements do one after the other, the record does. -/
theorem within_snapshotOf_of_upsert {R : World → World → Prop} [IsPreorder World R]
    (hu : ∀ r (w : World), parsed = .ret r → R w { w with db := upsert r w.db })
    (hi : ∀ r (w : World), parsed = .ret r →
      R { w with db := upsert r w.db } { w with db := insert r (upsert r w.db) }) :
    Proc.Within (Tx.Via R) (snapshotOf calls parsed latest upsert insert alert) := by
  have hinsert : ∀ r (t : Tx World), parsed = .ret r → ∀ w : World,
      t.view = { w with db := upsert r w.db } →
      Tx.Via R t (Tx.exec calls.insert (insert r) t).2 := by
    intro r t hr w ht
    rcases Tx.exec_cases calls.insert (insert r) t with ⟨hview, -⟩ | hview
    · rw [Tx.Via, hview]
      exact refl _
    · rw [Tx.Via, hview, ht]
      exact hi r w hr
  intro t
  refine Proc.related_bind (refl t) fun r hr => ?_
  refine Proc.related_bind (Tx.within_fetch _) fun previous _ => ?_
  generalize (Tx.fetch calls.latest latest _).2 = t₁
  rcases Tx.exec_cases calls.upsert (upsert r) t₁ with ⟨hview, hne⟩ | hview
  · refine Proc.related_bind ?_ fun u hu => absurd hu hne
    rw [Tx.Via, hview]
    exact refl _
  · refine Proc.related_bind (by rw [Tx.Via, hview]; exact hu r _ hr) fun u _ => ?_
    exact Proc.related_bind (hinsert r _ hr _ hview) fun u _ => Proc.within_lift _ _

end SnapshotOf

/-! ### The snapshots -/

theorem exists_upsertPool (row : PoolRow) (db : Db) :
    ∃ p ∈ (upsertPool row db).pools, p.poolId = row.poolId := by
  unfold upsertPool
  split_ifs with h
  · obtain ⟨p, hp, hid⟩ := List.any_eq_true.1 h
    exact ⟨p, hp, of_decide_eq_true hid⟩
  · exact ⟨row, by simp, rfl⟩

theorem mem_upsertToken (row : TokenRow) (db : Db) : row ∈ (upsertToken row db).tokens := by
  unfold upsertToken
  split_ifs with h
  · exact h
  · simp

theorem poolSnapshot_poolId {now : Time} {lp : LiquidityPool}
    {r : PoolReserve × PoolReserve × PoolSnapshotRow} (h : poolSnapshot D now lp = .ret r) :
    r.2.2.poolId = lp.id := by
  unfold poolSnapshot at h
  split at h
  · obtain ⟨reserveA, -, h⟩ := Outcome.bind_eq_ret.1 h
    obtain ⟨reserveB, -, h⟩ := Outcome.bind_eq_ret.1 h
    obtain ⟨totalShares, -, h⟩ := Outcome.bind_eq_ret.1 h
    rw [← Outcome.ret.inj h]
  · cases h

theorem writes_ingestPool (calls : SnapshotEnv) (now : Time) (lp : LiquidityPool)
    (thresholdPct : Decimal) : Proc.Within (Tx.Via (IngestWrites webhook))
      (ingestPool D calls now lp thresholdPct rules) := by
  rw [ingestPool_eq]
  refine within_snapshotOf_of_upsert (fun r w _ => .single (.pool _ w)) fun r w hr => ?_
  refine .single (.poolSnapshot _ { w with db := upsertPool _ w.db } ?_)
  rw [poolSnapshot_poolId hr]
  exact exists_upsertPool _ _

theorem writes_ingestToken (calls : SnapshotEnv) (now : Time) (a : AssetRecord)
    (thresholdPct : Decimal) : Proc.Within (Tx.Via (IngestWrites webhook))
      (ingestToken D calls now a thresholdPct rules) := by
  rw [ingestToken_eq]
  refine within_snapshotOf_of_upsert (fun r w _ => .single (.token _ w)) fun r w hr => ?_
  rw [← Outcome.ret.inj hr]
  exact .single (.tokenSnapshot _ { w with db := upsertToken _ w.db } (mem_upsertToken _ _))

theorem writes_commitBatch (env : RunEnv) (pools : List LiquidityPool)
    (assets : List AssetRecord) :
    Proc.Within (IngestWrites webhook) (commitBatch D config env rules pools assets) := by
  refine within_transaction ?_
  rw [batchBody_eq]
  refine within_collectAll (forall_batchRecords _ (fun calls lp => writes_ingestPool _ _ _ _)
    ?_ fun calls a => writes_ingestToken _ _ _ _) []
  exact within_pricesRecord (fun now asset price source w => .single (.price _ _ _ _ w)) _ _ _

/-! ### The alerts -/

theorem writes_recordAll {env : ℕ → RecordEnv} {pending : List PendingAlert}
    (h : ∀ a ∈ pending, a.Tells) :
    Proc.Within (IngestWrites webhook) (recordAll env webhook pending) := by
  refine Proc.within_foldlM_of_mem (fun c hc _ => ?_) ()
  have hrecord : Proc.Within (IngestWrites webhook) (record (env c.2) webhook c.1) :=
    fun w => .single (.alert _ _ w (h _ (List.fst_mem_of_mem_zipIdx hc)))
  exact hrecord.attempt.bind fun _ => Proc.within_pure ()

/-- The alerts that wait for the commit of the snapshots tell what was decided on. -/
theorem tells_within {pending : List PendingAlert} {xs : List Event}
    (h : pending.map PendingAlert.telling <+: xs.map Event.telling) : ∀ a ∈ pending, a.Tells := by
  intro a ha
  obtain ⟨x, -, hx⟩ := List.mem_map.1 (h.subset (List.mem_map_of_mem ha))
  exact ⟨x, hx.symm⟩

/-! ### The payments -/

theorem writes_ingestWhalePayment (calls : WhaleEnv) (p : PaymentRecord) (threshold : F64) :
    Proc.Within (Tx.Via (IngestWrites webhook)) (ingestWhalePayment D calls p threshold rules) := by
  refine (Proc.within_lift _).bind fun amount => ?_
  cases amount with
  | none => exact Proc.within_pure none
  | some amount =>
    have hinsert : Proc.Within (Tx.Via (IngestWrites webhook))
        (Tx.execReturning calls.insert (insertWhaleTransaction (whaleRow calls.now p amount))) :=
      Tx.within_statement fun w => .single (.whale _ w)
    refine hinsert.bind fun inserted => ?_
    cases inserted with
    | false => exact Proc.within_pure none
    | true => exact (Proc.within_lift _).bind fun _ => Proc.within_pure _

theorem writes_commitPayments (env : PaymentsEnv) :
    Proc.Within (IngestWrites webhook) (commitPayments D config env rules) := by
  refine within_fetch.bind fun cursor => ?_
  cases cursor with
  | none =>
    refine (Proc.within_lift _).bind fun latest => ?_
    cases latest.head? with
    | none => exact Proc.within_pure []
    | some newest =>
      exact (within_exec fun w => .single (.cursor _ _ w)).bind fun _ => Proc.within_pure []
  | some cursor =>
    refine (Proc.within_lift _).bind fun payments => ?_
    split_ifs
    · exact Proc.within_pure []
    · refine within_transaction ((Proc.within_foldlM (fun found c => ?_) _ _).bind fun found => ?_)
      · refine (writes_ingestWhalePayment _ _ _).bind fun alert => ?_
        cases alert <;> exact Proc.within_pure _
      · exact (Tx.within_exec fun w => .single (.cursor _ _ w)).bind fun _ => Proc.within_pure _

/-! ### The cycle -/

theorem writes_runOnce (env : RunEnv) :
    Proc.Within (IngestWrites config.webhook) (runOnce D config env) := by
  intro w
  refine Proc.related_bind (refl w) fun pools hpools => ?_
  refine Proc.related_bind (refl _) fun assets hassets => ?_
  have hload : Proc.Within (IngestWrites config.webhook) (loadRules env.rules) := by
    refine within_fetch.attempt.bind fun r => ?_
    cases r <;> exact Proc.within_pure _
  refine Proc.related_bind (hload _) fun rules _ => ?_
  refine Proc.related_bind (writes_commitBatch env pools assets _) fun pending hpending => ?_
  have hbatch := tells_within (commitBatch_telling hpending)
  refine Proc.related_bind (writes_recordAll hbatch _) fun u _ => ?_
  refine Proc.related_bind (writes_commitPayments env.payments _) fun found hfound => ?_
  have hpayments := commitPayments_telling (Prod.ext hfound rfl)
  exact writes_recordAll (tells_within ⟨[], (List.append_nil _).trans hpayments⟩) _

theorem writes_processEvent (prices : PriceMap) (bands : LtvBands) (env : EventEnv)
    (event : RpcEvent) : Proc.Within (IngestWrites config.webhook)
      (processEvent D X config prices bands env event) := by
  intro w
  unfold processEvent
  rcases storeEvent_cases D X prices bands env event w with
    ⟨e, row, hd, hl, hi, hr, heq⟩ | ⟨hne, hw, -⟩
  · have hposition : IngestWrites config.webhook w
        { w with db := insertLendingPosition row w.db } := .single (.position row w)
    refine Proc.related_bind (by rw [heq]; exact hposition) fun found hfound => ?_
    rw [heq] at hfound ⊢
    cases halert : alertAfter bands env.tie row w.db with
    | none => simp [halert] at hfound
    | some alert =>
      rw [halert] at hfound
      obtain rfl := Outcome.ret.inj hfound
      cases alert with
      | none => exact refl _
      | some a =>
        obtain ⟨ltv, level, -, htells⟩ := lendingAlert_some halert
        have hrecord : Proc.Within (IngestWrites config.webhook)
            (record env.record config.webhook a) := fun w =>
          .single (.alert _ _ w ⟨.escalation row ltv level, htells⟩)
        exact hrecord.attempt.bind (fun _ => Proc.within_pure true) _
  · refine Proc.related_bind (by rw [hw]) fun found hfound => ?_
    cases found with
    | none => exact refl _
    | some alert => exact absurd hfound (hne alert)

theorem writes_ingestLendingCycle (env : LendingEnv) (contractIds : List String) :
    Proc.Within (IngestWrites config.webhook)
      (ingestLendingCycle D X config env contractIds) := by
  intro w
  by_cases hb : ∃ r, (readBatch env contractIds w).1 = .ret r
  · obtain ⟨⟨bands, events, next⟩, hb⟩ := hb
    have hread : readBatch env contractIds w = (.ret (bands, events, next), w) :=
      Prod.ext hb (readBatch_world env contractIds w)
    rw [ingestLendingCycle_eq, hread]
    have hloop : Proc.Within (IngestWrites config.webhook)
        (processEvents D X config (config.blendAssetPricesUsd D) bands env.event events) := by
      refine Proc.within_foldlM (fun _ c => ?_) _ _
      exact (writes_processEvent _ _ (env.event c.2) c.1).attempt.bind fun _ =>
        Proc.within_pure ()
    refine (hloop.bind fun _ => ?_) w
    cases next with
    | none => exact Proc.within_pure ()
    | some c => exact within_exec fun w => .single (.cursor _ _ w)
  · rw [ingestLendingCycle_of_no_batch fun r hr => hb ⟨r, hr⟩]

/-- **A cycle of the ingester is a chain of its writes**, wherever it stops. -/
theorem within_ingestCycle (env : CycleEnv) :
    Proc.Within (IngestWrites config.webhook) (ingestCycle D X config env) := by
  refine (writes_runOnce env.run).attempt.bind fun _ => ?_
  dsimp only
  split_ifs
  · exact (writes_ingestLendingCycle _ _).attempt.bind fun _ => Proc.within_pure ()
  · exact Proc.within_pure ()

/-! ### The API -/

/-- A channel that the validation accepts. -/
structure NewAlertChannel.Valid (body : NewAlertChannel) : Prop where
  name : trim body.name.toList ≠ []
  kind : body.kind ∈ ["slack", "discord", "generic"]
  url : "http://".toList <+: body.url.toList ∨ "https://".toList <+: body.url.toList
  minSeverity : Severity.parse body.minSeverity ≠ none

/-- A watchlist item that the validation accepts. -/
structure NewWatchlistItem.Valid (body : NewWatchlistItem) : Prop where
  itemType : body.itemType ∈ ["pool", "token", "lending_position"]
  itemKey : trim body.itemKey.toList ≠ []
  label : trim body.label.toList ≠ []

/-- One write of the API. -/
inductive ApiWrite : Store → Store → Prop
  | acknowledge (now : Time) (id : ℤ) (s : Store) : ApiWrite s (acknowledgeAlert now id s).2
  | unacknowledge (id : ℤ) (s : Store) : ApiWrite s (unacknowledgeAlert id s).2
  | acknowledgeAll (now : Time) (ids : List ℤ) (s : Store) :
      ApiWrite s (acknowledgeAlerts now ids s).2
  | insertChannel (body : NewAlertChannel) (h : body.Valid) (s : Store) :
      ApiWrite s
        (insertAlertChannel body.name body.kind body.url body.minSeverity body.enabled s).2
  | deleteChannel (id : ℤ) (s : Store) : ApiWrite s (deleteAlertChannel id s).2
  | insertRule (body : NewAlertRule) (h : body.invalid = none) (s : Store) :
      ApiWrite s (insertAlertRule body.name body.ruleType body.assetCode body.assetIssuer
        body.threshold body.enabled s).2
  | updateRule (id : ℤ) (threshold : Decimal) (enabled : Bool) (h : 0 < threshold) (s : Store) :
      ApiWrite s (updateAlertRule id threshold enabled s).2
  | deleteRule (id : ℤ) (s : Store) : ApiWrite s (deleteAlertRule id s).2
  | upsertItem (now : Time) (body : NewWatchlistItem) (h : body.Valid) (s : Store) :
      ApiWrite s (upsertWatchlistItem now body.itemType body.itemKey body.label s).2
  | deleteItem (id : ℤ) (s : Store) : ApiWrite s (deleteWatchlistItem id s).2
  | cache (redis : String → Option CacheEntry) (s : Store) : ApiWrite s { s with redis := redis }

/-- Some writes of the API. -/
abbrev ApiWrites : Store → Store → Prop := ReflTransGen ApiWrite

instance : IsPreorder Store ApiWrites where
  refl _ := .refl
  trans _ _ _ h h' := h.trans h'

section Handlers

variable {state : AppState} {headers : HeaderMap} {env : RequestEnv}

theorem apiWrites_exec {α : Type} {f : Fault} {u : Store → α × Store}
    (h : ∀ s, ApiWrite s (u s).2) : Proc.Within ApiWrites (Store.exec f u) :=
  within_storeExec fun s => .single (h s)

/-- A cached answer writes the cache only. -/
theorem writes_cachedHandler {D : RustDecimal} {cache : Cache}
    {serde : (e : CachedEndpoint) → Serde e.Payload} {calls : CachedEnv} {q : CachedQuery} :
    Proc.Within ApiWrites (cachedHandler D cache serde calls q) := by
  refine (Proc.within_lift _).bind fun since => within_answer fun s => ?_
  have hlookup : (lookup cache calls.cache (serde q.endpoint) q.key s).2 = s := by
    rcases @lookup_cases _ cache calls.cache (serde q.endpoint) q.key s with
      h | h | ⟨_, _, h, -⟩ <;> rw [h]
  refine Proc.related_bind (by rw [hlookup]) fun cached _ => ?_
  cases cached with
  | some value => exact refl _
  | none =>
    refine Proc.related_bind (by rw [CachedQuery.compute_snd]) fun value _ => ?_
    refine Proc.Within.bind (R := ApiWrites) (fun s => ?_) (fun _ => Proc.within_pure _) _
    rcases @keep_cases _ cache calls.cache (serde q.endpoint) q.key s value with
      h | h | ⟨raw, h, -⟩
    · rw [h]
    · rw [h]
    · rw [h]
      unfold redisSetEx
      dsimp only
      split_ifs
      · exact refl s
      · exact .single (.cache _ s)

/-- A request that reads writes the cache only. -/
theorem writes_read (srv : ApiServer) (env : RequestEnv) (r : ReadRequest) :
    Proc.Within ApiWrites (r.handle srv env) := by
  have hhistory : ∀ {β : Type} (hours : ℤ) (q : Time → Store → β) (ok : β → Response),
      Proc.Within ApiWrites (do
        let since ← Proc.lift (.orPanic (hoursBefore env.now hours))
        answer (Store.fetch env.call (q since)) ok) :=
    fun hours q ok => (Proc.within_lift _).bind fun _ => within_answer within_storeFetch
  cases r with
  | health =>
    refine within_storeFetch.attempt.bind fun r => ?_
    cases r <;> exact Proc.within_pure _
  | metrics => exact Proc.within_pure _
  | tvl q => exact writes_cachedHandler
  | search q =>
    simp only [ReadRequest.handle, searchHandler]
    split
    · exact Proc.within_pure _
    · exact within_answer within_storeFetch
  | pools q => exact writes_cachedHandler
  | poolHistory poolId q => exact hhistory _ _ _
  | poolsTrending q => exact writes_cachedHandler
  | tokens q => exact writes_cachedHandler
  | tokensTrending q => exact writes_cachedHandler
  | tokenHistory code issuer q => exact hhistory _ _ _
  | whaleTransactions q => exact within_answer within_storeFetch
  | liquidations =>
    refine within_storeFetch.attempt.bind fun rules => ?_
    cases rules with
    | error e => exact Proc.within_pure _
    | ok rules =>
      refine within_storeFetch.attempt.bind fun summary => ?_
      cases summary with
      | error e => exact Proc.within_pure _
      | ok summary =>
        refine within_storeFetch.attempt.bind fun positions => ?_
        cases positions <;> exact Proc.within_pure _
  | alerts q => exact within_answer within_storeFetch
  | listAlertChannels => exact within_answer within_storeFetch
  | listAlertRules => exact within_answer within_storeFetch
  | listWatchlist => exact within_answer within_storeFetch
  | eventsStream => exact Proc.within_pure _

theorem writes_createAlertChannel (f : Fault) (body : NewAlertChannel) :
    Proc.Within ApiWrites (createAlertChannel state f headers body) := by
  refine within_guarded ?_
  split
  · exact Proc.within_pure _
  rename_i hname
  split
  · exact Proc.within_pure _
  rename_i hkind
  split
  · exact Proc.within_pure _
  rename_i hurl
  split
  · exact Proc.within_pure _
  rename_i hseverity
  have hvalid : body.Valid := ⟨hname, not_not.1 hkind, not_not.1 hurl, hseverity⟩
  refine within_answer
    ((apiWrites_exec fun s => .insertChannel body hvalid s).bind fun row => ?_)
  cases row with
  | some row => exact Proc.within_pure _
  | none => exact Proc.within_lift _

theorem writes_createWatchlistItem (body : NewWatchlistItem) :
    Proc.Within ApiWrites (createWatchlistItem state env headers body) := by
  refine within_guarded ?_
  split
  · exact Proc.within_pure _
  rename_i htype
  split
  · exact Proc.within_pure _
  rename_i hkey
  split
  · exact Proc.within_pure _
  rename_i hlabel
  exact within_answer (apiWrites_exec fun s =>
    .upsertItem env.now body ⟨not_not.1 htype, hkey, hlabel⟩ s)

/-- A request that writes makes a write of the API. -/
theorem writes_write (w : WriteRequest) : Proc.Within ApiWrites (w.handle state env headers) := by
  cases w with
  | acknowledgeAlert id =>
    exact within_guarded (within_answer (apiWrites_exec fun s => .acknowledge _ id s))
  | unacknowledgeAlert id =>
    exact within_guarded (within_answer (apiWrites_exec fun s => .unacknowledge id s))
  | acknowledgeAlertsBulk ids =>
    refine within_guarded ?_
    split_ifs
    · exact Proc.within_pure _
    · exact Proc.within_pure _
    · exact within_answer (apiWrites_exec fun s => .acknowledgeAll _ ids s)
  | createAlertChannel body => exact writes_createAlertChannel _ _
  | deleteAlertChannel id =>
    exact within_guarded (within_answer (apiWrites_exec fun s => .deleteChannel id s))
  | createAlertRule body =>
    refine within_guarded ?_
    split
    · exact Proc.within_pure _
    · rename_i h
      exact within_answer (apiWrites_exec fun s => .insertRule body h s)
  | updateAlertRule id body =>
    refine within_guarded ?_
    split_ifs with h
    · exact Proc.within_pure _
    · exact within_answer (apiWrites_exec fun s => .updateRule id _ _ (not_le.1 h) s)
  | deleteAlertRule id =>
    exact within_guarded (within_answer (apiWrites_exec fun s => .deleteRule id s))
  | createWatchlistItem body => exact writes_createWatchlistItem _
  | deleteWatchlistItem id =>
    exact within_guarded (within_answer (apiWrites_exec fun s => .deleteItem id s))

/-- **An answer to a request is a chain of writes of the API.** -/
theorem writes_serve (srv : ApiServer) (X : Extract) (env : RequestEnv) (req : Request) :
    Proc.Within ApiWrites (serve srv X env req) := by
  refine Proc.Within.bind ?_ fun resp => Proc.within_pure _
  unfold handleRequest
  split
  · exact writes_read _ _ _
  · exact writes_write _
  · exact Proc.within_pure _

end Handlers

/-! ### The system -/

namespace System

/-- One write of either process, the ingester between two statements as well, or a retention job
of the database. -/
inductive Step (webhook : WebhookConfig) : System → System → Prop
  | ingest {s : System} {w : World} (h : IngestWrite webhook s.world w) :
      Step webhook s (s.withWorld w)
  | api {s : System} {store : Store} (h : ApiWrite s.store store) :
      Step webhook s { s with store := store }
  | retention (job : RetentionJob) (s : System) : Step webhook s (s.retain job)

/-- The states that are reached, whatever the order of the writes and the jobs. -/
def Reachable (webhook : WebhookConfig) : System → Prop := ReflTransGen (Step webhook) empty

variable {P : Deployment} {s s' : System}

theorem reaches_withWorld {w : World} (h : IngestWrites webhook s.world w) :
    ReflTransGen (Step webhook) s (s.withWorld w) := by
  induction h with
  | refl => exact .refl
  | @tail w₁ w₂ _ hstep ih =>
    refine ih.tail ?_
    rw [← withWorld_withWorld s w₁ w₂]
    exact .ingest (by rwa [world_withWorld])

theorem reaches_store {store : Store} (h : ApiWrites s.store store) :
    ReflTransGen (Step webhook) s { s with store := store } := by
  induction h with
  | refl => exact .refl
  | tail _ hstep ih => exact ih.tail (.api hstep)

/-- **Cycles, requests and jobs are chains of writes.** -/
theorem reaches_step (P : Deployment) (s : System) (e : SystemEvent) :
    ReflTransGen (Step P.config.webhook) s (step P s e) := by
  cases e with
  | cycle env => exact reaches_withWorld (within_ingestCycle env s.world)
  | request env req => exact reaches_store (writes_serve _ _ env req s.store)
  | retention job => exact .single (.retention job s)

theorem reaches_run (P : Deployment) (s : System) (es : List SystemEvent) :
    ReflTransGen (Step P.config.webhook) s (Trace.run (step P) s es) :=
  Trace.run_invariant .refl (fun s e hs => hs.trans (reaches_step P s e)) es

/-- What every write keeps holds after a run. -/
theorem Reachable.run (h : Reachable P.config.webhook s) (es : List SystemEvent) :
    Reachable P.config.webhook (Trace.run (step P) s es) :=
  ReflTransGen.trans h (reaches_run P s es)

/-- An invariant: what holds at the start and what every write keeps. -/
theorem Reachable.invariant {Inv : System → Prop} (h : Reachable webhook s) (h₀ : Inv empty)
    (hstep : ∀ s s', Step webhook s s' → Inv s → Inv s') : Inv s := by
  induction h with
  | refl => exact h₀
  | tail _ hlast ih => exact hstep _ _ hlast ih

end System

end Lumina
