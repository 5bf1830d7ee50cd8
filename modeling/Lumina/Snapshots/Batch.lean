import Lumina.Model.Ingest
import Lumina.Proc.Batch

/-!
# The records of the snapshot batch

The snapshot transaction is a batch of records: the pools, the price discovery where it is
enabled, and the tokens (`batchBody_eq`).  A pool and a token are recorded in the same way: the
amounts are parsed, the latest snapshot is read, two rows are written, and the new snapshot is
compared with the one before (`snapshotOf`).

## Main definitions

* `SnapshotEnv.fault` : how the three statements of a pool or token end.
* `snapshotOf` : the common form of `ingestPool` and `ingestToken`.
* `batchRecords` : the records of the batch.
-/

namespace Lumina

open Tx

/-- How the three statements of a pool or token end: the first that does not go through. -/
def SnapshotEnv.fault (env : SnapshotEnv) : Fault :=
  if env.latest = .ok then (if env.upsert = .ok then env.insert else env.upsert) else env.latest

section Upserts

variable (pool : PoolRow) (token : TokenRow) (db : Db)

@[simp] theorem upsertPool_poolSnapshots :
    (upsertPool pool db).poolSnapshots = db.poolSnapshots := by
  unfold upsertPool
  split_ifs <;> rfl

@[simp] theorem upsertPool_tokenSnapshots :
    (upsertPool pool db).tokenSnapshots = db.tokenSnapshots := by
  unfold upsertPool
  split_ifs <;> rfl

@[simp] theorem upsertPool_alerts : (upsertPool pool db).alerts = db.alerts := by
  unfold upsertPool
  split_ifs <;> rfl

@[simp] theorem upsertToken_poolSnapshots :
    (upsertToken token db).poolSnapshots = db.poolSnapshots := by
  unfold upsertToken
  split_ifs <;> rfl

@[simp] theorem upsertToken_tokenSnapshots :
    (upsertToken token db).tokenSnapshots = db.tokenSnapshots := by
  unfold upsertToken
  split_ifs <;> rfl

@[simp] theorem upsertToken_alerts : (upsertToken token db).alerts = db.alerts := by
  unfold upsertToken
  split_ifs <;> rfl

end Upserts

/-- Parse a record, read its latest snapshot, write its two rows, and compare. -/
def snapshotOf {β γ : Type} (env : SnapshotEnv) (parsed : Outcome Error γ) (latest : Db → β)
    (upsert insert : γ → Db → Db) (alert : γ → β → Option (Option PendingAlert)) :
    Proc (Tx World) Error (Option PendingAlert) := do
  let row ← Proc.lift parsed
  let previous ← Tx.fetch env.latest latest
  Tx.exec env.upsert (upsert row)
  Tx.exec env.insert (insert row)
  Proc.lift (.orPanic (alert row previous))

section SnapshotOf

variable {β γ : Type} {env : SnapshotEnv} {parsed : Outcome Error γ} {latest : Db → β}
  {upsert insert : γ → Db → Db} {alert : γ → β → Option (Option PendingAlert)} {row : γ}
  {w : World}

/-- A record that parses, and whose statements go through. -/
theorem snapshotOf_ok (hp : parsed = .ret row) (hf : env.fault = .ok) :
    snapshotOf env parsed latest upsert insert alert ⟨w, false⟩ =
      (.orPanic (alert row (latest w.db)),
        ⟨{ w with db := insert row (upsert row w.db) }, false⟩) := by
  unfold SnapshotEnv.fault at hf
  split_ifs at hf with hl hu
  · simp only [snapshotOf, hp, Proc.bind_apply, Proc.lift_apply, Tx.fetch, Tx.exec,
      Tx.execReturning, hl, hu, hf, statement_ok]
  · exact absurd hf hu
  · exact absurd hf hl

/-- A record that parses, and one of whose statements fails. -/
theorem snapshotOf_fail (hp : parsed = .ret row) (hf : env.fault = .fail) :
    ∃ w', snapshotOf env parsed latest upsert insert alert ⟨w, false⟩ =
      (.err .db, ⟨w', true⟩) := by
  unfold SnapshotEnv.fault at hf
  split_ifs at hf with hl hu
  · refine ⟨{ w with db := upsert row w.db }, ?_⟩
    simp only [snapshotOf, hp, Proc.bind_apply, Proc.lift_apply, Tx.fetch, Tx.exec,
      Tx.execReturning, hl, hu, hf, statement_ok, statement_fail]
  · refine ⟨w, ?_⟩
    simp only [snapshotOf, hp, Proc.bind_apply, Proc.lift_apply, Tx.fetch, Tx.exec,
      Tx.execReturning, hl, hf, statement_ok, statement_fail]
  · refine ⟨w, ?_⟩
    simp only [snapshotOf, hp, Proc.bind_apply, Proc.lift_apply, Tx.fetch, hf,
      statement_fail]

/-- A record that parses, and that is cut off at one of its statements. -/
theorem snapshotOf_stop (hp : parsed = .ret row) (hf : env.fault = .stop) :
    ∃ w', snapshotOf env parsed latest upsert insert alert ⟨w, false⟩ = (.stop, ⟨w', false⟩) := by
  unfold SnapshotEnv.fault at hf
  split_ifs at hf with hl hu
  · refine ⟨{ w with db := upsert row w.db }, ?_⟩
    simp only [snapshotOf, hp, Proc.bind_apply, Proc.lift_apply, Tx.fetch, Tx.exec,
      Tx.execReturning, hl, hu, hf, statement_ok, statement_stop]
  · refine ⟨w, ?_⟩
    simp only [snapshotOf, hp, Proc.bind_apply, Proc.lift_apply, Tx.fetch, Tx.exec,
      Tx.execReturning, hl, hf, statement_ok, statement_stop]
  · refine ⟨w, ?_⟩
    simp only [snapshotOf, hp, Proc.bind_apply, Proc.lift_apply, Tx.fetch, hf,
      statement_stop]

/-- A record that does not parse. -/
theorem snapshotOf_unparsed (hp : ∀ row, parsed ≠ .ret row) (t : Tx World) :
    (snapshotOf env parsed latest upsert insert alert t).2 = t ∧
      ∀ a, (snapshotOf env parsed latest upsert insert alert t).1 ≠ .ret a := by
  unfold snapshotOf
  rw [Proc.bind_apply, Proc.lift_apply]
  cases parsed with
  | ret row => exact absurd rfl (hp row)
  | err e => exact ⟨rfl, by simp⟩
  | stop => exact ⟨rfl, by simp⟩
  | panic => exact ⟨rfl, by simp⟩

variable (env parsed latest upsert insert alert) in
/-- **The ways one pool or token ends** in a transaction without a failed statement. -/
theorem snapshotOf_cases (w : World) :
    ((∀ row, parsed ≠ .ret row) ∧
        (snapshotOf env parsed latest upsert insert alert ⟨w, false⟩).2 = ⟨w, false⟩ ∧
        ∀ a, (snapshotOf env parsed latest upsert insert alert ⟨w, false⟩).1 ≠ .ret a) ∨
      ∃ row, parsed = .ret row ∧
        ((env.fault = .ok ∧ snapshotOf env parsed latest upsert insert alert ⟨w, false⟩ =
            (.orPanic (alert row (latest w.db)),
              ⟨{ w with db := insert row (upsert row w.db) }, false⟩)) ∨
          (env.fault = .fail ∧ ∃ w', snapshotOf env parsed latest upsert insert alert ⟨w, false⟩ =
            (.err .db, ⟨w', true⟩)) ∨
          (env.fault = .stop ∧ ∃ w', snapshotOf env parsed latest upsert insert alert ⟨w, false⟩ =
            (.stop, ⟨w', false⟩))) := by
  by_cases hp : ∃ row, parsed = .ret row
  · obtain ⟨row, hp⟩ := hp
    refine .inr ⟨row, hp, ?_⟩
    cases hf : env.fault with
    | ok => exact .inl ⟨rfl, snapshotOf_ok hp hf⟩
    | fail => exact .inr (.inl ⟨rfl, snapshotOf_fail hp hf⟩)
    | stop => exact .inr (.inr ⟨rfl, snapshotOf_stop hp hf⟩)
  · have hp : ∀ row, parsed ≠ .ret row := fun row h => hp ⟨row, h⟩
    exact .inl ⟨hp, snapshotOf_unparsed hp _⟩

/-- A statement of the record fails exactly if it parses and its statements end so. -/
theorem breaks_snapshotOf_iff :
    Breaks (snapshotOf env parsed latest upsert insert alert) ↔
      (∃ row, parsed = .ret row) ∧ env.fault = .fail := by
  have haborted : ∀ w, (snapshotOf env parsed latest upsert insert alert ⟨w, false⟩).2.aborted =
      true ↔ (∃ row, parsed = .ret row) ∧ env.fault = .fail := by
    intro w
    rcases snapshotOf_cases env parsed latest upsert insert alert w with
      ⟨hp, ht, -⟩ | ⟨row, hp, ⟨hf, h⟩ | ⟨hf, w', h⟩ | ⟨hf, w', h⟩⟩
    · rw [ht]
      refine iff_of_false (by simp) ?_
      rintro ⟨⟨row, hrow⟩, -⟩
      exact hp row hrow
    · simp [h, hf]
    · rw [h]
      exact iff_of_true rfl ⟨⟨row, hp⟩, hf⟩
    · simp [h, hf]
  exact ⟨fun hb => (haborted World.empty).1 (hb _), fun h w => (haborted w).2 h⟩

/-- By itself, the record goes through exactly if it parses, its statements go through and its
arithmetic has a result. -/
theorem through_snapshotOf_iff :
    Through (snapshotOf env parsed latest upsert insert alert) w ↔
      ∃ row, parsed = .ret row ∧ env.fault = .ok ∧ alert row (latest w.db) ≠ none := by
  unfold Through
  rcases snapshotOf_cases env parsed latest upsert insert alert w with
    ⟨hp, -, hne⟩ | ⟨row, hp, ⟨hf, h⟩ | ⟨hf, w', h⟩ | ⟨hf, w', h⟩⟩
  · refine iff_of_false ?_ ?_
    · rintro ⟨a, ha⟩
      exact hne a ha
    · rintro ⟨row, hrow, -⟩
      exact hp row hrow
  · rw [h]
    cases ha : alert row (latest w.db) with
    | none => simp [hp, ha]
    | some a => simp [hp, ha, hf]
  · simp [h, hf]
  · simp [h, hf]

/-- A record that goes through finds the alert that its arithmetic gives. -/
theorem snapshotOf_found {found : Option PendingAlert}
    (h : (snapshotOf env parsed latest upsert insert alert ⟨w, false⟩).1 = .ret found) :
    ∃ row, parsed = .ret row ∧ alert row (latest w.db) = some found := by
  obtain ⟨row, hp, hf, -⟩ := through_snapshotOf_iff.1 ⟨found, h⟩
  refine ⟨row, hp, ?_⟩
  rw [snapshotOf_ok hp hf] at h
  cases ha : alert row (latest w.db) with
  | none => simp [ha] at h
  | some b => simpa [ha] using h

/-- A record that parses, whose statements go through, and that is not cut off. -/
theorem snapshotOf_returns (hp : parsed = .ret row) (hf : env.fault = .ok)
    (hcut : ¬ (snapshotOf env parsed latest upsert insert alert).CutOff ⟨w, false⟩) :
    ∃ found, alert row (latest w.db) = some found ∧
      (snapshotOf env parsed latest upsert insert alert ⟨w, false⟩).1 = .ret found := by
  unfold Proc.CutOff at hcut
  rw [snapshotOf_ok hp hf] at hcut ⊢
  cases ha : alert row (latest w.db) with
  | none => simp [ha] at hcut
  | some found => exact ⟨found, rfl, rfl⟩

theorem record_snapshotOf : Record (snapshotOf env parsed latest upsert insert alert) where
  aborted w := by
    by_cases hp : ∃ row, parsed = .ret row
    · obtain ⟨row, rfl⟩ := hp
      unfold snapshotOf
      rw [Proc.bind_apply, Proc.lift_apply]
      simp only [Proc.bind_apply, Tx.fetch]
      cases env.latest <;> simp
    · exact snapshotOf_unparsed (fun row h => hp ⟨row, h⟩) _
  returned w a h := by
    rcases snapshotOf_cases env parsed latest upsert insert alert w with
      ⟨-, ht, -⟩ | ⟨row, -, ⟨-, h'⟩ | ⟨-, w', h'⟩ | ⟨-, w', h'⟩⟩
    · rw [ht]
    · rw [h']
    · simp [h'] at h
    · rw [h']
  failed w e h ha := by
    rcases snapshotOf_cases env parsed latest upsert insert alert w with
      ⟨-, ht, -⟩ | ⟨row, -, ⟨-, h'⟩ | ⟨-, w', h'⟩ | ⟨-, w', h'⟩⟩
    · exact ht
    · rw [h'] at h
      cases ha : alert row (latest w.db) <;> simp [ha] at h
    · simp [h'] at ha
    · simp [h'] at h
  uniform w w' := by
    rw [Bool.eq_iff_iff]
    rcases snapshotOf_cases env parsed latest upsert insert alert w with
      ⟨hp, ht, -⟩ | ⟨row, hp, ⟨hf, h⟩ | ⟨hf, w₁, h⟩ | ⟨hf, w₁, h⟩⟩
    · rw [ht, (snapshotOf_unparsed hp _).1]
    · rw [h, snapshotOf_ok hp hf]
    · obtain ⟨w₂, h₂⟩ : ∃ w₂, snapshotOf env parsed latest upsert insert alert ⟨w', false⟩ =
        (.err .db, ⟨w₂, true⟩) := snapshotOf_fail hp hf
      rw [h, h₂]
    · obtain ⟨w₂, h₂⟩ : ∃ w₂, snapshotOf env parsed latest upsert insert alert ⟨w', false⟩ =
        (.stop, ⟨w₂, false⟩) := snapshotOf_stop hp hf
      rw [h, h₂]

/-- What the statements do to the store, a record does. -/
theorem within_snapshotOf {R : World → World → Prop} [IsPreorder World R]
    (hu : ∀ r (w : World), R w { w with db := upsert r w.db })
    (hi : ∀ r (w : World), R w { w with db := insert r w.db }) :
    Proc.Within (Tx.Via R) (snapshotOf env parsed latest upsert insert alert) := by
  refine (Proc.within_lift parsed).bind ?_
  intro r
  refine Tx.within_fetch.bind ?_
  intro previous
  refine (Tx.within_exec fun w => hu r w).bind fun _ => ?_
  exact (Tx.within_exec fun w => hi r w).bind fun _ => Proc.within_lift _

end SnapshotOf

/-! ### Pools and tokens -/

variable {D : RustDecimal} {config : Config} {env : SnapshotEnv} {now : Time} {lp : LiquidityPool}
  {a : AssetRecord} {thresholdPct : Decimal} {rules : List AlertRuleRow} {w : World}

theorem ingestPool_eq :
    ingestPool D env now lp thresholdPct rules =
      snapshotOf env (poolSnapshot D now lp) (latestPoolTotalShares env.tie lp.id)
        (fun r => upsertPool ⟨lp.id, r.1.asset, r.2.1.asset, lp.feeBp⟩)
        (fun r => insertPoolSnapshot r.2.2)
        (fun r previous => poolAlert D lp r.1 r.2.1
          (resolveLiquidityDropThresholdPct rules lp.id thresholdPct) previous
          r.2.2.totalShares) := rfl

theorem ingestToken_eq :
    ingestToken D env now a thresholdPct rules =
      snapshotOf env (.ret (tokenSnapshot D now a))
        (latestTokenNumAccounts env.tie a.assetCode a.assetIssuer)
        (fun _ => upsertToken ⟨a.assetCode, a.assetIssuer⟩) insertTokenSnapshot
        (fun _ previous => tokenAlert D a
          (resolveHolderDropThresholdPct rules a.assetCode (some a.assetIssuer) thresholdPct)
          previous) := rfl

/-- The alert of a pool: none unless its shares dropped. -/
theorem poolAlert_cases {assetA assetB : PoolReserve} {before shares : Decimal}
    {alert : Option PendingAlert}
    (h : poolAlert D lp assetA assetB thresholdPct (some before) shares = some alert) :
    (dropGate D before shares thresholdPct = some none ∧ alert = none) ∨
      ∃ drop a, dropGate D before shares thresholdPct = some (some drop) ∧ alert = some a ∧
        a.kind = "liquidity_drop" ∧
        a.details = [("pool_id", some [.str lp.id]), ("asset_a", some [.str assetA.asset]),
          ("asset_b", some [.str assetB.asset]), ("shares_before", some [.dec before]),
          ("shares_now", some [.dec shares]), ("drop_pct", some [.dec drop])] := by
  simp only [poolAlert, Option.bind_eq_bind] at h
  obtain ⟨gate, hgate, h⟩ := Option.bind_eq_some_iff.1 h
  cases gate with
  | none => exact .inl ⟨hgate, (Option.some.inj h).symm⟩
  | some drop =>
    obtain ⟨severity, -, h⟩ := Option.bind_eq_some_iff.1 h
    exact .inr ⟨drop, _, hgate, (Option.some.inj h).symm, rfl, rfl⟩

/-- The alert of a token: none unless its holders dropped. -/
theorem tokenAlert_cases {before : ℤ} {alert : Option PendingAlert}
    (h : tokenAlert D a thresholdPct (some before) = some alert) :
    (dropGate D before a.accountsAuthorized thresholdPct = some none ∧ alert = none) ∨
      ∃ drop b, dropGate D before a.accountsAuthorized thresholdPct = some (some drop) ∧
        alert = some b ∧ b.kind = "holder_drop" ∧
        b.details = [("asset_code", some [.str a.assetCode]),
          ("asset_issuer", some [.str a.assetIssuer]), ("holders_before", some [.int before]),
          ("holders_now", some [.int a.accountsAuthorized]),
          ("drop_pct", some [.dec drop])] := by
  simp only [tokenAlert, Option.bind_eq_bind] at h
  obtain ⟨gate, hgate, h⟩ := Option.bind_eq_some_iff.1 h
  cases gate with
  | none => exact .inl ⟨hgate, (Option.some.inj h).symm⟩
  | some drop =>
    obtain ⟨severity, -, h⟩ := Option.bind_eq_some_iff.1 h
    exact .inr ⟨drop, _, hgate, (Option.some.inj h).symm, rfl, rfl⟩

/-! ### Prices -/

/-- The price discovery as a record of the batch. -/
def pricesRecord (D : RustDecimal) (env : PricesEnv) (now : Time) (pools : List LiquidityPool) :
    Proc (Tx World) Error (Option PendingAlert) := do
  ingestPrices D env now pools
  return none

theorem writes_exec (f : Fault) (u : Db → Db) : Writes (Tx.exec f u) := by
  have h : Writes (Tx.statement f Error.db fun w : World => ((), { w with db := u w.db })) :=
    writes_statement _ _ _
  exact h

theorem writes_ingestHops (env : PricesEnv) (now : Time) (reserves : List PoolLegs)
    (left hop : ℕ) (priced : Priced) : Writes (ingestHops D env now reserves left hop priced) := by
  induction left generalizing hop priced with
  | zero => exact writes_pure ()
  | succ left ih =>
    refine (writes_orPanic _).bind ?_
    intro newly
    split_ifs
    · exact writes_pure ()
    · refine (writes_foldlM (fun priced c => ?_) _ _).bind fun priced => ih _ _
      obtain ⟨e, i⟩ := c
      exact (writes_exec _ _).bind fun _ => writes_pure _

/-- What follows the XLM price. -/
theorem writes_prices (env : PricesEnv) (now : Time) (pools : List LiquidityPool)
    (xlmUsd : Decimal) :
    Writes (do
      Tx.exec env.insertXlm (insertAssetPrice now native xlmUsd "coingecko")
      ingestHops D env now (pools.filterMap (poolLegs D)) maxPriceHops 0 [(native, xlmUsd)]
      return (none : Option PendingAlert)) :=
  (writes_exec _ _).bind fun _ => (writes_ingestHops _ _ _ _ _ _).bind fun _ => writes_pure _

variable (D) in
theorem pricesRecord_eq (env : PricesEnv) (now : Time) (pools : List LiquidityPool) :
    pricesRecord D env now pools = Proc.lift (fetchXlmUsd D env) >>= fun xlmUsd => do
      Tx.exec env.insertXlm (insertAssetPrice now native xlmUsd "coingecko")
      ingestHops D env now (pools.filterMap (poolLegs D)) maxPriceHops 0 [(native, xlmUsd)]
      return (none : Option PendingAlert) := by
  simp only [pricesRecord, ingestPrices, bind_assoc]

theorem record_pricesRecord (env : PricesEnv) (now : Time) (pools : List LiquidityPool) :
    Record (pricesRecord D env now pools) := by
  rw [pricesRecord_eq]
  cases hx : fetchXlmUsd D env with
  | ret xlmUsd =>
    obtain ⟨o, aborted, hret, herr, hw⟩ := writes_prices (D := D) env now pools xlmUsd
    have hlift : ∀ t, (Proc.lift (.ret xlmUsd) >>= fun xlmUsd => (do
        Tx.exec env.insertXlm (insertAssetPrice now native xlmUsd "coingecko")
        ingestHops D env now (pools.filterMap (poolLegs D)) maxPriceHops 0 [(native, xlmUsd)]
        return (none : Option PendingAlert) : Proc (Tx World) Error (Option PendingAlert))) t =
        (do
          Tx.exec env.insertXlm (insertAssetPrice now native xlmUsd "coingecko")
          ingestHops D env now (pools.filterMap (poolLegs D)) maxPriceHops 0 [(native, xlmUsd)]
          return (none : Option PendingAlert) : Proc (Tx World) Error (Option PendingAlert)) t :=
      fun t => rfl
    refine ⟨?_, ?_, ?_, ?_⟩
    · intro w
      rw [hlift, Proc.bind_apply]
      unfold Tx.exec Tx.execReturning
      cases env.insertXlm <;> simp
    · intro w a h
      obtain ⟨w', h'⟩ := hw w
      rw [hlift, h'] at h ⊢
      exact hret a h
    · intro w e h ha
      obtain ⟨w', h'⟩ := hw w
      rw [hlift, h'] at h ha
      obtain rfl : aborted = false := ha
      exact absurd (herr e h) (by simp)
    · intro w w'
      obtain ⟨w₁, h₁⟩ := hw w
      obtain ⟨w₂, h₂⟩ := hw w'
      rw [hlift, hlift, h₁, h₂]
  | err e => exact ⟨fun w => ⟨rfl, nofun⟩, fun w a => nofun, fun w e _ _ => rfl, fun w w' => rfl⟩
  | stop => exact ⟨fun w => ⟨rfl, nofun⟩, fun w a => nofun, fun w e _ _ => rfl, fun w w' => rfl⟩
  | panic => exact ⟨fun w => ⟨rfl, nofun⟩, fun w a => nofun, fun w e _ _ => rfl, fun w w' => rfl⟩

/-- Prices move the store as the insertion of a price does. -/
theorem within_pricesRecord {R : World → World → Prop} [IsPreorder World R]
    (hR : ∀ now asset price source (w : World),
      R w { w with db := insertAssetPrice now asset price source w.db })
    (env : PricesEnv) (now : Time) (pools : List LiquidityPool) :
    Proc.Within (Tx.Via R) (pricesRecord D env now pools) := by
  have hexec : ∀ f asset price source,
      Proc.Within (Tx.Via R) (Tx.exec f (insertAssetPrice now asset price source)) :=
    fun f asset price source => Tx.within_exec fun w => hR now asset price source w
  have hhops : ∀ left hop priced, Proc.Within (Tx.Via R)
      (ingestHops D env now (pools.filterMap (poolLegs D)) left hop priced) := by
    intro left
    induction left with
    | zero => exact fun hop priced => Proc.within_pure ()
    | succ left ih =>
      intro hop priced
      refine (Proc.within_lift _).bind ?_
      intro newly
      split_ifs
      · exact Proc.within_pure ()
      · refine (Proc.within_foldlM (fun _ c => ?_) _ _).bind fun priced => ih _ _
        obtain ⟨e, i⟩ := c
        exact (hexec _ _ _ _).bind fun _ => Proc.within_pure _
  rw [pricesRecord_eq]
  refine (Proc.within_lift _).bind ?_
  intro xlmUsd
  exact (hexec _ _ _ _).bind fun _ => (hhops _ _ _).bind fun _ => Proc.within_pure _

/-! ### The batch -/

section Batch

variable (D config) (env : RunEnv) (rules : List AlertRuleRow) (pools : List LiquidityPool)
  (assets : List AssetRecord)

def poolRecords : List (Proc (Tx World) Error (Option PendingAlert)) :=
  pools.zipIdx.map fun c =>
    ingestPool D (env.pool c.2) env.now c.1 config.liquidityDropThresholdPct rules

def priceRecords : List (Proc (Tx World) Error (Option PendingAlert)) :=
  if config.priceFeedEnabled then [pricesRecord D env.prices env.now pools] else []

def tokenRecords : List (Proc (Tx World) Error (Option PendingAlert)) :=
  assets.zipIdx.map fun c =>
    ingestToken D (env.token c.2) env.now c.1 config.holderDropThresholdPct rules

/-- The records of the batch. -/
def batchRecords : List (Proc (Tx World) Error (Option PendingAlert)) :=
  poolRecords D config env rules pools ++ priceRecords D config env pools ++
    tokenRecords D config env rules assets

theorem collectAlert_eq (pending : List PendingAlert)
    (m : Proc (Tx World) Error (Option PendingAlert)) :
    collectAlert pending m = collect pending m := by
  funext t
  rw [collect_apply, collectAlert, Proc.bind_apply, Proc.attempt_apply]
  generalize m t = r
  obtain ⟨o, t'⟩ := r
  cases o with
  | ret a => cases a <;> simp
  | err e => rfl
  | stop => rfl
  | panic => rfl

/-- The body of the snapshot transaction is the batch of its records. -/
theorem batchBody_eq :
    batchBody D config env rules pools assets =
      collectAll (batchRecords D config env rules pools assets) [] := by
  have hprices : ∀ pending : List PendingAlert,
      collectAll (priceRecords D config env pools) pending =
      (if config.priceFeedEnabled then do
        let _ ← (ingestPrices D env.prices env.now pools).attempt
        return pending
      else return pending) := by
    intro pending
    unfold priceRecords
    split_ifs
    · funext t
      simp only [collectAll, List.foldlM_cons, List.foldlM_nil, pricesRecord]
      rw [Proc.bind_apply, Proc.bind_apply, collect_apply, Proc.bind_apply, Proc.attempt_apply]
      generalize ingestPrices D env.prices env.now pools t = r
      obtain ⟨o, t'⟩ := r
      cases o <;> simp
    · rfl
  unfold batchBody
  rw [batchRecords, collectAll_append, collectAll_append, bind_assoc]
  simp only [collectAlert_eq, hprices]
  simp only [collectAll, poolRecords, tokenRecords, List.foldlM_map]
  refine congrArg _ (funext fun pending => ?_)
  split_ifs
  · rw [bind_assoc]
    refine congrArg _ (funext fun _ => ?_)
    rw [pure_bind]
  · rw [pure_bind]

variable {D config env rules pools} in
/-- What holds of every pool, of the price discovery and of every token holds of the records. -/
theorem forall_batchRecords {P : Proc (Tx World) Error (Option PendingAlert) → Prop}
    (hpool : ∀ calls lp, P (ingestPool D calls env.now lp config.liquidityDropThresholdPct rules))
    (hprices : P (pricesRecord D env.prices env.now pools))
    (htoken : ∀ calls a, P (ingestToken D calls env.now a config.holderDropThresholdPct rules)) :
    ∀ m ∈ batchRecords D config env rules pools assets, P m := by
  intro m hm
  simp only [batchRecords, poolRecords, tokenRecords, priceRecords, List.mem_append,
    List.mem_map] at hm
  rcases hm with (⟨c, -, rfl⟩ | hm) | ⟨c, -, rfl⟩
  · exact hpool _ _
  · split_ifs at hm
    · obtain rfl := List.mem_singleton.1 hm
      exact hprices
    · simp at hm
  · exact htoken _ _

theorem record_batchRecords : ∀ m ∈ batchRecords D config env rules pools assets, Record m := by
  refine forall_batchRecords assets (fun calls lp => ?_) (record_pricesRecord _ _ _)
    fun calls a => ?_
  · exact record_snapshotOf
  · rw [ingestToken_eq]
    exact record_snapshotOf

/-- The batch moves the store as its statements do. -/
theorem within_batchRecords {R : World → World → Prop} [IsPreorder World R]
    (hpool : ∀ row (w : World), R w { w with db := upsertPool row w.db })
    (hpools : ∀ row (w : World), R w { w with db := insertPoolSnapshot row w.db })
    (htoken : ∀ row (w : World), R w { w with db := upsertToken row w.db })
    (htokens : ∀ row (w : World), R w { w with db := insertTokenSnapshot row w.db })
    (hprice : ∀ now asset price source (w : World),
      R w { w with db := insertAssetPrice now asset price source w.db }) :
    ∀ m ∈ batchRecords D config env rules pools assets, Proc.Within (Tx.Via R) m := by
  refine forall_batchRecords assets (fun calls lp => ?_) (within_pricesRecord hprice _ _ _)
    fun calls a => ?_
  · rw [ingestPool_eq]
    exact within_snapshotOf (fun _ => hpool _) (fun _ => hpools _)
  · rw [ingestToken_eq]
    exact within_snapshotOf (fun _ => htoken _) (fun _ => htokens _)

end Batch

end Lumina
