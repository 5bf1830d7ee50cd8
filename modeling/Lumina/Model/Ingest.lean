import Lumina.Model.Pricing
import Lumina.Model.Soroban

/-!
# The ingester

One cycle polls Horizon: it writes a snapshot of every pool and token and the derived prices in
one transaction, records the alerts of the drops it saw, and then walks the payments after its
cursor in a second transaction.  Where Blend pools are configured, a cycle of the lending
ingester follows.

## Main definitions

* `ingestPool`, `ingestToken`, `ingestWhalePayment` : one record.
* `commitBatch`, `commitPayments` : the two transactions.
* `runOnce`, `ingestCycle` : one cycle.
-/

namespace Lumina

/-! ### Statements -/

/-- `latest_pool_total_shares`. -/
def latestPoolTotalShares (tie : ℕ) (poolId : String) (db : Db) : Option Decimal :=
  (Sql.latest tie (·.time) (db.poolSnapshots.filter fun s => s.poolId = poolId)).map
    (·.totalShares)

/-- `upsert_pool`, which keeps an existing row. -/
def upsertPool (row : PoolRow) (db : Db) : Db :=
  if db.pools.any fun p => p.poolId = row.poolId then db
  else { db with pools := db.pools ++ [row] }

/-- `insert_pool_snapshot`. -/
def insertPoolSnapshot (row : PoolSnapshotRow) (db : Db) : Db :=
  { db with poolSnapshots := db.poolSnapshots ++ [row] }

/-- `latest_token_num_accounts`. -/
def latestTokenNumAccounts (tie : ℕ) (assetCode assetIssuer : String) (db : Db) : Option ℤ :=
  (Sql.latest tie (·.time) (db.tokenSnapshots.filter fun s =>
    s.assetCode = assetCode && s.assetIssuer = assetIssuer)).map (·.numAccounts)

/-- `upsert_token`, which keeps an existing row. -/
def upsertToken (row : TokenRow) (db : Db) : Db :=
  if row ∈ db.tokens then db else { db with tokens := db.tokens ++ [row] }

/-- `insert_token_snapshot`. -/
def insertTokenSnapshot (row : TokenSnapshotRow) (db : Db) : Db :=
  { db with tokenSnapshots := db.tokenSnapshots ++ [row] }

/-- `insert_whale_transaction`: whether a row was inserted, which the unique index on operation
id and time prevents for a row that has both. -/
def insertWhaleTransaction (row : WhaleTransactionRow) (db : Db) : Bool × Db :=
  if db.whaleTransactions.any fun w => w.opId = row.opId && w.time = row.time then (false, db)
  else (true, { db with whaleTransactions := db.whaleTransactions ++ [row] })

/-! ### Pools and tokens -/

/-- The digits of a decimal numeral. -/
def parseDigits (s : List Char) : Option ℕ :=
  if s = [] then none
  else s.foldlM (fun n c => if c.isDigit then some (10 * n + (c.toNat - '0'.toNat)) else none) 0

/-- `str::parse::<i32>`. -/
def parseI32 (s : String) : Option ℤ :=
  let value : Option ℤ :=
    match s.toList with
    | '-' :: rest => (parseDigits rest).map fun n => -(n : ℤ)
    | '+' :: rest => (parseDigits rest).map fun n => (n : ℤ)
    | rest => (parseDigits rest).map fun n => (n : ℤ)
  value.filter fun n => -2 ^ 31 ≤ n && n < 2 ^ 31

/-- The percentage of a drop that clears its threshold.  The outer option is the panic of the
arithmetic. -/
def dropGate (D : RustDecimal) (previous now thresholdPct : Decimal) :
    Option (Option Decimal) := do
  match ← percentChange D previous now with
  | none => return none
  | some pctChange =>
    if ¬ pctChange < 0 then return none
    else if -pctChange < thresholdPct then return none
    else return some (-pctChange)

/-- The environment of the three statements of one pool or token. -/
structure SnapshotEnv where
  /-- The choice of the database among the latest snapshots that tie. -/
  tie : ℕ
  latest : Fault
  upsert : Fault
  insert : Fault

/-- The snapshot of a pool: the amounts that must parse, and the row. -/
def poolSnapshot (D : RustDecimal) (now : Time) (lp : LiquidityPool) :
    Outcome Error (PoolReserve × PoolReserve × PoolSnapshotRow) :=
  match lp.reserves with
  | assetA :: assetB :: _ => do
    let reserveA ← Outcome.ofOption .decimal (D.fromStr assetA.amount)
    let reserveB ← Outcome.ofOption .decimal (D.fromStr assetB.amount)
    let totalShares ← Outcome.ofOption .decimal (D.fromStr lp.totalShares)
    let trustlineCount := (parseI32 lp.totalTrustlines).getD 0
    return (assetA, assetB, ⟨now, lp.id, reserveA, reserveB, totalShares, trustlineCount⟩)
  | _ => .err (.msg ("pool " ++ lp.id ++ " has fewer than 2 reserves"))

/-- The alert of a pool whose shares dropped; the outer option is the panic of the
arithmetic. -/
def poolAlert (D : RustDecimal) (lp : LiquidityPool) (assetA assetB : PoolReserve)
    (thresholdPct : Decimal) (previousShares : Option Decimal) (totalShares : Decimal) :
    Option (Option PendingAlert) :=
  match previousShares with
  | none => some none
  | some previousShares => do
    match ← dropGate D previousShares totalShares thresholdPct with
    | none => return none
    | some dropPct => do
      let severity ← severityForLiquidityDrop D dropPct thresholdPct
      return some
        { kind := "liquidity_drop"
          severity := severity
          message := [.str "Liquidity drop: pool ", .str lp.id, .str " (", .str assetA.asset,
            .str "/", .str assetB.asset, .str ") total shares fell ", .dec1 dropPct, .str "% (",
            .dec previousShares, .str " -> ", .dec totalShares, .str ")"]
          details := [("pool_id", some [.str lp.id]), ("asset_a", some [.str assetA.asset]),
            ("asset_b", some [.str assetB.asset]), ("shares_before", some [.dec previousShares]),
            ("shares_now", some [.dec totalShares]), ("drop_pct", some [.dec dropPct])] }

/-- Ingests one pool's snapshot. -/
def ingestPool (D : RustDecimal) (env : SnapshotEnv) (now : Time) (lp : LiquidityPool)
    (defaultThresholdPct : Decimal) (rules : List AlertRuleRow) :
    Proc (Tx World) Error (Option PendingAlert) := do
  let thresholdPct := resolveLiquidityDropThresholdPct rules lp.id defaultThresholdPct
  let (assetA, assetB, row) ← Proc.lift (poolSnapshot D now lp)
  let previousShares ← Tx.fetch env.latest (latestPoolTotalShares env.tie lp.id)
  Tx.exec env.upsert (upsertPool ⟨lp.id, assetA.asset, assetB.asset, lp.feeBp⟩)
  Tx.exec env.insert (insertPoolSnapshot row)
  Proc.lift (.orPanic (poolAlert D lp assetA assetB thresholdPct previousShares row.totalShares))

/-- The snapshot of a token. -/
def tokenSnapshot (D : RustDecimal) (now : Time) (a : AssetRecord) : TokenSnapshotRow :=
  ⟨now, a.assetCode, a.assetIssuer, (D.fromStr a.balancesAuthorized).getD 0,
    a.accountsAuthorized, a.numClaimableBalances⟩

/-- The alert of a token whose holders dropped; the outer option is the panic of the
arithmetic. -/
def tokenAlert (D : RustDecimal) (a : AssetRecord) (thresholdPct : Decimal)
    (previousNumAccounts : Option ℤ) : Option (Option PendingAlert) :=
  match previousNumAccounts with
  | none => some none
  | some previousNumAccounts => do
    match ← dropGate D previousNumAccounts a.accountsAuthorized thresholdPct with
    | none => return none
    | some dropPct => do
      let severity ← severityForHolderDrop D dropPct thresholdPct
      return some
        { kind := "holder_drop"
          severity := severity
          message := [.str "Holder drop: ", .str a.assetCode, .str " (", .str a.assetIssuer,
            .str ") holder count fell ", .dec1 dropPct, .str "% (", .int previousNumAccounts,
            .str " -> ", .int a.accountsAuthorized, .str ")"]
          details := [("asset_code", some [.str a.assetCode]),
            ("asset_issuer", some [.str a.assetIssuer]),
            ("holders_before", some [.int previousNumAccounts]),
            ("holders_now", some [.int a.accountsAuthorized]),
            ("drop_pct", some [.dec dropPct])] }

/-- Ingests one asset's snapshot. -/
def ingestToken (D : RustDecimal) (env : SnapshotEnv) (now : Time) (a : AssetRecord)
    (defaultThresholdPct : Decimal) (rules : List AlertRuleRow) :
    Proc (Tx World) Error (Option PendingAlert) := do
  let thresholdPct := resolveHolderDropThresholdPct rules a.assetCode (some a.assetIssuer)
    defaultThresholdPct
  let previousNumAccounts ← Tx.fetch env.latest
    (latestTokenNumAccounts env.tie a.assetCode a.assetIssuer)
  Tx.exec env.upsert (upsertToken ⟨a.assetCode, a.assetIssuer⟩)
  Tx.exec env.insert (insertTokenSnapshot (tokenSnapshot D now a))
  Proc.lift (.orPanic (tokenAlert D a thresholdPct previousNumAccounts))

/-- Adds the alert of one record to the pending ones; an error of the record is logged and
skipped. -/
def collectAlert (pending : List PendingAlert) (m : Proc (Tx World) Error (Option PendingAlert)) :
    Proc (Tx World) Error (List PendingAlert) := do
  match ← m.attempt with
  | .ok (some alert) => return pending ++ [alert]
  | .ok none => return pending
  -- the batch goes on in the same transaction
  | .error _ => return pending

/-- The loop that records pending alerts; an error of one alert is logged. -/
def recordAll (env : ℕ → RecordEnv) (config : WebhookConfig) (pending : List PendingAlert) :
    Proc World Error Unit :=
  pending.zipIdx.foldlM (fun _ (alert, i) => do
    let _ ← (record (env i) config alert).attempt) ()

/-! ### Payments -/

/-- The environment of one whale payment. -/
structure WhaleEnv where
  /-- The clock when the row is inserted. -/
  now : Time
  insert : Fault

/-- The whale threshold of a payment's asset. -/
def whaleThreshold (D : RustDecimal) (defaultThreshold : F64) (rules : List AlertRuleRow)
    (p : PaymentRecord) : Decimal :=
  let asset := resolvePaymentAsset p.assetType p.assetCode p.assetIssuer
  resolveWhaleThreshold rules asset.1 asset.2 ((D.tryFromF64 defaultThreshold).getD 0)

/-- The amount of a payment that meets its threshold. -/
def paymentWhaleAmount (D : RustDecimal) (defaultThreshold : F64) (rules : List AlertRuleRow)
    (p : PaymentRecord) : Outcome Error (Option Decimal) :=
  match p.amount with
  | none => .ret none
  | some rawAmount => do
    let amount ← Outcome.ofOption .decimal (D.fromStr rawAmount)
    return whaleAmount p.opType (some amount) (whaleThreshold D defaultThreshold rules p)

/-- The row of a whale payment. -/
def whaleRow (time : Time) (p : PaymentRecord) (amount : Decimal) : WhaleTransactionRow :=
  let asset := resolvePaymentAsset p.assetType p.assetCode p.assetIssuer
  ⟨time, p.id, p.transactionHash, (p.fromAccount <|> p.sourceAccount).getD "", p.toAccount,
    asset.1, asset.2, amount⟩

/-- The alert of a whale payment; `none` is the panic of the arithmetic. -/
def whaleAlert (D : RustDecimal) (row : WhaleTransactionRow) (threshold : Decimal) :
    Option PendingAlert := do
  let severity ← severityForWhaleMultiple D row.amount threshold
  let dest := match row.destAccount with
    | some dest => [Piece.str " to ", .str dest]
    | none => []
  return { kind := "whale_payment"
           severity := severity
           message := [.str "Whale payment: ", .dec row.amount, .str " ", .str row.assetCode,
             .str " from ", .str row.sourceAccount] ++ dest
           details := [("tx_hash", some [.str row.txHash]),
             ("asset_code", some [.str row.assetCode]),
             ("asset_issuer", row.assetIssuer.map fun s => [.str s]),
             ("amount", some [.dec row.amount]),
             ("source_account", some [.str row.sourceAccount]),
             ("dest_account", row.destAccount.map fun s => [.str s])] }

/-- Records a payment that meets its whale threshold; the alert of a newly recorded one. -/
def ingestWhalePayment (D : RustDecimal) (env : WhaleEnv) (p : PaymentRecord)
    (defaultThreshold : F64) (rules : List AlertRuleRow) :
    Proc (Tx World) Error (Option PendingAlert) := do
  match ← Proc.lift (paymentWhaleAmount D defaultThreshold rules p) with
  | none => return none
  | some amount => do
    let row := whaleRow env.now p amount
    let inserted ← Tx.execReturning env.insert (insertWhaleTransaction row)
    -- the row was there already
    if ¬ inserted then return none
    else do
      let alert ← Proc.lift
        (.orPanic (whaleAlert D row (whaleThreshold D defaultThreshold rules p)))
      return some alert

def paymentsCursorKey : String := "horizon_payments_cursor"

def maxPagesPerCycle : ℕ := 25

/-- The environment of `ingestPayments`. -/
structure PaymentsEnv where
  getCursor : Fault
  server : Server PaymentRecord
  /-- The write of the first cursor. -/
  seed : Fault
  start : Fault
  whale : ℕ → WhaleEnv
  setCursor : Fault
  commit : Fault
  record : ℕ → RecordEnv

section Payments

variable (D : RustDecimal) (config : Config) (env : PaymentsEnv) (rules : List AlertRuleRow)

/-- The loop over the payments: the pending alerts and the cursor after the last one. -/
def ingestWhalePayments (payments : List PaymentRecord) (cursor : String) :
    Proc (Tx World) Error (List PendingAlert × String) :=
  payments.zipIdx.foldlM (fun (pending, _) (p, i) => do
    match ← ingestWhalePayment D (env.whale i) p config.whaleThreshold rules with
    | some alert => return (pending ++ [alert], p.pagingToken)
    | none => return (pending, p.pagingToken)) ([], cursor)

/-- The statements of the payments transaction: the pending alerts. -/
def paymentsBody (payments : List PaymentRecord) (cursor : String) :
    Proc (Tx World) Error (List PendingAlert) := do
  let (pending, lastCursor) ← ingestWhalePayments D config env rules payments cursor
  Tx.exec env.setCursor (setIngestCursor paymentsCursorKey lastCursor)
  return pending

/-- `ingestPayments` up to its commit: the pending alerts. -/
def commitPayments : Proc World Error (List PendingAlert) := do
  match ← fetch env.getCursor (getIngestCursor paymentsCursorKey) with
  | none => do
    let latest ← Proc.lift (Horizon.latestPaymentsPage env.server config.horizonUrl 1)
    match latest.head? with
    | none => pure ()
    -- history is not read: the first cycle only marks where to begin
    | some newest => exec env.seed (setIngestCursor paymentsCursorKey newest.pagingToken)
    return []
  | some cursor => do
    let payments ← Proc.lift
      (Horizon.paymentsSince env.server config.horizonUrl (some cursor) maxPagesPerCycle)
    if payments = [] then return []
    else transaction env.start env.commit .db (paymentsBody D config env rules payments cursor)

/-- Walks the payments forward from the cursor; the first run only seeds the cursor. -/
def ingestPayments : Proc World Error Unit := do
  let pending ← commitPayments D config env rules
  recordAll env.record config.webhook pending

end Payments

/-! ### Cycles -/

/-- The environment of `runOnce`. -/
structure RunEnv where
  now : Time
  pools : Server LiquidityPool
  assets : Server AssetRecord
  rules : Fault
  start : Fault
  pool : ℕ → SnapshotEnv
  prices : PricesEnv
  token : ℕ → SnapshotEnv
  commit : Fault
  record : ℕ → RecordEnv
  payments : PaymentsEnv

section Run

variable (D : RustDecimal) (config : Config) (env : RunEnv)

/-- The statements of the snapshot transaction: the pending alerts. -/
def batchBody (rules : List AlertRuleRow) (pools : List LiquidityPool)
    (assets : List AssetRecord) : Proc (Tx World) Error (List PendingAlert) := do
  let pending ← pools.zipIdx.foldlM (fun pending (lp, i) =>
    collectAlert pending
      (ingestPool D (env.pool i) env.now lp config.liquidityDropThresholdPct rules)) []
  -- an error of the price discovery is logged
  if config.priceFeedEnabled then
    let _ ← (ingestPrices D env.prices env.now pools).attempt
  assets.zipIdx.foldlM (fun pending (a, i) =>
    collectAlert pending
      (ingestToken D (env.token i) env.now a config.holderDropThresholdPct rules)) pending

/-- The snapshot transaction. -/
def commitBatch (rules : List AlertRuleRow) (pools : List LiquidityPool)
    (assets : List AssetRecord) : Proc World Error (List PendingAlert) :=
  transaction env.start env.commit .db (batchBody D config env rules pools assets)

/-- The snapshots, their alerts, and then the payments. -/
def runOnce : Proc World Error Unit := do
  let pools ← Proc.lift (Horizon.liquidityPools env.pools config.horizonUrl 10)
  let assets ← Proc.lift (Horizon.assets env.assets config.horizonUrl 10)
  let rules ← loadRules env.rules
  let pending ← commitBatch D config env rules pools assets
  -- the alerts wait in memory until the snapshots are committed
  recordAll env.record config.webhook pending
  ingestPayments D config env.payments rules

end Run

/-- The environment of one cycle of the main loop. -/
structure CycleEnv where
  run : RunEnv
  lending : LendingEnv

/-- One cycle of the main loop; an error of either part is logged. -/
def ingestCycle (D : RustDecimal) (X : Codec) (config : Config) (env : CycleEnv) :
    Proc World Error Unit := do
  let _ ← (runOnce D config env.run).attempt
  let blendPools := config.blendPoolIds
  if blendPools ≠ [] then
    let _ ← (ingestLendingCycle D X config env.lending blendPools).attempt

end Lumina
