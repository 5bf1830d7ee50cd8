import Lumina.Model.Config
import Lumina.Model.Tvl
import Lumina.Sql.Page

/-!
# The queries of the API

The parameters of the endpoints that read, and the queries behind them.  The order of rows that a
query does not order, and of those that tie, is the environment's (`Sql.Visit`), as is the choice
among the rows of one key that share a time.

## Main definitions

* `PageQuery`, `RangeQuery` : the parameters, with their defaults and bounds.
* `listPoolsWithLatest`, `listTokensWithLatest` : one page.
* `poolTrends`, `tokenTrends` : the first and the last snapshot of a window, and the change.
* `poolHistory`, `tokenHistory`, `listWhaleTransactions`, `search`, `listAlerts`.
-/

namespace Lumina

/-! ### Parameters -/

def defaultPageSize : ℤ := 500

def maxPageSize : ℤ := 2000

/-- The page that a request asks for. -/
structure PageQuery where
  limit : Option ℤ
  offset : Option ℤ
  deriving DecidableEq

/-- `PageQuery::limit`. -/
def PageQuery.pageLimit (q : PageQuery) : ℤ :=
  max 1 (min maxPageSize (q.limit.getD defaultPageSize))

/-- `PageQuery::offset`. -/
def PageQuery.pageOffset (q : PageQuery) : ℤ := max 0 (q.offset.getD 0)

/-- The window that a request asks for. -/
structure RangeQuery where
  hours : Option ℤ
  deriving DecidableEq

/-- The hours of the window. -/
def RangeQuery.hoursOr (q : RangeQuery) : ℤ := q.hours.getD 24

/-- The greatest number of whole seconds in a `chrono::Duration`. -/
def maxDurationSecs : ℤ := 9223372036854775

/-- The ends of the times of `chrono`, the years from -262143 to 262142. -/
def minUtc : Time := -96465292 * 24 * hour

def maxUtc : Time := 95026237 * 24 * hour - 1

/-- `Utc::now() - Duration::hours(hours)`; `none` where it panics. -/
def hoursBefore (now : Time) (hours : ℤ) : Option Time :=
  if maxDurationSecs < |hours * 3600| then none
  else if now - hours * hour < minUtc || maxUtc < now - hours * hour then none
  else some (now - hours * hour)

/-! ### Pools -/

structure PoolWithLatest where
  poolId : String
  assetA : String
  assetB : String
  feeBp : ℤ
  time : Option Time
  reserveA : Option Decimal
  reserveB : Option Decimal
  totalShares : Option Decimal
  trustlineCount : Option ℤ
  deriving DecidableEq

/-- The pool of a row. -/
def PoolWithLatest.pool (r : PoolWithLatest) : PoolRow := ⟨r.poolId, r.assetA, r.assetB, r.feeBp⟩

/-- The snapshots of a pool. -/
def snapshotsOfPool (db : Db) (poolId : String) : List PoolSnapshotRow :=
  db.poolSnapshots.filter fun s => s.poolId = poolId

/-- A pool joined with its newest snapshot. -/
def poolWithLatest (tie : ℕ) (db : Db) (p : PoolRow) : PoolWithLatest :=
  let s := Sql.latest tie (·.time) (snapshotsOfPool db p.poolId)
  { poolId := p.poolId
    assetA := p.assetA
    assetB := p.assetB
    feeBp := p.feeBp
    time := s.map (·.time)
    reserveA := s.map (·.reserveA)
    reserveB := s.map (·.reserveB)
    totalShares := s.map (·.totalShares)
    trustlineCount := s.map (·.trustlineCount) }

/-- `list_pools_with_latest`; `tie` chooses the snapshot of each pool. -/
def listPoolsWithLatest (visit : Sql.Visit PoolWithLatest) (tie : String → ℕ) (limit offset : ℤ)
    (db : Db) : List PoolWithLatest :=
  Sql.limitOffset limit.toNat offset.toNat
    (Sql.orderByDesc visit (fun r => Sql.nullsLast r.totalShares)
      (db.pools.map fun p => poolWithLatest (tie p.poolId) db p))

/-! ### Tokens -/

structure TokenWithLatest where
  assetCode : String
  assetIssuer : String
  time : Option Time
  amount : Option Decimal
  numAccounts : Option ℤ
  numClaimableBalances : Option ℤ
  deriving DecidableEq

/-- The token of a row. -/
def TokenWithLatest.token (r : TokenWithLatest) : TokenRow := ⟨r.assetCode, r.assetIssuer⟩

/-- The snapshots of a token. -/
def snapshotsOfToken (db : Db) (t : TokenRow) : List TokenSnapshotRow :=
  db.tokenSnapshots.filter fun s => s.assetCode = t.assetCode && s.assetIssuer = t.assetIssuer

/-- A token joined with its newest snapshot. -/
def tokenWithLatest (tie : ℕ) (db : Db) (t : TokenRow) : TokenWithLatest :=
  let s := Sql.latest tie (·.time) (snapshotsOfToken db t)
  { assetCode := t.assetCode
    assetIssuer := t.assetIssuer
    time := s.map (·.time)
    amount := s.map (·.amount)
    numAccounts := s.map (·.numAccounts)
    numClaimableBalances := s.map (·.numClaimableBalances) }

/-- `list_tokens_with_latest`; `tie` chooses the snapshot of each token. -/
def listTokensWithLatest (visit : Sql.Visit TokenWithLatest) (tie : TokenRow → ℕ)
    (limit offset : ℤ) (db : Db) : List TokenWithLatest :=
  Sql.limitOffset limit.toNat offset.toNat
    (Sql.orderByDesc visit (fun r => Sql.nullsLast r.numAccounts)
      (db.tokens.map fun t => tokenWithLatest (tie t) db t))

/-! ### Trends -/

structure PoolTrendRaw where
  poolId : String
  assetA : String
  assetB : String
  feeBp : ℤ
  firstTime : Time
  lastTime : Time
  sharesBefore : Decimal
  sharesNow : Decimal
  reserveANow : Decimal
  reserveBNow : Decimal
  deriving DecidableEq

structure PoolTrend extends PoolTrendRaw where
  sharesChangePct : Option Decimal
  deriving DecidableEq

structure TokenTrendRaw where
  assetCode : String
  assetIssuer : String
  firstTime : Time
  lastTime : Time
  amountBefore : Decimal
  amountNow : Decimal
  holdersBefore : ℤ
  holdersNow : ℤ
  deriving DecidableEq

structure TokenTrend extends TokenTrendRaw where
  /-- `none` from a starting count of zero. -/
  holdersChangePct : Option Decimal
  deriving DecidableEq

/-- The choices of a trend query: the order of its rows, and the first and the last snapshot among
those that tie. -/
structure TrendEnv (β κ : Type) where
  visit : Sql.Visit β
  tieFirst : κ → ℕ
  tieLast : κ → ℕ

/-- The first snapshot of each key, and the last one. -/
def earliest {σ κ : Type} [DecidableEq κ] (tie : κ → ℕ) (key : σ → κ) (time : σ → Time)
    (rows : List σ) : List σ :=
  Sql.distinctOn tie key (fun s => OrderDual.toDual (time s)) rows

/-- `pool_trends`. -/
def poolTrends (env : TrendEnv PoolTrendRaw String) (since : Time) (db : Db) :
    List PoolTrendRaw :=
  let rows := db.poolSnapshots.filter fun s => since ≤ s.time
  let first := earliest env.tieFirst (·.poolId) (·.time) rows
  let last := Sql.distinctOn env.tieLast (·.poolId) (·.time) rows
  env.visit.order <| db.pools.flatMap fun p =>
    (first.filter fun e => e.poolId = p.poolId).flatMap fun e =>
      (last.filter fun l => l.poolId = p.poolId && e.time < l.time).map fun l =>
        ⟨p.poolId, p.assetA, p.assetB, p.feeBp, e.time, l.time, e.totalShares, l.totalShares,
          l.reserveA, l.reserveB⟩

/-- `token_trends`. -/
def tokenTrends (env : TrendEnv TokenTrendRaw (String × String)) (since : Time) (db : Db) :
    List TokenTrendRaw :=
  let rows := db.tokenSnapshots.filter fun s => since ≤ s.time
  let first := earliest env.tieFirst (fun s => (s.assetCode, s.assetIssuer)) (·.time) rows
  let last := Sql.distinctOn env.tieLast (fun s => (s.assetCode, s.assetIssuer)) (·.time) rows
  env.visit.order <| first.flatMap fun e =>
    (last.filter fun l =>
      l.assetCode = e.assetCode && l.assetIssuer = e.assetIssuer && e.time < l.time).map fun l =>
        ⟨e.assetCode, e.assetIssuer, e.time, l.time, e.amount, l.amount, e.numAccounts,
          l.numAccounts⟩

/-- `sort_by_key(Reverse(pct))`, a stable sort with the missing values last. -/
def sortByPct {β : Type} (pct : β → Option Decimal) (trends : List β) : List β :=
  trends.insertionSort fun a b => Sql.nullsLast (pct b) ≤ Sql.nullsLast (pct a)

/-- The trends with their changes, the greatest first; `none` is the panic of the arithmetic. -/
def poolTrendsSorted (D : RustDecimal) (raw : List PoolTrendRaw) : Option (List PoolTrend) := do
  let trends ← raw.mapM fun r => do
    let pct ← percentChange D r.sharesBefore r.sharesNow
    return { r with sharesChangePct := pct : PoolTrend }
  return sortByPct (·.sharesChangePct) trends

/-- The trends with their changes, the greatest first; `none` is the panic of the arithmetic. -/
def tokenTrendsSorted (D : RustDecimal) (raw : List TokenTrendRaw) : Option (List TokenTrend) := do
  let trends ← raw.mapM fun r => do
    let pct ← percentChange D r.holdersBefore r.holdersNow
    return { r with holdersChangePct := pct : TokenTrend }
  return sortByPct (·.holdersChangePct) trends

/-! ### Histories -/

/-- `ORDER BY time ASC`. -/
def orderByTime {σ : Type} (visit : Sql.Visit σ) (time : σ → Time) (rows : List σ) : List σ :=
  Sql.orderByDesc visit (fun s => OrderDual.toDual (time s)) rows

/-- `pool_history`. -/
def poolHistory (visit : Sql.Visit PoolSnapshotRow) (poolId : String) (since : Time) (db : Db) :
    List PoolSnapshotRow :=
  orderByTime visit (·.time) (db.poolSnapshots.filter fun s => s.poolId = poolId && since ≤ s.time)

/-- `token_history`. -/
def tokenHistory (visit : Sql.Visit TokenSnapshotRow) (assetCode assetIssuer : String)
    (since : Time) (db : Db) : List TokenSnapshotRow :=
  orderByTime visit (·.time) (db.tokenSnapshots.filter fun s =>
    s.assetCode = assetCode && s.assetIssuer = assetIssuer && since ≤ s.time)

/-! ### Whale payments -/

/-- A whale payment with its value, where the asset has a price. -/
structure WhaleTransactionUsd where
  time : Time
  txHash : String
  sourceAccount : String
  destAccount : Option String
  assetCode : String
  assetIssuer : Option String
  amount : Decimal
  amountUsd : Option Decimal
  deriving DecidableEq

/-- The price of a payment's asset recorded at or before it. -/
def assetPriceAt (tie : ℕ) (wt : WhaleTransactionRow) (db : Db) : Option Decimal :=
  (Sql.latest tie (·.time) (db.assetPrices.filter fun p =>
    p.assetCode = wt.assetCode && p.assetIssuer = wt.assetIssuer.getD "" &&
      p.time ≤ wt.time)).map (·.priceUsd)

/-- `list_whale_transactions`; `tie` chooses the price of each payment. -/
def listWhaleTransactions (visit : Sql.Visit WhaleTransactionUsd) (tie : WhaleTransactionRow → ℕ)
    (minAmount : Decimal) (limit : ℤ) (account : Option String) (db : Db) :
    List WhaleTransactionUsd :=
  let rows := (db.whaleTransactions.filter fun wt =>
    minAmount ≤ wt.amount &&
      (account = none || account = some wt.sourceAccount ||
        (wt.destAccount.isSome && account = wt.destAccount))).map fun wt =>
    { time := wt.time
      txHash := wt.txHash
      sourceAccount := wt.sourceAccount
      destAccount := wt.destAccount
      assetCode := wt.assetCode
      assetIssuer := wt.assetIssuer
      amount := wt.amount
      amountUsd := (assetPriceAt (tie wt) wt db).map (wt.amount * ·) : WhaleTransactionUsd }
  (Sql.orderByDesc visit (·.time) rows).take limit.toNat

/-! ### Search -/

structure SearchResultRow where
  resultType : String
  title : String
  subtitle : Option String
  key : String
  deriving DecidableEq

/-- `str::replace` of a character. -/
def replaceChar (c : Char) (replacement s : List Char) : List Char :=
  s.flatMap fun d => if d = c then replacement else [d]

/-- `search_like_pattern`. -/
def searchLikePattern (raw : String) : Option String :=
  let trimmed := trim raw.toList
  if (String.ofList trimmed).utf8ByteSize < 2 then none
  else
    let escaped := replaceChar '_' ['\\', '_']
      (replaceChar '%' ['\\', '%'] (replaceChar '\\' ['\\', '\\'] trimmed))
    some (String.ofList (['%'] ++ escaped ++ ['%']))

/-- The choices of the database in `search`: `ILIKE … ESCAPE` with its folding of case, the
collation of texts, and the order of the rows that tie. -/
structure SearchEnv where
  ilike : String → String → Bool
  collate : String → String → Bool
  visit : Sql.Visit SearchResultRow

/-- One of the three parts of the search. -/
def searchPart (env : SearchEnv) (column : SearchResultRow → String) (limit : ℤ)
    (rows : List SearchResultRow) : List SearchResultRow :=
  ((env.visit.order rows).insertionSort fun a b => env.collate (column a) (column b)).take
    limit.toNat

/-- `search`. -/
def search (env : SearchEnv) (pattern : String) (limit : ℤ) (db : Db) : List SearchResultRow :=
  let pools := (db.pools.filter fun p =>
    env.ilike p.assetA pattern || env.ilike p.assetB pattern || env.ilike p.poolId pattern).map
    fun p => ⟨"pool", p.assetA ++ "/" ++ p.assetB, some p.poolId, p.poolId⟩
  let tokens := (db.tokens.filter fun t =>
    env.ilike t.assetCode pattern || env.ilike t.assetIssuer pattern).map
    fun t => ⟨"token", t.assetCode, some t.assetIssuer, t.assetCode ++ ":" ++ t.assetIssuer⟩
  let accounts := (((db.whaleTransactions.map (·.sourceAccount)).filter (env.ilike · pattern) ++
    (db.whaleTransactions.filterMap (·.destAccount)).filter (env.ilike · pattern)).dedup).map
    fun account => ⟨"account", account, none, account⟩
  searchPart env (·.key) limit pools ++ searchPart env (·.title) limit tokens ++
    searchPart env (·.title) limit accounts

/-! ### Alerts -/

/-- The narrowing of a list of alerts. -/
structure AlertsQuery where
  limit : Option ℤ
  kind : Option String
  poolId : Option String
  assetCode : Option String
  assetIssuer : Option String
  unacknowledged : Bool
  deriving DecidableEq

/-- `$n IS NULL OR details ->> key = $n`. -/
def detailMatches (details : Json) (key : String) (wanted : Option String) : Bool :=
  match wanted with
  | none => true
  | some v => (details.find? fun e => e.1 = key).bind (·.2) = some [.str v]

/-- `list_alerts`. -/
def listAlerts (visit : Sql.Visit AlertRow) (limit : ℤ) (q : AlertsQuery) (db : Db) :
    List AlertRow :=
  (Sql.orderByDesc visit (·.time) (db.alerts.filter fun a =>
    (q.kind = none || q.kind = some a.kind) && detailMatches a.details "pool_id" q.poolId &&
      detailMatches a.details "asset_code" q.assetCode &&
      detailMatches a.details "asset_issuer" q.assetIssuer &&
      (!q.unacknowledged || a.acknowledgedAt = none))).take limit.toNat

end Lumina
