import Lumina.Model.Rows
import Lumina.Sql.Latest
import Mathlib.Data.List.Sort

/-!
# The TVL series

`tvl_series` sums the native XLM reserves of the pool snapshots by the hour, with the value of
each snapshot at the XLM price recorded at or before it.  The sums and products of `NUMERIC` are
exact.

## Main definitions

* `tvlRows` : the snapshots joined with their pool and their XLM price.
* `tvlSeries` : the points, one for each hour that has a snapshot.
-/

namespace Lumina

/-- An hour, in microseconds. -/
def hour : Time := 3600000000

/-- `time_bucket('1 hour', time)`. -/
def timeBucket (time : Time) : Time := time - time % hour

/-- The native reserve of a snapshot, by the legs of its pool. -/
def nativeAmount (pool : PoolRow) (s : PoolSnapshotRow) : Decimal :=
  (if pool.assetA = "native" then s.reserveA else 0) +
    if pool.assetB = "native" then s.reserveB else 0

/-- The XLM price recorded at or before a time, with `tie` choosing among those that tie. -/
def xlmPriceAt (tie : ℕ) (time : Time) (db : Db) : Option Decimal :=
  (Sql.latest tie (·.time) (db.assetPrices.filter fun p =>
    p.assetCode = "XLM" && p.assetIssuer = "" && p.time ≤ time)).map (·.priceUsd)

/-- A row of the inner query. -/
structure TvlRow where
  time : Time
  poolId : String
  nativeAmount : Decimal
  priceUsd : Option Decimal
  deriving DecidableEq

/-- The inner query; `tie i` chooses the price of the snapshot in place `i` of the table. -/
def tvlRows (tie : ℕ → ℕ) (since : Time) (db : Db) : List TvlRow :=
  -- one row for each snapshot, however many a pool has in the bucket
  (db.poolSnapshots.zipIdx.filter fun c => since ≤ c.1.time).flatMap fun c =>
    (db.pools.filter fun p => p.poolId = c.1.poolId).map fun p =>
      ⟨c.1.time, c.1.poolId, nativeAmount p c.1, xlmPriceAt (tie c.2) c.1.time db⟩

structure TvlPointRaw where
  bucket : Time
  poolCount : ℕ
  totalReserveNative : Decimal
  totalReserveUsdRaw : Decimal
  hasPrice : Bool

structure TvlPoint where
  bucket : Time
  poolCount : ℕ
  totalReserveNative : Decimal
  /-- `none` for buckets before the first XLM price. -/
  totalReserveUsd : Option Decimal
  deriving DecidableEq

/-- `impl From<TvlPointRaw> for TvlPoint`. -/
def TvlPoint.ofRaw (r : TvlPointRaw) : TvlPoint where
  bucket := r.bucket
  poolCount := r.poolCount
  totalReserveNative := r.totalReserveNative
  totalReserveUsd := if r.hasPrice then some r.totalReserveUsdRaw else none

/-- The aggregates of the rows of one bucket. -/
def tvlPointRaw (bucket : Time) (rows : List TvlRow) : TvlPointRaw where
  bucket := bucket
  poolCount := (rows.map (·.poolId)).dedup.length
  totalReserveNative := (rows.map (·.nativeAmount)).sum
  totalReserveUsdRaw := (rows.map fun r => r.nativeAmount * r.priceUsd.getD 0).sum
  hasPrice := rows.any (·.priceUsd.isSome)

/-- `tvl_series`. -/
def tvlSeries (tie : ℕ → ℕ) (since : Time) (db : Db) : List TvlPoint :=
  let rows := tvlRows tie since db
  (((rows.map fun r => timeBucket r.time).dedup).insertionSort (· ≤ ·)).map fun bucket =>
    TvlPoint.ofRaw (tvlPointRaw bucket (rows.filter fun r => timeBucket r.time = bucket))

end Lumina
