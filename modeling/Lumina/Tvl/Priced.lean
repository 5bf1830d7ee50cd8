import Lumina.Sql.Coalesce
import Lumina.Tvl.Stock

/-!
# TVL in USD

The value of an hour is the sum over its snapshots of the native reserve times the XLM price
recorded at or before the snapshot, with zero for a snapshot before the first price.  An hour has a
value as soon as one of its snapshots has a price.  That value lies between the total reserve at the
lowest and at the highest price exactly if the reserves without a price, taken at the lowest one,
are worth no more than what the others are worth above it (`tvl_usd_between_iff`).

## Main definitions

* `bucketRows`, `pricesSeen` : the rows of an hour, and the prices recorded up to some of them.
* `UsdBetween` : the value is between the total at the lowest and at the highest price.
* `LowCovered`, `HighCovered` : what the snapshots with a price make up for.
-/

namespace Lumina

open Sql

/-- The rows of a bucket. -/
def bucketRows (tie : ℕ → ℕ) (since bucket : Time) (db : Db) : List TvlRow :=
  (tvlRows tie since db).filter fun r => timeBucket r.time = bucket

/-- The XLM prices recorded at or before some of the rows. -/
def pricesSeen (rows : List TvlRow) (db : Db) : List Decimal :=
  (db.assetPrices.filter fun p =>
    p.assetCode = "XLM" && p.assetIssuer = "" && rows.any fun r => p.time ≤ r.time).map (·.priceUsd)

/-- The lowest and the highest of these prices. -/
def lowestPrice (rows : List TvlRow) (db : Db) : Decimal := lowest (pricesSeen rows db)

def highestPrice (rows : List TvlRow) (db : Db) : Decimal := highest (pricesSeen rows db)

/-- Where the point has a value, it is between its total at the lowest and at the highest price. -/
def UsdBetween (rows : List TvlRow) (db : Db) (p : TvlPoint) : Prop :=
  ∀ usd ∈ p.totalReserveUsd, lowestPrice rows db * p.totalReserveNative ≤ usd ∧
    usd ≤ highestPrice rows db * p.totalReserveNative

/-- The reserves without a price, at the given one, are worth no more than what those with a price
are worth above it. -/
def LowCovered (rows : List TvlRow) (price : Decimal) : Prop :=
  price * missing (·.nativeAmount) (·.priceUsd) rows ≤
    excess (·.nativeAmount) (·.priceUsd) price rows

/-- The reserves with a price are worth no more above the given one than those without are worth at
it. -/
def HighCovered (rows : List TvlRow) (price : Decimal) : Prop :=
  excess (·.nativeAmount) (·.priceUsd) price rows ≤
    price * missing (·.nativeAmount) (·.priceUsd) rows

variable {tie : ℕ → ℕ} {since bucket : Time} {db : Db} {p : TvlPoint} {rows : List TvlRow}
  {r : TvlRow} {price : Decimal}

/-! ### Prices -/

/-- The price of a row is one of those recorded at or before it. -/
theorem priceUsd_seen (hr : r ∈ bucketRows tie since bucket db) (hp : r.priceUsd = some price) :
    price ∈ pricesSeen (bucketRows tie since bucket db) db := by
  obtain ⟨c, -, hc⟩ := List.mem_flatMap.1 (List.mem_filter.1 hr).1
  obtain ⟨pool, -, rfl⟩ := List.mem_map.1 hc
  obtain ⟨record, hrecord, rfl⟩ := Option.map_eq_some_iff.1 hp
  obtain ⟨hmem, hrest⟩ := List.mem_filter.1 (mem_newest.1 (latest_mem hrecord)).1
  simp only [Bool.and_eq_true, decide_eq_true_eq] at hrest
  refine List.mem_map.2 ⟨record, List.mem_filter.2 ⟨hmem, ?_⟩, rfl⟩
  simp only [Bool.and_eq_true, decide_eq_true_eq, List.any_eq_true]
  exact ⟨hrest.1, _, hr, hrest.2⟩

/-- So it is between the lowest and the highest of those of the bucket. -/
theorem priceUsd_between (hr : r ∈ bucketRows tie since bucket db) (hp : r.priceUsd = some price) :
    lowestPrice (bucketRows tie since bucket db) db ≤ price ∧
      price ≤ highestPrice (bucketRows tie since bucket db) db :=
  ⟨lowest_le (priceUsd_seen hr hp), le_highest (priceUsd_seen hr hp)⟩

/-! ### The value of a bucket -/

/-- A point has a value exactly if one of its rows has a price, and it is the sum of the rows. -/
theorem totalReserveUsd_eq (h : p ∈ tvlSeries tie since db) :
    p.totalReserveUsd =
      if (bucketRows tie since p.bucket db).any (·.priceUsd.isSome) then
        some (coalescedSum (·.nativeAmount) (·.priceUsd) (bucketRows tie since p.bucket db))
      else none :=
  congrArg TvlPoint.totalReserveUsd (mem_tvlSeries.1 h).2

theorem totalReserveNative_eq (h : p ∈ tvlSeries tie since db) :
    p.totalReserveNative = ((bucketRows tie since p.bucket db).map (·.nativeAmount)).sum :=
  congrArg TvlPoint.totalReserveNative (mem_tvlSeries.1 h).2

theorem usdBetween_iff (h : p ∈ tvlSeries tie since db) :
    UsdBetween (bucketRows tie since p.bucket db) db p ↔
      (∀ r ∈ bucketRows tie since p.bucket db, r.priceUsd = none) ∨
        LowCovered (bucketRows tie since p.bucket db)
            (lowestPrice (bucketRows tie since p.bucket db) db) ∧
          HighCovered (bucketRows tie since p.bucket db)
            (highestPrice (bucketRows tie since p.bucket db) db) := by
  unfold UsdBetween LowCovered HighCovered
  rw [totalReserveUsd_eq h, totalReserveNative_eq h, ← level_le_iff, ← le_level_iff]
  have hany : (bucketRows tie since p.bucket db).any (·.priceUsd.isSome) = true ↔
      ¬ ∀ r ∈ bucketRows tie since p.bucket db, r.priceUsd = none := by
    simp [List.any_eq_true, Option.isSome_iff_ne_none]
  by_cases hnone : ∀ r ∈ bucketRows tie since p.bucket db, r.priceUsd = none
  · rw [if_neg fun h => hany.1 h hnone]
    exact iff_of_true (fun _ h => absurd h (Option.not_mem_none _)) (.inl hnone)
  · rw [if_pos (hany.2 hnone), or_iff_right hnone]
    simp only [Option.mem_some_iff, forall_eq']

/-- With reserves that are not negative, the snapshots with a price are worth no less than at the
lowest price, and no more than at the highest. -/
theorem excess_ends (hreserves : ∀ r ∈ bucketRows tie since bucket db, 0 ≤ r.nativeAmount) :
    0 ≤ excess (·.nativeAmount) (·.priceUsd) (lowestPrice (bucketRows tie since bucket db) db)
        (bucketRows tie since bucket db) ∧
      excess (·.nativeAmount) (·.priceUsd) (highestPrice (bucketRows tie since bucket db) db)
        (bucketRows tie since bucket db) ≤ 0 :=
  ⟨excess_nonneg hreserves fun _ hr _ hp => (priceUsd_between hr hp).1,
    excess_nonpos hreserves fun _ hr _ hp => (priceUsd_between hr hp).2⟩

/-- **When the value of an hour is between the ends of its prices.**  It has none, or the snapshots
with a price make up for those without.  With reserves that are not negative the value is right
where only snapshots without a native reserve have no price, and with a single positive price only
there. -/
theorem tvl_usd_between_iff (h : p ∈ tvlSeries tie since db) :
    (UsdBetween (bucketRows tie since p.bucket db) db p ↔
      (∀ r ∈ bucketRows tie since p.bucket db, r.priceUsd = none) ∨
        LowCovered (bucketRows tie since p.bucket db)
            (lowestPrice (bucketRows tie since p.bucket db) db) ∧
          HighCovered (bucketRows tie since p.bucket db)
            (highestPrice (bucketRows tie since p.bucket db) db)) ∧
    ((∀ r ∈ bucketRows tie since p.bucket db, 0 ≤ r.nativeAmount) →
      (0 ≤ highestPrice (bucketRows tie since p.bucket db) db →
        HighCovered (bucketRows tie since p.bucket db)
          (highestPrice (bucketRows tie since p.bucket db) db)) ∧
      ((∀ r ∈ bucketRows tie since p.bucket db, r.priceUsd = none → r.nativeAmount = 0) →
        UsdBetween (bucketRows tie since p.bucket db) db p) ∧
      (0 < lowestPrice (bucketRows tie since p.bucket db) db →
        lowestPrice (bucketRows tie since p.bucket db) db =
          highestPrice (bucketRows tie since p.bucket db) db →
        UsdBetween (bucketRows tie since p.bucket db) db p →
        (∀ r ∈ bucketRows tie since p.bucket db, r.priceUsd = none) ∨
          ∀ r ∈ bucketRows tie since p.bucket db, r.priceUsd = none → r.nativeAmount = 0)) := by
  refine ⟨usdBetween_iff h, fun hreserves => ?_⟩
  obtain ⟨hlow, hhigh⟩ := excess_ends hreserves
  refine ⟨?_, ?_, ?_⟩
  · intro hprice
    exact hhigh.trans (mul_nonneg hprice (missing_nonneg hreserves))
  · intro hpriced
    have hmissing := (missing_eq_zero_iff hreserves).2 hpriced
    refine (usdBetween_iff h).2 (.inr ⟨?_, ?_⟩)
    · rw [LowCovered, hmissing, mul_zero]
      exact hlow
    · rw [HighCovered, hmissing, mul_zero]
      exact hhigh
  · intro hprice hone hbetween
    refine ((usdBetween_iff h).1 hbetween).imp_right fun hcovered => ?_
    -- nothing is above the only price, so nothing makes up for a missing one
    have hle := hcovered.1.trans (hone ▸ hhigh)
    rw [← missing_eq_zero_iff hreserves]
    exact le_antisymm (nonpos_of_mul_nonpos_right hle hprice) (missing_nonneg hreserves)

end Lumina

/-! ### An hour in which the feed was enabled -/

namespace Lumina.Sample

/-- The pool of 1000 XLM is polled twice, and the first price, of ten cents, is recorded between. -/
def pricedBetween : Db := { withSnapshots [again₅] polledOnce with
  assetPrices := [⟨1767225602000000, "XLM", "", 1 / 10, "coingecko"⟩] }

/-- **A first price within the hour understates its value**: 2000 XLM at ten cents are worth 100. -/
theorem first_price_understates : ¬ ∀ (tie : ℕ → ℕ) (since : Time) (db : Db),
    ∀ p ∈ tvlSeries tie since db, UsdBetween (bucketRows tie since p.bucket db) db p := by
  intro hall
  have hmem : ⟨1767225600000000, 1, 2000, some 100⟩ ∈ tvlSeries (fun _ => 0) 0 pricedBetween := by
    decide +kernel
  have hlow := (hall (fun _ => 0) 0 pricedBetween _ hmem 100 rfl).1
  have hprice : lowestPrice (bucketRows (fun _ => 0) 0 1767225600000000 pricedBetween)
      pricedBetween = 1 / 10 := by decide +kernel
  rw [hprice] at hlow
  exact absurd hlow (by decide +kernel)

/-- With the price recorded before the hour, its value is right. -/
theorem earlier_price_between : UsdBetween
    (bucketRows (fun _ => 0) 0 1767225600000000 { pricedBetween with
      assetPrices := [⟨1767225599000000, "XLM", "", 1 / 10, "coingecko"⟩] })
    { pricedBetween with assetPrices := [⟨1767225599000000, "XLM", "", 1 / 10, "coingecko"⟩] }
    ⟨1767225600000000, 1, 2000, some 200⟩ :=
  ((tvl_usd_between_iff (by decide +kernel)).2 (by decide +kernel)).2.1 (by decide +kernel)

end Lumina.Sample
