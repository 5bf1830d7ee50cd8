import Lumina.Model.Tvl
import Lumina.Sql.Group

/-!
# TVL as a stock

The native TVL of an hour is the sum over all snapshots of the hour, so a pool that is polled
`n` times counts `n` times.  The total lies between the sums of the pools' lowest and highest
reserves exactly if no pool has two snapshots with a native reserve in the hour, and further
snapshots leave it as it is exactly if their native reserves sum to zero (`tvlSeries_stock`).

## Main definitions

* `inBucket`, `reservesIn` : the snapshots of an hour, and the native reserves of a pool in it.
* `IsStock` : the total behaves like a stock.
* `CountedOnce` : no reserve is counted twice.
-/

namespace Lumina

open Sql

variable {tie tie' : ℕ → ℕ} {since bucket : Time} {db : Db} {p : TvlPoint}
  {more : List PoolSnapshotRow}

/-- The native reserve of a snapshot; `pool_id` is the primary key of `pools`. -/
def nativeReserve (db : Db) (s : PoolSnapshotRow) : Decimal :=
  ((db.pools.filter fun p => p.poolId = s.poolId).map fun p => nativeAmount p s).sum

/-- The snapshots of a bucket. -/
def inBucket (since bucket : Time) (db : Db) : List PoolSnapshotRow :=
  db.poolSnapshots.filter fun s => since ≤ s.time && timeBucket s.time = bucket

/-- The native reserves of a pool in a bucket, one for each of its snapshots. -/
def reservesIn (since bucket : Time) (db : Db) (poolId : String) : List Decimal :=
  (group (·.poolId) (inBucket since bucket db) poolId).map (nativeReserve db)

/-- The sum over the pools of a bucket of their lowest native reserves. -/
def lowerTvl (since bucket : Time) (db : Db) : Decimal :=
  ∑ poolId ∈ keys (·.poolId) (inBucket since bucket db), lowest (reservesIn since bucket db poolId)

/-- The sum over the pools of a bucket of their highest native reserves. -/
def upperTvl (since bucket : Time) (db : Db) : Decimal :=
  ∑ poolId ∈ keys (·.poolId) (inBucket since bucket db), highest (reservesIn since bucket db poolId)

/-- The database with more snapshots. -/
def withSnapshots (more : List PoolSnapshotRow) (db : Db) : Db :=
  { db with poolSnapshots := db.poolSnapshots ++ more }

/-- A snapshot of the bucket once more, at another time in it. -/
def Repeats (since bucket : Time) (db : Db) (s : PoolSnapshotRow) : Prop :=
  (∃ s₀ ∈ inBucket since bucket db, s = { s₀ with time := s.time }) ∧ since ≤ s.time ∧
    timeBucket s.time = bucket

/-- The total of the point is between the ends of its pools, and more snapshots of the same
pools leave it as it is. -/
structure IsStock (since : Time) (db : Db) (p : TvlPoint) (more : List PoolSnapshotRow) : Prop where
  lower : lowerTvl since p.bucket db ≤ p.totalReserveNative
  upper : p.totalReserveNative ≤ upperTvl since p.bucket db
  unchanged : ∀ tie, ∀ p' ∈ tvlSeries tie since (withSnapshots more db), p'.bucket = p.bucket →
    p'.totalReserveNative = p.totalReserveNative

/-- No pool has two snapshots with a native reserve in the bucket, and further snapshots have
none. -/
structure CountedOnce (since bucket : Time) (db : Db) (more : List PoolSnapshotRow) : Prop where
  once : ∀ poolId, OneNonzero (reservesIn since bucket db poolId)
  more : (more.map (nativeReserve db)).sum = 0

/-! ### What the query computes -/

/-- The rows of a bucket sum to the native reserves of its snapshots. -/
theorem sum_tvlRows (tie : ℕ → ℕ) (since bucket : Time) (db : Db) :
    (((tvlRows tie since db).filter fun r => decide (timeBucket r.time = bucket)).map
      (·.nativeAmount)).sum = ((inBucket since bucket db).map (nativeReserve db)).sum := by
  -- snapshot by snapshot: the join splits a snapshot by its pools, and the sum puts it together
  have hjoin : ∀ l : List (PoolSnapshotRow × ℕ),
      (((l.flatMap fun c => (db.pools.filter fun p => p.poolId = c.1.poolId).map fun p =>
        (⟨c.1.time, c.1.poolId, nativeAmount p c.1, xlmPriceAt (tie c.2) c.1.time db⟩ :
          TvlRow)).filter fun r => decide (timeBucket r.time = bucket)).map (·.nativeAmount)).sum =
      ((l.filter fun c => decide (timeBucket c.1.time = bucket)).map fun c =>
        nativeReserve db c.1).sum := by
    intro l
    induction l with
    | nil => rfl
    | cons c l ih =>
      rw [List.flatMap_cons, List.filter_append, List.map_append, List.sum_append, ih,
        List.filter_cons, List.filter_map, List.map_map]
      by_cases hc : timeBucket c.1.time = bucket
      · simp only [hc, decide_true, if_true, List.map_cons, List.sum_cons]
        congr 1
        rw [nativeReserve]
        congr 1
        simp [Function.comp_def, hc]
      · simp [Function.comp_def, hc]
  -- the places of the snapshots only chose their prices
  have hfst : ∀ (f : PoolSnapshotRow → Bool) (l : List PoolSnapshotRow) (n : ℕ),
      ((l.zipIdx n).filter fun c => f c.1).map (fun c => nativeReserve db c.1) =
        (l.filter f).map (nativeReserve db) := by
    intro f l n
    induction l generalizing n with
    | nil => rfl
    | cons s l ih =>
      rw [List.zipIdx_cons, List.filter_cons, List.filter_cons]
      split_ifs
      · rw [List.map_cons, List.map_cons, ih]
      · exact ih (n + 1)
  rw [tvlRows, hjoin, List.filter_filter, inBucket, ← hfst _ _ 0]
  congr 2
  refine List.filter_congr ?_
  intro c _
  rw [Bool.and_comm]

/-- A point of the series. -/
theorem mem_tvlSeries : p ∈ tvlSeries tie since db ↔
    (∃ r ∈ tvlRows tie since db, timeBucket r.time = p.bucket) ∧
      p = .ofRaw (tvlPointRaw p.bucket
        ((tvlRows tie since db).filter fun r => timeBucket r.time = p.bucket)) := by
  simp only [tvlSeries, List.mem_map, List.mem_insertionSort, List.mem_dedup]
  constructor
  · rintro ⟨b, ⟨r, hr, hb⟩, rfl⟩
    exact ⟨⟨r, hr, hb⟩, rfl⟩
  · rintro ⟨⟨r, hr, hb⟩, hp⟩
    exact ⟨p.bucket, ⟨r, hr, hb⟩, hp.symm⟩

/-- The total of a point is the sum over all snapshots of its bucket. -/
theorem total_of_mem (h : p ∈ tvlSeries tie since db) :
    p.totalReserveNative = ((inBucket since p.bucket db).map (nativeReserve db)).sum := by
  have hp := (mem_tvlSeries.1 h).2
  rw [← sum_tvlRows tie, hp]
  rfl

variable (more) in
/-- More snapshots leave every bucket there. -/
theorem exists_point_withSnapshots (h : p ∈ tvlSeries tie since db) :
    ∃ p' ∈ tvlSeries tie since (withSnapshots more db), p'.bucket = p.bucket := by
  obtain ⟨⟨r, hr, hb⟩, -⟩ := mem_tvlSeries.1 h
  refine ⟨.ofRaw (tvlPointRaw p.bucket ((tvlRows tie since (withSnapshots more db)).filter
    fun r => timeBucket r.time = p.bucket)), mem_tvlSeries.2 ⟨⟨r, ?_, hb⟩, rfl⟩, rfl⟩
  simp only [tvlRows, withSnapshots, List.zipIdx_append, List.filter_append, List.flatMap_append,
    List.mem_append]
  exact .inl hr

/-- More snapshots of a bucket add their native reserves to its total. -/
theorem total_withSnapshots {p' : TvlPoint} (h : p ∈ tvlSeries tie since db)
    (h' : p' ∈ tvlSeries tie' since (withSnapshots more db)) (hb : p'.bucket = p.bucket)
    (hmore : ∀ s ∈ more, since ≤ s.time ∧ timeBucket s.time = p.bucket) :
    p'.totalReserveNative = p.totalReserveNative + (more.map (nativeReserve db)).sum := by
  have hfilter : more.filter (fun s => since ≤ s.time && timeBucket s.time = p.bucket) = more := by
    rw [List.filter_eq_self]
    intro s hs
    simp [hmore s hs]
  rw [total_of_mem h, total_of_mem h', hb]
  simp only [inBucket, withSnapshots, List.filter_append, hfilter, List.map_append, List.sum_append]
  rfl

/-- **When the TVL of an hour is a stock.**  It is one if no reserve is counted twice, and only
then if no reserve is negative. -/
theorem tvlSeries_stock (h : p ∈ tvlSeries tie since db)
    (hmore : ∀ s ∈ more, Repeats since p.bucket db s) :
    (CountedOnce since p.bucket db more → IsStock since db p more) ∧
      ((∀ s ∈ inBucket since p.bucket db, 0 ≤ nativeReserve db s) → IsStock since db p more →
        CountedOnce since p.bucket db more) := by
  have hadd : ∀ {tie' p'}, p' ∈ tvlSeries tie' since (withSnapshots more db) →
      p'.bucket = p.bucket →
      p'.totalReserveNative = p.totalReserveNative + (more.map (nativeReserve db)).sum :=
    fun h' hb => total_withSnapshots h h' hb fun s hs => (hmore s hs).2
  constructor
  · intro hc
    have hends : lowerTvl since p.bucket db ≤ p.totalReserveNative ∧
        p.totalReserveNative ≤ upperTvl since p.bucket db := by
      rw [total_of_mem h]
      exact sum_between hc.once
    refine ⟨hends.1, hends.2, ?_⟩
    intro tie' p' h' hb
    rw [hadd h' hb, hc.more, add_zero]
  · intro hnonneg hs
    have hupper := hs.upper
    rw [total_of_mem h] at hupper
    refine ⟨(sum_le_iff hnonneg).1 hupper, ?_⟩
    obtain ⟨p', h', hb⟩ := exists_point_withSnapshots more h
    have htotal := hadd h' hb
    rw [hs.unchanged tie p' h' hb] at htotal
    exact (left_eq_add.1 htotal)

end Lumina

/-! ### A pool polled twice in an hour -/

namespace Lumina.Sample

/-- The hour from 2026-01-01T00:00:00Z with a pool of 1000 XLM, polled once. -/
def polledOnce : Db := { Db.empty with
  pools := [⟨"67260c4c1807b262ff851b0a3fe141194936bb0215b2f77447f1df11998eabb9", "native",
    "USDC:GA5ZSEJYB37JRC5AVCIA5MOP4RHTM335X2KGX3IHOJAPP5RE34K4KZVN", 30⟩]
  poolSnapshots := [⟨1767225600000000,
    "67260c4c1807b262ff851b0a3fe141194936bb0215b2f77447f1df11998eabb9", 1000, 200, 400, 12⟩] }

/-- The same snapshot five seconds later. -/
def again₅ : PoolSnapshotRow :=
  ⟨1767225605000000, "67260c4c1807b262ff851b0a3fe141194936bb0215b2f77447f1df11998eabb9", 1000, 200,
    400, 12⟩

/-- The point of the hour with a total. -/
def hourPoint (total : Decimal) : TvlPoint := ⟨1767225600000000, 1, total, none⟩

/-- Polled twice, the pool of 1000 XLM counts as 2000 XLM. -/
theorem polled_twice :
    tvlSeries (fun _ => 0) 0 (withSnapshots [again₅] polledOnce) = [hourPoint 2000] ∧
      upperTvl 0 1767225600000000 (withSnapshots [again₅] polledOnce) = 1000 ∧
      Repeats 0 1767225600000000 polledOnce again₅ ∧
      ¬ IsStock 0 (withSnapshots [again₅] polledOnce) (hourPoint 2000) [] ∧
      ¬ IsStock 0 polledOnce (hourPoint 1000) [again₅] := by
  have htwice :
      tvlSeries (fun _ => 0) 0 (withSnapshots [again₅] polledOnce) = [hourPoint 2000] := by
    decide +kernel
  have hupper : upperTvl 0 1767225600000000 (withSnapshots [again₅] polledOnce) = 1000 := by
    decide +kernel
  refine ⟨htwice, hupper, ⟨⟨⟨1767225600000000, again₅.poolId, 1000, 200, 400, 12⟩, ?_, rfl⟩,
    by decide, by decide⟩, fun h => ?_, fun h => ?_⟩
  · decide +kernel
  · have hle : (2000 : Decimal) ≤ upperTvl 0 1767225600000000 (withSnapshots [again₅] polledOnce) :=
      h.upper
    rw [hupper] at hle
    exact absurd hle (by decide +kernel)
  · have hmem : hourPoint 2000 ∈ tvlSeries (fun _ => 0) 0 (withSnapshots [again₅] polledOnce) := by
      rw [htwice]
      exact List.mem_singleton_self _
    have heq : (2000 : Decimal) = 1000 := h.unchanged _ _ hmem rfl
    exact absurd heq (by decide +kernel)

/-- A pool of two dollar tokens, and one of XLM and EURC, beside the pool of 1000 XLM. -/
def threePools : Db := { polledOnce with
  pools := polledOnce.pools ++ [⟨"dollars", "USDC:issuer", "USDT:issuer", 30⟩,
    ⟨"euros", "EURC:issuer", "native", 30⟩]
  poolSnapshots := polledOnce.poolSnapshots ++
    [⟨1767225600000000, "dollars", 5000, 5000, 900, 3⟩,
      ⟨1767225605000000, "dollars", 5000, 4900, 900, 3⟩,
      ⟨1767225600000000, "euros", 80, 500, 70, 2⟩, ⟨1767225599000000, "euros", 80, 400, 70, 2⟩] }

/-- A pool without XLM may be polled again and again: the pools with XLM, polled once in the hour,
count as they are. -/
theorem threePools_isStock : IsStock 0 threePools ⟨1767225600000000, 3, 1500, none⟩
    [⟨1767225610000000, "dollars", 5000, 5000, 900, 3⟩] := by
  have hmem : (⟨1767225600000000, 3, 1500, none⟩ : TvlPoint) ∈
      tvlSeries (fun _ => 0) 0 threePools := by decide +kernel
  refine (tvlSeries_stock hmem ?_).1 ⟨fun poolId => ?_, by decide +kernel⟩
  · intro s hs
    obtain rfl := List.mem_singleton.1 hs
    exact ⟨⟨⟨1767225600000000, "dollars", 5000, 5000, 900, 3⟩, by decide +kernel, rfl⟩, by decide,
      by decide⟩
  · -- of the three pools two have XLM, each with one snapshot in the hour
    have hnonzero : ((inBucket 0 1767225600000000 threePools).filter fun s =>
        nativeReserve threePools s ≠ 0).map (·.poolId) =
          ["67260c4c1807b262ff851b0a3fe141194936bb0215b2f77447f1df11998eabb9", "euros"] := by
      decide +kernel
    have hcount := List.nodup_iff_count_le_one.1 (by decide +kernel :
      ["67260c4c1807b262ff851b0a3fe141194936bb0215b2f77447f1df11998eabb9", "euros"].Nodup) poolId
    rw [← hnonzero, List.count, List.countP_map, List.countP_filter] at hcount
    rw [Sql.OneNonzero, reservesIn, Sql.group, List.filter_map, List.length_map, List.filter_filter,
      ← List.countP_eq_length_filter]
    refine (List.countP_mono_left fun s _ hs => ?_).trans hcount
    simpa [and_comm] using hs

end Lumina.Sample
