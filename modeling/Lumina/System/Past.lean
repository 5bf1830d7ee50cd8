import Lumina.System.History
import Lumina.System.Keys
import Lumina.Snapshots.Polls
import Lumina.Tvl.Stock
import Mathlib.Data.List.Sigma

/-!
# The past is settled

A cycle writes its snapshots and prices at its own time, and a retention job drops snapshots that
are old enough at its own.  So what the API answers about the time from `h` to `t` is settled once
the clock of the ingester has passed `t`, as long as no job comes to `h`: whatever else comes, the
histories between the two, the points of the TVL series for the hours between them and the values of
the payments before `t` are what they were (`past_settled`).

## Main definitions

* `Db.GrowsFrom` : new snapshots and prices are from a time on, and what is dropped is before one.
* `ClockFrom`, `RetainsFrom` : the cycles of a run are from a time on, and its jobs before one.
* `TvlPoint.Within` : the hour of a point is between two times.
-/

namespace Lumina

open Tx Trace

/-! ### Tables that grow -/

/-- New snapshots and prices are from `t` on, and the snapshots that are gone are before `h`. -/
structure Db.GrowsFrom (h t : Time) (db db' : Db) : Prop where
  poolSnapshots :
    Sql.Grows (fun r => r.time < h) (fun r => t ≤ r.time) db.poolSnapshots db'.poolSnapshots
  tokenSnapshots :
    Sql.Grows (fun r => r.time < h) (fun r => t ≤ r.time) db.tokenSnapshots db'.tokenSnapshots
  assetPrices : Sql.Grows (fun _ => False) (fun r => t ≤ r.time) db.assetPrices db'.assetPrices

/-- The same of the ingester's view. -/
def GrowsFrom (h t : Time) (w w' : World) : Prop := w.db.GrowsFrom h t w'.db

variable {D : RustDecimal} {X : Codec} {config : Config} {rules : List AlertRuleRow}
  {h t : Time} {w w' : World} {db db' db'' : Db}

theorem Db.GrowsFrom.refl (h t : Time) (db : Db) : db.GrowsFrom h t db :=
  ⟨.refl _, .refl _, .refl _⟩

theorem Db.GrowsFrom.trans (hdb : db.GrowsFrom h t db') (hdb' : db'.GrowsFrom h t db'') :
    db.GrowsFrom h t db'' :=
  ⟨hdb.poolSnapshots.trans hdb'.poolSnapshots, hdb.tokenSnapshots.trans hdb'.tokenSnapshots,
    hdb.assetPrices.trans hdb'.assetPrices⟩

instance (h t : Time) : IsPreorder World (GrowsFrom h t) where
  refl w := .refl h t w.db
  trans _ _ _ hw hw' := Db.GrowsFrom.trans hw hw'

theorem SamePolled.growsFrom (hsame : SamePolled w w') (h t : Time) : GrowsFrom h t w w' :=
  ⟨.of_eq hsame.1, .of_eq hsame.2.1, .of_eq hsame.2.2⟩

/-! ### A cycle -/

theorem growsFrom_upsertPool (row : PoolRow) (w : World) :
    GrowsFrom h t w { w with db := upsertPool row w.db } := by
  unfold upsertPool
  split_ifs
  · exact .refl h t w.db
  · exact ⟨.refl _, .refl _, .refl _⟩

theorem growsFrom_upsertToken (row : TokenRow) (w : World) :
    GrowsFrom h t w { w with db := upsertToken row w.db } := by
  unfold upsertToken
  split_ifs
  · exact .refl h t w.db
  · exact ⟨.refl _, .refl _, .refl _⟩

theorem growsFrom_ingestPool (calls : SnapshotEnv) {now : Time} (hnow : t ≤ now)
    (lp : LiquidityPool) (thresholdPct : Decimal) :
    Proc.Within (Tx.Via (GrowsFrom h t)) (ingestPool D calls now lp thresholdPct rules) := by
  rw [ingestPool_eq]
  refine within_snapshotOf_of_upsert (fun r w _ => growsFrom_upsertPool _ w) fun r w hr => ?_
  exact ⟨.snoc ((poolSnapshot_time hr).symm ▸ hnow), .refl _, .refl _⟩

theorem growsFrom_ingestToken (calls : SnapshotEnv) {now : Time} (hnow : t ≤ now)
    (a : AssetRecord) (thresholdPct : Decimal) :
    Proc.Within (Tx.Via (GrowsFrom h t)) (ingestToken D calls now a thresholdPct rules) := by
  rw [ingestToken_eq]
  refine within_snapshotOf_of_upsert (fun r w _ => growsFrom_upsertToken _ w) fun r w hr => ?_
  obtain rfl := Outcome.ret.inj hr
  exact ⟨.refl _, .snoc hnow, .refl _⟩

theorem growsFrom_pricesRecord (env : PricesEnv) {now : Time} (hnow : t ≤ now)
    (pools : List LiquidityPool) :
    Proc.Within (Tx.Via (GrowsFrom h t)) (pricesRecord D env now pools) := by
  have hexec : ∀ f asset price source,
      Proc.Within (Tx.Via (GrowsFrom h t)) (Tx.exec f (insertAssetPrice now asset price source)) :=
    fun f asset price source => Tx.within_exec fun w => ⟨.refl _, .refl _, .snoc hnow⟩
  have hhops : ∀ left hop priced, Proc.Within (Tx.Via (GrowsFrom h t))
      (ingestHops D env now (pools.filterMap (poolLegs D)) left hop priced) := by
    intro left
    induction left with
    | zero => exact fun hop priced => Proc.within_pure ()
    | succ left ih =>
      intro hop priced
      refine (Proc.within_lift _).bind fun newly => ?_
      split_ifs
      · exact Proc.within_pure ()
      · refine (Proc.within_foldlM (fun _ c => ?_) _ _).bind fun priced => ih _ _
        exact (hexec _ _ _ _).bind fun _ => Proc.within_pure _
  rw [pricesRecord_eq]
  refine (Proc.within_lift _).bind fun xlmUsd => ?_
  exact (hexec _ _ _ _).bind fun _ => (hhops _ _ _).bind fun _ => Proc.within_pure _

theorem growsFrom_commitBatch (env : RunEnv) (henv : t ≤ env.now) (pools : List LiquidityPool)
    (assets : List AssetRecord) :
    Proc.Within (GrowsFrom h t) (commitBatch D config env rules pools assets) := by
  refine within_transaction ?_
  rw [batchBody_eq]
  exact within_collectAll (forall_batchRecords _ (fun calls lp => growsFrom_ingestPool _ henv _ _)
    (growsFrom_pricesRecord _ henv _) fun calls a => growsFrom_ingestToken _ henv _ _) []

theorem growsFrom_runOnce (env : RunEnv) (henv : t ≤ env.now) :
    Proc.Within (GrowsFrom h t) (runOnce D config env) := by
  refine (Proc.within_lift _).bind fun pools => (Proc.within_lift _).bind fun assets => ?_
  have hload : Proc.Within (GrowsFrom h t) (loadRules env.rules) := by
    refine within_fetch.attempt.bind fun r => ?_
    cases r <;> exact Proc.within_pure _
  refine hload.bind fun rules => ?_
  refine (growsFrom_commitBatch env henv pools assets).bind fun pending => ?_
  have hrecord : Proc.Within (GrowsFrom h t) (recordAll env.record config.webhook pending) :=
    fun w => (samePolled_recordAll _ _ _ w).growsFrom h t
  exact hrecord.bind fun _ w => (samePolled_ingestPayments env.payments w).growsFrom h t

theorem growsFrom_ingestCycle (env : CycleEnv) (henv : t ≤ env.run.now) :
    Proc.Within (GrowsFrom h t) (ingestCycle D X config env) := fun w =>
  IsTrans.trans _ _ _ (growsFrom_runOnce env.run henv w) ((samePolled_runOnce env w).growsFrom h t)

/-! ### A run -/

/-- Every cycle has its time at or after `t`. -/
def ClockFrom (t : Time) (es : List SystemEvent) : Prop :=
  ∀ env, SystemEvent.cycle env ∈ es → t ≤ env.run.now

/-- What is old enough for a retention job is before `h`. -/
def RetainsFrom (h : Time) (es : List SystemEvent) : Prop :=
  ∀ job, SystemEvent.retention job ∈ es → job.now - dropAfter ≤ h

theorem growsFrom_retain {job : RetentionJob} (hjob : job.now - dropAfter ≤ h) (s : System) :
    s.store.db.GrowsFrom h t (s.retain job).store.db := by
  have hlimit : ∀ time : Time, decide (job.limit ≤ time) = false → time < h := fun time htime =>
    (not_le.1 (of_decide_eq_false htime)).trans_le (job.limit_le.trans hjob)
  unfold System.retain RetentionJob.drop
  cases job.table with
  | poolSnapshots => exact ⟨.of_thinned (.of_filter (fun _ => hlimit _) _), .refl _, .refl _⟩
  | tokenSnapshots => exact ⟨.refl _, .of_thinned (.of_filter (fun _ => hlimit _) _), .refl _⟩

/-- **A run adds no snapshot and no price before its cycles**, and its jobs drop old ones only. -/
theorem growsFrom_run (P : Deployment) (s : System) {es : List SystemEvent}
    (hclock : ClockFrom t es) (hretains : RetainsFrom h es) :
    s.store.db.GrowsFrom h t (run (System.step P) s es).store.db := by
  induction es generalizing s with
  | nil => exact .refl h t s.store.db
  | cons e es ih =>
    rw [run_cons]
    have hrest := ih (s.step P e) (fun env henv => hclock env (List.mem_cons_of_mem _ henv))
      fun job hjob => hretains job (List.mem_cons_of_mem _ hjob)
    have hstep : GrowsFrom h t s.world (s.step P e).world := by
      cases e with
      | cycle env => exact growsFrom_ingestCycle env (hclock env List.mem_cons_self) s.world
      | request env req => exact (System.request_samePolled env req).growsFrom h t
      | retention job => exact growsFrom_retain (hretains job List.mem_cons_self) s
    exact Db.GrowsFrom.trans hstep hrest

/-! ### The answers about the past -/

/-- A reading of prices up to a time is the same. -/
theorem Db.GrowsFrom.latestPrice (hdb : db.GrowsFrom h t db') {time : Time} (htime : time < t)
    (tie : ℕ) (p : AssetPriceRow → Bool) :
    Sql.latest tie (·.time) (db'.assetPrices.filter fun r => p r && r.time ≤ time) =
      Sql.latest tie (·.time) (db.assetPrices.filter fun r => p r && r.time ≤ time) := by
  rw [hdb.assetPrices.filter_eq fun _ hr => hr.elim]
  intro r hr
  rw [decide_eq_false (htime.trans_le hr).not_ge, Bool.and_false]

/-- The price of XLM is settled. -/
theorem Db.GrowsFrom.xlmPriceAt (hdb : db.GrowsFrom h t db') {time : Time} (htime : time < t)
    (tie : ℕ) : Lumina.xlmPriceAt tie time db' = Lumina.xlmPriceAt tie time db :=
  congrArg (Option.map AssetPriceRow.priceUsd) (hdb.latestPrice htime tie fun r =>
    r.assetCode = "XLM" && r.assetIssuer = "")

/-- The value of a payment is settled. -/
theorem Db.GrowsFrom.assetPriceAt (hdb : db.GrowsFrom h t db') {wt : WhaleTransactionRow}
    (htime : wt.time < t) (tie : ℕ) :
    Lumina.assetPriceAt tie wt db' = Lumina.assetPriceAt tie wt db :=
  congrArg (Option.map AssetPriceRow.priceUsd) (hdb.latestPrice htime tie fun r =>
    r.assetCode = wt.assetCode && r.assetIssuer = wt.assetIssuer.getD "")

/-- The rows between the two times are the same. -/
theorem filter_between_eq {σ : Type} {time : σ → Time} {rows rows' : List σ}
    (hrows : Sql.Grows (fun r => time r < h) (fun r => t ≤ time r) rows rows') :
    rows'.filter (fun r => h ≤ time r ∧ time r < t) =
      rows.filter fun r => h ≤ time r ∧ time r < t :=
  hrows.filter_eq (fun _ hr => decide_eq_false fun hin => not_lt_of_ge hin.1 hr)
    fun _ hr => decide_eq_false fun hin => not_lt_of_ge hr hin.2

/-- A history is its rows in some order. -/
theorem orderByTime_settled {σ : Type} {time : σ → Time} {rows rows' : List σ}
    (hrows : Sql.Grows (fun r => time r < h) (fun r => t ≤ time r) rows rows')
    (visit visit' : Sql.Visit σ) (p : σ → Bool) :
    ((orderByTime visit' time (rows'.filter p)).filter fun r => h ≤ time r ∧ time r < t).Perm
      ((orderByTime visit time (rows.filter p)).filter fun r => h ≤ time r ∧ time r < t) := by
  have hsame : (rows'.filter p).filter (fun r => h ≤ time r ∧ time r < t) =
      (rows.filter p).filter fun r => h ≤ time r ∧ time r < t := by
    rw [List.filter_comm, filter_between_eq hrows, List.filter_comm]
  refine (Sql.orderByDesc_perm.filter _).trans ?_
  rw [hsame]
  exact (Sql.orderByDesc_perm.filter _).symm

/-! ### The points of the past -/

theorem timeBucket_le (time : Time) : timeBucket time ≤ time :=
  sub_le_self _ (Int.emod_nonneg time (by decide))

theorem lt_timeBucket_add (time : Time) : time < timeBucket time + hour := by
  have hlt : time % hour < hour := Int.emod_lt_of_pos time (by decide)
  unfold timeBucket
  linarith

/-- The hour of the point is between the two times. -/
def TvlPoint.Within (h t : Time) (p : TvlPoint) : Prop := h ≤ p.bucket ∧ p.bucket + hour ≤ t

/-- The pool of a snapshot stays the only one of its id. -/
theorem filter_pools_eq (hpools : db.pools <+: db'.pools) (hkeyed : db.Keyed) (hkeyed' : db'.Keyed)
    {r : PoolSnapshotRow} (hr : r ∈ db.poolSnapshots) :
    db'.pools.filter (fun p => p.poolId = r.poolId) =
      db.pools.filter fun p => p.poolId = r.poolId := by
  obtain ⟨more, hmore⟩ := hpools
  obtain ⟨p, hp, hid⟩ := hkeyed.poolOf r hr
  have hnodup := hkeyed'.poolIds
  rw [← hmore, List.map_append, List.nodup_append] at hnodup
  have hnone : more.filter (fun q => q.poolId = r.poolId) = [] := by
    refine List.filter_eq_nil_iff.2 fun q hq heq => ?_
    exact hnodup.2.2 _ (List.mem_map_of_mem hp) _ (List.mem_map_of_mem hq)
      (hid.trans (of_decide_eq_true heq).symm)
  rw [← hmore, List.filter_append, hnone, List.append_nil]

/-- The rows of one snapshot, with a choice among the prices that tie. -/
def snapshotRows (db : Db) (c : PoolSnapshotRow × ℕ) : List TvlRow :=
  (db.pools.filter fun p => p.poolId = c.1.poolId).map fun p =>
    ⟨c.1.time, c.1.poolId, nativeAmount p c.1, xlmPriceAt c.2 c.1.time db⟩

/-- The snapshots between the two times, with their places in the table. -/
def between (h t since : Time) (db : Db) : List (PoolSnapshotRow × ℕ) :=
  db.poolSnapshots.zipIdx.filter fun c => since ≤ c.1.time ∧ h ≤ c.1.time ∧ c.1.time < t

/-- The rows of an hour between the two times are those of the snapshots between them. -/
theorem filter_tvlRows (tie : ℕ → ℕ) (since : Time) {bucket : Time} (hleft : h ≤ bucket)
    (hright : bucket + hour ≤ t) (db : Db) :
    (tvlRows tie since db).filter (fun r => timeBucket r.time = bucket) =
      (((between h t since db).map fun c => (c.1, tie c.2)).flatMap (snapshotRows db)).filter
        fun r => timeBucket r.time = bucket := by
  have hrows : tvlRows tie since db =
      (db.poolSnapshots.zipIdx.filter fun c => since ≤ c.1.time).flatMap fun c =>
        snapshotRows db (c.1, tie c.2) := rfl
  rw [hrows, List.flatMap_map, List.filter_flatMap, List.filter_flatMap, between]
  induction db.poolSnapshots.zipIdx with
  | nil => rfl
  | cons c l ih =>
    by_cases hsince : since ≤ c.1.time
    · by_cases hin : h ≤ c.1.time ∧ c.1.time < t
      · rw [List.filter_cons_of_pos (by simpa using hsince),
          List.filter_cons_of_pos (by simpa using ⟨hsince, hin⟩), List.flatMap_cons,
          List.flatMap_cons, ih]
      · -- a snapshot outside is in another hour
        have hnone : (snapshotRows db (c.1, tie c.2)).filter
            (fun r => timeBucket r.time = bucket) = [] := by
          refine List.filter_eq_nil_iff.2 fun r hr heq => hin ?_
          obtain ⟨p, -, rfl⟩ := List.mem_map.1 hr
          have hbucket : timeBucket c.1.time = bucket := of_decide_eq_true heq
          exact ⟨(hleft.trans_eq hbucket.symm).trans (timeBucket_le _),
            (lt_timeBucket_add _).trans_le (hbucket ▸ hright)⟩
        rw [List.filter_cons_of_pos (by simpa using hsince),
          List.filter_cons_of_neg (by simpa using fun _ => not_and.1 hin), List.flatMap_cons, hnone,
          List.nil_append, ih]
    · rw [List.filter_cons_of_neg (by simpa using hsince),
        List.filter_cons_of_neg (by simpa using fun hle => absurd hle (not_le.2 (not_le.1 hsince))),
        ih]

/-- **The rows of an hour between the two times are settled**, up to the choices among prices that
tie. -/
theorem tvlRows_settled (hdb : db.GrowsFrom h t db') (hpools : db.pools <+: db'.pools)
    (hkeyed : db.Keyed) (hkeyed' : db'.Keyed) {tie tie' : ℕ → ℕ} {since : Time}
    (htie : (between h t since db).map (fun c => (c.1, tie c.2)) =
      (between h t since db').map fun c => (c.1, tie' c.2)) {bucket : Time} (hleft : h ≤ bucket)
    (hright : bucket + hour ≤ t) :
    (tvlRows tie' since db').filter (fun r => timeBucket r.time = bucket) =
      (tvlRows tie since db).filter fun r => timeBucket r.time = bucket := by
  rw [filter_tvlRows tie' since hleft hright, filter_tvlRows tie since hleft hright, ← htie]
  congr 1
  refine List.flatMap_congr fun c hc => ?_
  obtain ⟨d, hd, rfl⟩ := List.mem_map.1 hc
  obtain ⟨hd, hin⟩ := List.mem_filter.1 hd
  have htime : d.1.time < t := (of_decide_eq_true hin).2.2
  unfold snapshotRows
  rw [filter_pools_eq hpools hkeyed hkeyed' (List.fst_mem_of_mem_zipIdx hd), hdb.xlmPriceAt htime]

/-- The points between the two times are settled, up to these choices. -/
theorem mem_tvlSeries_settled (hdb : db.GrowsFrom h t db') (hpools : db.pools <+: db'.pools)
    (hkeyed : db.Keyed) (hkeyed' : db'.Keyed) {tie tie' : ℕ → ℕ} {since : Time}
    (htie : (between h t since db).map (fun c => (c.1, tie c.2)) =
      (between h t since db').map fun c => (c.1, tie' c.2)) {p : TvlPoint} (hp : p.Within h t) :
    p ∈ tvlSeries tie' since db' ↔ p ∈ tvlSeries tie since db := by
  have hrows := tvlRows_settled hdb hpools hkeyed hkeyed' htie hp.1 hp.2
  have hsome : ∀ (tie : ℕ → ℕ) db, (∃ r ∈ tvlRows tie since db, timeBucket r.time = p.bucket) ↔
      (tvlRows tie since db).filter (fun r => timeBucket r.time = p.bucket) ≠ [] := by
    intro tie db
    simp [List.filter_eq_nil_iff]
  rw [mem_tvlSeries, mem_tvlSeries, hsome, hsome, hrows]

/-- The points between the two times that the series may have. -/
def pointsBetween (h t since : Time) (db : Db) : Set (Set TvlPoint) :=
  Set.range fun tie : ℕ → ℕ => {p | p ∈ tvlSeries tie since db ∧ p.Within h t}

theorem pointsBetween_settled (hdb : db.GrowsFrom h t db') (hpools : db.pools <+: db'.pools)
    (hkeyed : db.Keyed) (hkeyed' : db'.Keyed) (since : Time) :
    pointsBetween h t since db' = pointsBetween h t since db := by
  have hfst : ∀ db : Db, (between h t since db).map (·.1) =
      (db.poolSnapshots.filter fun r => h ≤ r.time ∧ r.time < t).filter fun r =>
        since ≤ r.time := by
    intro db
    have hmap : between h t since db = db.poolSnapshots.zipIdx.filter
        ((fun r : PoolSnapshotRow => decide (since ≤ r.time ∧ h ≤ r.time ∧ r.time < t)) ∘
          Prod.fst) := rfl
    rw [hmap, ← List.filter_map, List.zipIdx_map_fst, List.filter_filter]
    exact List.filter_congr fun r _ => by simp
  have hsnd : ∀ db : Db, ((between h t since db).map (·.2)).Nodup := fun db =>
    (List.nodup_zipIdx_map_snd _).sublist (List.filter_sublist.map _)
  have hsame : (between h t since db).map (·.1) = (between h t since db').map (·.1) := by
    rw [hfst, hfst, filter_between_eq hdb.poolSnapshots]
  have hpoints : ∀ tie tie' : ℕ → ℕ, (between h t since db).map (fun c => (c.1, tie c.2)) =
      (between h t since db').map (fun c => (c.1, tie' c.2)) →
      {p | p ∈ tvlSeries tie' since db' ∧ p.Within h t} =
        {p | p ∈ tvlSeries tie since db ∧ p.Within h t} := fun tie tie' htie =>
    Set.ext fun p => and_congr_left fun hp =>
      mem_tvlSeries_settled hdb hpools hkeyed hkeyed' htie hp
  refine Set.Subset.antisymm ?_ ?_
  · rintro _ ⟨tie', rfl⟩
    obtain ⟨tie, htie⟩ := Sql.exists_choice hsame (hsnd db) tie'
    exact ⟨tie, (hpoints tie tie' htie).symm⟩
  · rintro _ ⟨tie, rfl⟩
    obtain ⟨tie', htie⟩ := Sql.exists_choice hsame.symm (hsnd db') tie
    exact ⟨tie', hpoints tie tie' htie.symm⟩

/-- **The past is settled.**  From a state that was reached, whatever cycles at or after `t`,
requests, and retention jobs that drop nothing from `h` on come: the histories between `h` and `t`
have the same rows, the TVL series may have the same points for the hours between them and no
others, and a payment before `t` may have the same values and no others. -/
theorem past_settled (P : Deployment) (before : List SystemEvent) {after : List SystemEvent}
    (hclock : ClockFrom t after) (hretains : RetainsFrom h after) {s s' : System}
    (hs : s = run (System.step P) System.empty before) (hs' : s' = run (System.step P) s after) :
    (∀ visit visit' poolId since,
      ((poolHistory visit' poolId since s'.store.db).filter fun r =>
          h ≤ r.time ∧ r.time < t).Perm
        ((poolHistory visit poolId since s.store.db).filter fun r =>
          h ≤ r.time ∧ r.time < t)) ∧
    (∀ visit visit' assetCode assetIssuer since,
      ((tokenHistory visit' assetCode assetIssuer since s'.store.db).filter fun r =>
          h ≤ r.time ∧ r.time < t).Perm
        ((tokenHistory visit assetCode assetIssuer since s.store.db).filter fun r =>
          h ≤ r.time ∧ r.time < t)) ∧
    (∀ since, pointsBetween h t since s'.store.db = pointsBetween h t since s.store.db) ∧
    ∀ wt : WhaleTransactionRow, wt.time < t →
      (Set.range fun tie => assetPriceAt tie wt s'.store.db) =
        Set.range fun tie => assetPriceAt tie wt s.store.db := by
  have hgrows : s.store.db.GrowsFrom h t s'.store.db := hs' ▸ growsFrom_run P s hclock hretains
  have hpools : s.store.db.pools <+: s'.store.db.pools := by
    rw [hs']
    exact (System.history_of_reaches (System.reaches_run P s after)).db.pools
  have hkeyed : s.store.db.Keyed := by
    rw [hs]
    exact (System.Reachable.run .refl before).keyed.db
  have hkeyed' : s'.store.db.Keyed := by
    rw [hs', hs, ← run_append]
    exact (System.Reachable.run .refl (before ++ after)).keyed.db
  exact ⟨fun visit visit' _ _ => orderByTime_settled hgrows.poolSnapshots visit visit' _,
    fun visit visit' _ _ _ => orderByTime_settled hgrows.tokenSnapshots visit visit' _,
    fun since => pointsBetween_settled hgrows hpools hkeyed hkeyed' since,
    fun wt htime => congrArg Set.range (funext fun tie => hgrows.assetPriceAt htime tie)⟩

namespace Sample

/-- The same cycle two hours later. -/
def lastCycle : CycleEnv :=
  { listedCycle with run := { listedCycle.run with now := listedCycle.run.now + 2 * hour } }

/-- Of the three polls a job has dropped the first one, and the second one is all that the history
has between the other two. -/
theorem later_settled :
    ((poolHistory .stored otherPool.id 0 (run (System.step sharesDeployment) System.empty
        [.cycle listedCycle, .cycle laterCycle, .cycle lastCycle, .retention retentionJob]
          ).store.db).filter fun r =>
            laterCycle.run.now ≤ r.time ∧ r.time < lastCycle.run.now).length = 1 := by
  have hclock : ClockFrom lastCycle.run.now [.cycle lastCycle, .retention retentionJob] := by
    intro env henv
    obtain rfl : env = lastCycle := by simpa using henv
    exact le_refl _
  have hretains : RetainsFrom laterCycle.run.now [.cycle lastCycle, .retention retentionJob] := by
    intro job hjob
    obtain rfl : job = retentionJob := by simpa using hjob
    exact (add_sub_cancel_right laterCycle.run.now dropAfter).le
  have hsettled := (past_settled sharesDeployment [.cycle listedCycle, .cycle laterCycle] hclock
    hretains rfl rfl).1 .stored .stored otherPool.id 0
  exact hsettled.length_eq.trans (by decide +kernel)

end Sample

end Lumina
