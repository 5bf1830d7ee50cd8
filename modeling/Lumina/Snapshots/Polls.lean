import Lumina.Proc.Table
import Lumina.Snapshots.Crawl
import Lumina.Sql.Retained
import Lumina.System.Configured
import Lumina.System.Polled

/-!
# Polls

A cycle of the ingester polls the whole beginning of Horizon's listings or nothing: whatever fails
and wherever it stops, it adds one snapshot for each of the first 2000 pools that parse and one for
each of the first 2000 assets, in the order of the listings, or no snapshot at all
(`runOnce_polls`).  Nothing else adds a snapshot, and the snapshots of a poll have one time, so that
a retention job drops all or none of them.  So over any run the two tables are made of whole polls,
of the same cycles in the same order up to what was dropped (`system_polls`).

## Main definitions

* `RunEnv.Lists` : what Horizon lists to a cycle.
* `polledPools`, `polledTokens` : the snapshots of a listing.
* `PollsLeft` : the rows that are left of some polls.
-/

namespace Lumina

open Tx Trace

variable {D : RustDecimal} {X : Codec} {config : Config} {rules : List AlertRuleRow}
  {pools : List LiquidityPool} {assets : List AssetRecord} {w w' : World}

/-! ### The rows of a record -/

/-- The rows of what parses. -/
def rowsOf {γ δ : Type} (parsed : Outcome Error γ) (out : γ → List δ) : List δ :=
  match parsed with
  | .ret r => out r
  | .err _ => []
  | .stop => []
  | .panic => []

theorem rowsOf_nil {γ δ : Type} (parsed : Outcome Error γ) :
    rowsOf parsed (fun _ => ([] : List δ)) = [] := by
  cases parsed <;> rfl

/-- The snapshots of a listing of pools: those that parse. -/
def polledPools (D : RustDecimal) (now : Time) (pools : List LiquidityPool) :
    List PoolSnapshotRow :=
  pools.flatMap fun lp => rowsOf (poolSnapshot D now lp) fun r => [r.2.2]

/-- The snapshots of a listing of assets. -/
def polledTokens (D : RustDecimal) (now : Time) (assets : List AssetRecord) :
    List TokenSnapshotRow :=
  assets.map (tokenSnapshot D now)

section Adds

variable {β γ δ : Type} {calls : SnapshotEnv} {parsed : Outcome Error γ} {latest : Db → β}
  {upsert insert : γ → Db → Db} {alert : γ → β → Option (Option PendingAlert)}
  {table : World → List δ} {out : γ → List δ}

theorem adds_snapshotOf
    (h : ∀ r (w : World), table { w with db := insert r (upsert r w.db) } = table w ++ out r) :
    Adds table (snapshotOf calls parsed latest upsert insert alert) (rowsOf parsed out) := by
  intro hbreaks r hcut
  obtain ⟨w, found⟩ := r
  rcases snapshotOf_cases calls parsed latest upsert insert alert w with
    ⟨hp, -, hne⟩ | ⟨row, rfl, ⟨hf, -⟩ | ⟨hf, -⟩ | ⟨hf, w₁, heq⟩⟩
  · -- it does not parse and is skipped
    rw [isolated_of_not_through fun ⟨a, ha⟩ => hne a ha]
    cases parsed with
    | ret row => exact absurd rfl (hp row)
    | err e => exact (List.append_nil _).symm
    | stop => exact (List.append_nil _).symm
    | panic => exact (List.append_nil _).symm
  · obtain ⟨a, ha, -⟩ := snapshotOf_returns rfl hf hcut
    have hret : snapshotOf calls (.ret row) latest upsert insert alert ⟨w, false⟩ =
        (.ret a, ⟨{ w with db := insert row (upsert row w.db) }, false⟩) := by
      rw [snapshotOf_ok rfl hf, ha]
      rfl
    rw [isolated_of_ret hret]
    exact h row w
  · exact absurd (breaks_snapshotOf_iff.2 ⟨⟨row, rfl⟩, hf⟩) hbreaks
  · exact absurd (.inl (congrArg Prod.fst heq)) hcut

end Adds

variable {env : RunEnv} {now : Time}

theorem adds_ingestPool (calls : SnapshotEnv) (lp : LiquidityPool) (thresholdPct : Decimal) :
    Adds (fun w : World => w.db.poolSnapshots) (ingestPool D calls now lp thresholdPct rules)
      (polledPools D now [lp]) := by
  rw [polledPools, List.flatMap_singleton]
  refine adds_snapshotOf fun r w => ?_
  rw [insertPoolSnapshot, upsertPool_poolSnapshots]

theorem adds_ingestPool_tokens (calls : SnapshotEnv) (lp : LiquidityPool)
    (thresholdPct : Decimal) : Adds (fun w : World => w.db.tokenSnapshots)
      (ingestPool D calls now lp thresholdPct rules) [] := by
  rw [← rowsOf_nil (poolSnapshot D now lp)]
  refine adds_snapshotOf fun r w => ?_
  rw [insertPoolSnapshot, upsertPool_tokenSnapshots, List.append_nil]

theorem adds_ingestToken (calls : SnapshotEnv) (a : AssetRecord) (thresholdPct : Decimal) :
    Adds (fun w : World => w.db.tokenSnapshots) (ingestToken D calls now a thresholdPct rules)
      [tokenSnapshot D now a] := by
  rw [ingestToken_eq]
  refine @adds_snapshotOf _ _ _ _ _ _ _ _ _ _ (fun row => [row]) fun r w => ?_
  rw [insertTokenSnapshot, upsertToken_tokenSnapshots]

theorem adds_ingestToken_pools (calls : SnapshotEnv) (a : AssetRecord) (thresholdPct : Decimal) :
    Adds (fun w : World => w.db.poolSnapshots) (ingestToken D calls now a thresholdPct rules)
      [] := by
  rw [ingestToken_eq]
  refine @adds_snapshotOf _ _ _ _ _ _ _ _ _ _ (fun _ => []) fun r w => ?_
  rw [insertTokenSnapshot, upsertToken_poolSnapshots, List.append_nil]

/-- The price discovery adds no snapshot. -/
theorem adds_priceRecords {δ : Type} {table : World → List δ}
    (htable : ∀ w w', SameSnapshots w w' → table w' = table w) (env : RunEnv)
    (pools : List LiquidityPool) :
    List.Forall₂ (Adds table) (priceRecords D config env pools)
      ((priceRecords D config env pools).map fun _ => []) := by
  rw [List.forall₂_map_right_iff, List.forall₂_same]
  intro m hm _ r _
  rw [List.append_nil]
  exact htable _ _ (storesNone_priceRecords D config env pools m hm r).1

/-! ### The batch -/

theorem flatten_map_nil {ι δ : Type} (l : List ι) :
    (l.map fun _ => ([] : List δ)).flatten = [] := by
  rw [List.flatten_eq_nil_iff]
  intro rows hrows
  obtain ⟨_, -, rfl⟩ := List.mem_map.1 hrows
  rfl

theorem flatten_zipIdx {ι δ : Type} (l : List ι) (f : ι → List δ) :
    (l.zipIdx.map fun c => f c.1).flatten = l.flatMap f := by
  have hfst : l.zipIdx.map (fun c => f c.1) = (l.zipIdx.map Prod.fst).map f := by
    rw [List.map_map]
    rfl
  rw [hfst, List.zipIdx_map_fst]
  rfl

/-- The records of a batch add the snapshots of its listings. -/
theorem adds_batchRecords (env : RunEnv) (rules : List AlertRuleRow) (pools : List LiquidityPool)
    (assets : List AssetRecord) :
    (∃ rows, List.Forall₂ (Adds fun w : World => w.db.poolSnapshots)
        (batchRecords D config env rules pools assets) rows ∧
      rows.flatten = polledPools D env.now pools) ∧
    ∃ rows, List.Forall₂ (Adds fun w : World => w.db.tokenSnapshots)
        (batchRecords D config env rules pools assets) rows ∧
      rows.flatten = polledTokens D env.now assets := by
  constructor
  · refine ⟨pools.zipIdx.map (fun c => polledPools D env.now [c.1]) ++
      (priceRecords D config env pools).map (fun _ => []) ++ assets.zipIdx.map fun _ => [],
      List.rel_append (List.rel_append ?_ (adds_priceRecords (fun _ _ h => h.1) env pools)) ?_, ?_⟩
    · rw [poolRecords, List.forall₂_map_left_iff, List.forall₂_map_right_iff, List.forall₂_same]
      exact fun c _ => adds_ingestPool _ _ _
    · rw [tokenRecords, List.forall₂_map_left_iff, List.forall₂_map_right_iff, List.forall₂_same]
      exact fun c _ => adds_ingestToken_pools _ _ _
    · rw [List.flatten_append, List.flatten_append, flatten_map_nil, flatten_map_nil,
        List.append_nil, List.append_nil, flatten_zipIdx pools fun lp => polledPools D env.now [lp]]
      simp only [polledPools, List.flatMap_singleton]
  · refine ⟨pools.zipIdx.map (fun _ => []) ++ (priceRecords D config env pools).map (fun _ => []) ++
      assets.zipIdx.map fun c => [tokenSnapshot D env.now c.1],
      List.rel_append (List.rel_append ?_ (adds_priceRecords (fun _ _ h => h.2) env pools)) ?_, ?_⟩
    · rw [poolRecords, List.forall₂_map_left_iff, List.forall₂_map_right_iff, List.forall₂_same]
      exact fun c _ => adds_ingestPool_tokens _ _ _
    · rw [tokenRecords, List.forall₂_map_left_iff, List.forall₂_map_right_iff, List.forall₂_same]
      exact fun c _ => adds_ingestToken _ _ _
    · rw [List.flatten_append, List.flatten_append, flatten_map_nil, flatten_map_nil,
        List.nil_append, List.nil_append,
        flatten_zipIdx assets fun a => [tokenSnapshot D env.now a]]
      exact List.flatMap_pure_eq_map _ _

/-! ### A cycle -/

/-- `w'` has the snapshots of `w` and those of a poll. -/
structure PolledFrom (D : RustDecimal) (now : Time) (pools : List LiquidityPool)
    (assets : List AssetRecord) (w w' : World) : Prop where
  pools : w'.db.poolSnapshots = w.db.poolSnapshots ++ polledPools D now pools
  tokens : w'.db.tokenSnapshots = w.db.tokenSnapshots ++ polledTokens D now assets

theorem PolledFrom.of_same (h : PolledFrom D now pools assets w w') {w'' : World}
    (hsame : SameSnapshots w' w'') : PolledFrom D now pools assets w w'' :=
  ⟨hsame.1.trans h.pools, hsame.2.trans h.tokens⟩

theorem commitBatch_polls (env : RunEnv) (rules : List AlertRuleRow) (pools : List LiquidityPool)
    (assets : List AssetRecord) (w : World) :
    SameSnapshots w (commitBatch D config env rules pools assets w).2 ∨
      PolledFrom D env.now pools assets w (commitBatch D config env rules pools assets w).2 := by
  obtain ⟨⟨poolRows, hpools, hpoolRows⟩, tokenRows, htokens, htokenRows⟩ :=
    @adds_batchRecords D config env rules pools assets
  rw [commitBatch, batchBody_eq]
  rcases transaction_collectAll env.start env.commit Error.db
    (record_batchRecords D config env rules pools assets) w with hsame | hadds
  · rw [hsame]
    exact .inl (refl w)
  · exact .inr ⟨hpoolRows ▸ hadds _ _ hpools, htokenRows ▸ hadds _ _ htokens⟩

/-- What Horizon lists to a cycle. -/
structure RunEnv.Lists (config : Config) (env : RunEnv) (pools : List LiquidityPool)
    (assets : List AssetRecord) : Prop where
  pools : ∃ url, Horizon.Lists env.pools pools 200 url ∧ url 0 =
    Horizon.buildUrl config.horizonUrl "/liquidity_pools" [("limit", "200"), ("order", "desc")]
  assets : ∃ url, Horizon.Lists env.assets assets 200 url ∧ url 0 =
    Horizon.buildUrl config.horizonUrl "/assets" [("limit", "200"), ("order", "desc")]

/-- **A cycle polls everything or nothing**, whatever fails and wherever it stops. -/
theorem runOnce_polls {env : RunEnv} (h : env.Lists config pools assets) (w : World) :
    SameSnapshots w (runOnce D config env w).2 ∨
      PolledFrom D env.now (pools.take 2000) (assets.take 2000) w (runOnce D config env w).2 := by
  obtain ⟨poolsUrl, hpools, hpoolsUrl⟩ := h.pools
  obtain ⟨assetsUrl, hassets, hassetsUrl⟩ := h.assets
  unfold runOnce
  rw [Proc.bind_apply, Proc.lift_apply]
  cases hp : Horizon.liquidityPools env.pools config.horizonUrl 10 with
  | ret listed =>
    obtain rfl := hpools.getAllPages_eq (by omega) hpoolsUrl hp
    dsimp only
    rw [Proc.bind_apply, Proc.lift_apply]
    cases ha : Horizon.assets env.assets config.horizonUrl 10 with
    | ret listed =>
      obtain rfl := hassets.getAllPages_eq (by omega) hassetsUrl ha
      dsimp only
      rw [Proc.bind_apply]
      by_cases hstop : env.rules = .stop
      · rw [hstop]
        exact .inl (refl w)
      · rw [loadRules_of_ne_stop hstop]
        have hafter := (@samePolled_commitBatch D config env
          (if env.rules = .fail then [] else listAlertRules w.db) (pools.take (200 * 10))
          (assets.take (200 * 10)) w).sameSnapshots
        exact (commitBatch_polls _ _ _ _ w).imp (fun hsame => IsTrans.trans _ _ _ hsame hafter)
          fun hpolled => hpolled.of_same hafter
    | err e => exact .inl (refl w)
    | stop => exact .inl (refl w)
    | panic => exact .inl (refl w)
  | err e => exact .inl (refl w)
  | stop => exact .inl (refl w)
  | panic => exact .inl (refl w)

theorem ingestCycle_polls {env : CycleEnv} (h : env.run.Lists config pools assets) (w : World) :
    SameSnapshots w (ingestCycle D X config env w).2 ∨
      PolledFrom D env.run.now (pools.take 2000) (assets.take 2000) w
        (ingestCycle D X config env w).2 := by
  have hafter := (@samePolled_runOnce D X config env w).sameSnapshots
  exact (runOnce_polls h w).imp (fun hsame => IsTrans.trans _ _ _ hsame hafter)
    fun hpolled => hpolled.of_same hafter

/-! ### A run -/

/-- The cycle that an event is. -/
def SystemEvent.cycle? : SystemEvent → Option CycleEnv
  | .cycle env => some env
  | .request _ _ => none
  | .retention _ => none

/-- `rows'` is what is left of `rows` and, after them, of the polls of some cycles.  Of a poll all
rows are left, or its time was dropped. -/
def PollsLeft {ρ : Type} (dropped : Time → Prop) (time : ρ → Time) (poll : CycleEnv → List ρ)
    (done : List CycleEnv) (rows rows' : List ρ) : Prop :=
  ∃ old left, Sql.Thinned (fun r => dropped (time r)) rows old ∧
    Sql.Thinned (fun env => dropped env.run.now) done left ∧ rows' = old ++ left.flatMap poll

section PollsLeft

variable {ρ : Type} {dropped dropped' : Time → Prop} {time : ρ → Time} {poll : CycleEnv → List ρ}
  {done : List CycleEnv} {rows rows' : List ρ}

theorem PollsLeft.nil (rows : List ρ) : PollsLeft dropped time poll [] rows rows :=
  ⟨rows, [], .refl rows, .nil, (List.append_nil rows).symm⟩

theorem PollsLeft.mono (h : PollsLeft dropped time poll done rows rows')
    (hdropped : ∀ t, dropped t → dropped' t) : PollsLeft dropped' time poll done rows rows' := by
  obtain ⟨old, left, hold, hleft, heq⟩ := h
  exact ⟨old, left, hold.mono fun _ => hdropped _, hleft.mono fun _ => hdropped _, heq⟩

theorem PollsLeft.snoc (h : PollsLeft dropped time poll done rows rows') (env : CycleEnv) :
    PollsLeft dropped time poll (done ++ [env]) rows (rows' ++ poll env) := by
  obtain ⟨old, left, hold, hleft, rfl⟩ := h
  refine ⟨old, left ++ [env], hold, hleft.snoc env, ?_⟩
  rw [List.flatMap_append, List.flatMap_singleton, List.append_assoc]

/-- A job takes out a poll as a whole. -/
theorem PollsLeft.filter (h : PollsLeft dropped time poll done rows rows')
    (htime : ∀ env, ∀ r ∈ poll env, time r = env.run.now) {limit : Time}
    (hlimit : ∀ t, t < limit → dropped t) :
    PollsLeft dropped time poll done rows (rows'.filter fun r => limit ≤ time r) := by
  have hold_of : ∀ t, decide (limit ≤ t) = false → dropped t :=
    fun t ht => hlimit t (not_le.1 (of_decide_eq_false ht))
  obtain ⟨old, left, hold, hleft, rfl⟩ := h
  refine ⟨_, left.filter fun env => limit ≤ env.run.now, hold.trans (.of_filter (fun r => hold_of _)
    old), hleft.trans (.of_filter (fun env => hold_of _) left), ?_⟩
  rw [List.filter_append, Sql.filter_flatMap_eq fun env r hr => by rw [htime env r hr]]

end PollsLeft

theorem poolSnapshot_time {now : Time} {lp : LiquidityPool}
    {r : PoolReserve × PoolReserve × PoolSnapshotRow} (h : poolSnapshot D now lp = .ret r) :
    r.2.2.time = now := by
  unfold poolSnapshot at h
  split at h
  · obtain ⟨reserveA, -, h⟩ := Outcome.bind_eq_ret.1 h
    obtain ⟨reserveB, -, h⟩ := Outcome.bind_eq_ret.1 h
    obtain ⟨totalShares, -, h⟩ := Outcome.bind_eq_ret.1 h
    rw [← Outcome.ret.inj h]
  · cases h

theorem polledPools_time {now : Time} {r : PoolSnapshotRow} (hr : r ∈ polledPools D now pools) :
    r.time = now := by
  obtain ⟨lp, -, hr⟩ := List.mem_flatMap.1 hr
  cases hparsed : poolSnapshot D now lp with
  | ret c =>
    rw [hparsed] at hr
    rw [List.mem_singleton.1 hr]
    exact poolSnapshot_time hparsed
  | err e => simp [hparsed, rowsOf] at hr
  | stop => simp [hparsed, rowsOf] at hr
  | panic => simp [hparsed, rowsOf] at hr

theorem polledTokens_time {now : Time} {r : TokenSnapshotRow}
    (hr : r ∈ polledTokens D now assets) : r.time = now := by
  obtain ⟨a, -, rfl⟩ := List.mem_map.1 hr
  rfl

/-- **The snapshots are whole polls.**  After any run the two tables hold what is left of the rows
before it and of the polls of some of its cycles, the same for both tables and in their order: of a
poll a table holds all rows, or a retention job of the run dropped its time from the table. -/
theorem system_polls (P : Deployment) (s : System) (es : List SystemEvent)
    (pools : CycleEnv → List LiquidityPool) (assets : CycleEnv → List AssetRecord)
    (hlists : ∀ env, .cycle env ∈ es → env.run.Lists P.config (pools env) (assets env)) :
    ∃ done : List CycleEnv, done.Sublist (es.filterMap SystemEvent.cycle?) ∧
      PollsLeft (Dropped es .poolSnapshots) (·.time)
        (fun env => polledPools P.server.decimal env.run.now ((pools env).take 2000)) done
        s.store.db.poolSnapshots (run (System.step P) s es).store.db.poolSnapshots ∧
      PollsLeft (Dropped es .tokenSnapshots) (·.time)
        (fun env => polledTokens P.server.decimal env.run.now ((assets env).take 2000)) done
        s.store.db.tokenSnapshots (run (System.step P) s es).store.db.tokenSnapshots := by
  induction es using List.reverseRecOn with
  | nil => exact ⟨[], .slnil, .nil _, .nil _⟩
  | append_singleton es e ih =>
    obtain ⟨done, hdone, hpools, htokens⟩ := ih fun env henv =>
      hlists env (List.mem_append_left _ henv)
    have hmono : ∀ table time, Dropped es table time → Dropped (es ++ [e]) table time :=
      fun table time ⟨e', he', h⟩ => ⟨e', List.mem_append_left _ he', h⟩
    have hpools := hpools.mono (hmono .poolSnapshots)
    have htokens := htokens.mono (hmono .tokenSnapshots)
    rw [List.filterMap_append, run_snoc]
    have hrest : done.Sublist
        (es.filterMap SystemEvent.cycle? ++ [e].filterMap SystemEvent.cycle?) :=
      hdone.trans (List.sublist_append_left _ _)
    generalize run (System.step P) s es = s₁ at hpools htokens ⊢
    cases e with
    | request env req =>
      have hsame : SameSnapshots s₁.world (s₁.step P (.request env req)).world :=
        (System.request_samePolled env req).sameSnapshots
      exact ⟨done, hrest, hsame.1 ▸ hpools, hsame.2 ▸ htokens⟩
    | cycle env =>
      have hlisted := hlists env (List.mem_append_right _ List.mem_cons_self)
      have hcycle := @ingestCycle_polls P.server.decimal P.codec P.config _ _ env hlisted s₁.world
      rcases hcycle with hsame | hpolled
      · exact ⟨done, hrest, hsame.1 ▸ hpools, hsame.2 ▸ htokens⟩
      · exact ⟨done ++ [env], hdone.append (List.Sublist.refl _), hpolled.pools ▸ hpools.snoc env,
          hpolled.tokens ▸ htokens.snoc env⟩
    | retention job =>
      have hdropped : ∀ t, t < job.limit → Dropped (es ++ [.retention job]) job.table t :=
        fun t ht => ⟨_, List.mem_append_right _ List.mem_cons_self, rfl, ht⟩
      obtain ⟨table, now, lag⟩ := job
      cases table with
      | poolSnapshots =>
        exact ⟨done, hrest, hpools.filter (fun env r hr => polledPools_time hr) hdropped, htokens⟩
      | tokenSnapshots =>
        exact ⟨done, hrest, hpools, htokens.filter (fun env r hr => polledTokens_time hr) hdropped⟩

end Lumina

/-! ### Two polls and a job -/

namespace Lumina.Sample

open Trace

/-- A token of the listings. -/
def listedAsset : AssetRecord := ⟨"AQUA", "GAQUA", 12, "250.0000000", 0⟩

/-- A cycle that lists a pool, one without its reserves, and a token. -/
def listedCycle : CycleEnv where
  run := { polled [] .ok with
    pools := linked [otherPool, barePool]
    assets := linked [listedAsset] }
  lending := (paid .ok).lending

theorem listedCycle_lists :
    listedCycle.run.Lists Config.default [otherPool, barePool] [listedAsset] where
  pools := ⟨_, linked_lists _ (Horizon.buildUrl Config.default.horizonUrl "/liquidity_pools"
    [("limit", "200"), ("order", "desc")]), rfl⟩
  assets := ⟨_, linked_lists _ (Horizon.buildUrl Config.default.horizonUrl "/assets"
    [("limit", "200"), ("order", "desc")]), rfl⟩

/-- The same cycle an hour later. -/
def laterCycle : CycleEnv :=
  { listedCycle with run := { listedCycle.run with now := listedCycle.run.now + hour } }

def sharesDeployment : Deployment :=
  { opsDeployment with server := { adminServer with decimal := shares } }

/-- A job that drops the pools of the first of the two polls. -/
def retentionJob : RetentionJob := ⟨.poolSnapshots, laterCycle.run.now + dropAfter, 0⟩

/-- Two polls, and the job when the first one is too old. -/
def polledEvents : List SystemEvent :=
  [.cycle listedCycle, .cycle laterCycle, .retention retentionJob]

/-- Of the pools, of which the one without its reserves is skipped, the later poll is left, and of
the tokens both polls. -/
theorem listed_polled :
    (run (System.step sharesDeployment) System.empty polledEvents).store.db.poolSnapshots.map
        (fun r => (r.poolId, r.time)) = [(otherPool.id, laterCycle.run.now)] ∧
      (run (System.step sharesDeployment) System.empty polledEvents).store.db.tokenSnapshots.map
        (·.time) = [listedCycle.run.now, laterCycle.run.now] ∧
      ∃ done : List CycleEnv, done.Sublist [listedCycle, laterCycle] ∧
        PollsLeft (Dropped polledEvents .poolSnapshots) (·.time)
          (fun env => polledPools shares env.run.now [otherPool, barePool]) done []
          (run (System.step sharesDeployment) System.empty
            polledEvents).store.db.poolSnapshots := by
  obtain ⟨done, hdone, hpools, -⟩ := system_polls sharesDeployment System.empty polledEvents
    (fun _ => [otherPool, barePool]) (fun _ => [listedAsset]) (by
      intro env henv
      have hboth : env = listedCycle ∨ env = laterCycle := by simpa [polledEvents] using henv
      rcases hboth with rfl | rfl
      · exact listedCycle_lists
      · exact ⟨listedCycle_lists.pools, listedCycle_lists.assets⟩)
  exact ⟨by decide +kernel, by decide +kernel, done, hdone, hpools⟩

end Lumina.Sample
