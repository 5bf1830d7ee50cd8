import Lumina.Api.AdminKey
import Lumina.Sql.Page
import Lumina.Sql.Spans
import Lumina.System.Keys

/-!
# Trends

In every state that the system reaches, the trends of the pools list each pool once whose
snapshots in the window have two times, and no other, with its first and its last snapshot there;
the greatest change comes first, and pools without one come last (`poolsTrending_exact`).  The
trends of the tokens do the same with the numbers of holders (`tokensTrending_exact`).

## Main definitions

* `poolWindow`, `tokenWindow` : the snapshots of a window.
* `PoolRow.trend`, `tokenTrend` : the row that a first and a last snapshot make.
-/

namespace Lumina

/-! ### The changes -/

section Changes

variable {α β : Type} {l : List α} {l' : List β}

/-- Rows with their changes are the rows, each with its change. -/
theorem mapM_change {change : α → Option (Option Decimal)} {with' : α → Option Decimal → β}
    {raw : β → α} {pct : β → Option Decimal} (hraw : ∀ a c, raw (with' a c) = a)
    (hpct : ∀ a c, pct (with' a c) = c)
    (h : (l.mapM fun a => do
      let c ← change a
      return with' a c) = some l') :
    l'.map raw = l ∧ ∀ b ∈ l', change (raw b) = some (pct b) := by
  induction l generalizing l' with
  | nil =>
    obtain rfl : [] = l' := by simpa using h
    exact ⟨rfl, nofun⟩
  | cons a l ih =>
    rw [List.mapM_cons] at h
    obtain ⟨b, hb, h⟩ := Option.bind_eq_some_iff.1 h
    obtain ⟨c, hc, hb⟩ := Option.bind_eq_some_iff.1 hb
    obtain rfl := Option.some.inj hb
    obtain ⟨bs, hbs, h⟩ := Option.bind_eq_some_iff.1 h
    obtain rfl := Option.some.inj h
    obtain ⟨hmap, hall⟩ := ih hbs
    refine ⟨by rw [List.map_cons, hmap, hraw], List.forall_mem_cons.2 ⟨?_, hall⟩⟩
    rw [hraw, hpct, hc]

variable {pct : β → Option Decimal}

theorem sortByPct_perm : (sortByPct pct l').Perm l' := List.perm_insertionSort _ _

/-- The greatest change comes first, and rows without one last. -/
theorem pairwise_sortByPct : (sortByPct pct l').Pairwise fun a b =>
    Sql.nullsLast (pct b) ≤ Sql.nullsLast (pct a) := by
  have : Std.Total fun a b : β => Sql.nullsLast (pct b) ≤ Sql.nullsLast (pct a) :=
    ⟨fun a b => le_total (Sql.nullsLast (pct b)) (Sql.nullsLast (pct a))⟩
  have : IsTrans β fun a b : β => Sql.nullsLast (pct b) ≤ Sql.nullsLast (pct a) :=
    ⟨fun _ _ _ hab hbc => hbc.trans hab⟩
  exact List.pairwise_insertionSort _ _

end Changes

/-- What is computed from the rows of a query, where nothing goes wrong. -/
theorem eq_some_of_fetch {α β : Type} {f : Fault} {q : Store → α} {g : α → Option β} {s : Store}
    {b : β} (h : ((do
      let raw ← Store.fetch f q
      Proc.lift (.orPanic (g raw)) : Proc Store Error β) s).1 = .ret b) : g (q s) = some b := by
  cases f with
  | ok =>
    simp only [Store.fetch, Proc.bind_apply, Proc.await_ok, Proc.lift_apply] at h
    cases hg : g (q s) with
    | none => simp [hg] at h
    | some b' =>
      rw [hg, Outcome.orPanic_some] at h
      rw [Outcome.ret.inj h]
  | fail => simp [Store.fetch, Proc.bind_apply] at h
  | stop => simp [Store.fetch, Proc.bind_apply] at h

variable {webhook : WebhookConfig} {D : RustDecimal} {env : QueryEnv} {s : System} {since : Time}
  {hours : ℤ}

/-! ### The pools -/

/-- The row of a pool. -/
def PoolRow.trend (p : PoolRow) (e l : PoolSnapshotRow) : PoolTrendRaw :=
  ⟨p.poolId, p.assetA, p.assetB, p.feeBp, e.time, l.time, e.totalShares, l.totalShares, l.reserveA,
    l.reserveB⟩

/-- The snapshots of a window. -/
def poolWindow (since : Time) (db : Db) : List PoolSnapshotRow :=
  db.poolSnapshots.filter fun s => since ≤ s.time

/-- **The query** joins the pools with their first and last snapshots. -/
theorem mem_poolTrends {env : TrendEnv PoolTrendRaw String} {since : Time} {db : Db}
    {r : PoolTrendRaw} : r ∈ poolTrends env since db ↔ ∃ p ∈ db.pools, ∃ x ∈
      Sql.spans env.tieFirst env.tieLast (·.poolId) (·.time) (poolWindow since db),
        x.1.poolId = p.poolId ∧ p.trend x.1 x.2 = r := by
  unfold poolTrends Sql.spans poolWindow
  rw [(env.visit.perm _).mem_iff]
  simp only [List.mem_flatMap, List.mem_map, List.mem_filter, decide_eq_true_eq,
    Bool.and_eq_true]
  constructor
  · rintro ⟨p, hp, e, ⟨he, hep⟩, l, ⟨hl, hlp, hlt⟩, rfl⟩
    exact ⟨p, hp, (e, l), ⟨e, he, l, ⟨hl, hlp.trans hep.symm, hlt⟩, rfl⟩, hep, rfl⟩
  · rintro ⟨p, hp, _, ⟨e, he, l, ⟨hl, hle, hlt⟩, rfl⟩, hep, rfl⟩
    exact ⟨p, hp, e, ⟨he, hep⟩, l, ⟨hl, hle.trans hep, hlt⟩, rfl⟩

/-- No pool has two rows. -/
theorem nodup_poolTrends {env : TrendEnv PoolTrendRaw String} {since : Time} {db : Db}
    (h : (db.pools.map (·.poolId)).Nodup) : ((poolTrends env since db).map (·.poolId)).Nodup := by
  unfold poolTrends earliest
  rw [((env.visit.perm _).map _).nodup_iff]
  refine Sql.nodup_flatMap_of_key h (fun p _ r hr => ?_) fun p _ => ?_
  · obtain ⟨e, -, hr⟩ := List.mem_flatMap.1 hr
    obtain ⟨l, -, rfl⟩ := List.mem_map.1 hr
    rfl
  · have hfirst := Sql.length_filter_key_le_one (@Sql.nodup_key_distinctOn _ _ _ _ _ env.tieFirst
      (fun s : PoolSnapshotRow => s.poolId) (fun s => OrderDual.toDual s.time)
      (db.poolSnapshots.filter fun s => since ≤ s.time)) (fun e => decide (e.poolId = p.poolId))
      fun e he => of_decide_eq_true he
    match hl : List.filter _ _, hfirst with
    | [], _ => exact Nat.zero_le 1
    | [e], _ =>
      rw [List.flatMap_singleton, List.length_map]
      exact Sql.length_filter_key_le_one Sql.nodup_key_distinctOn _ fun l hl =>
        of_decide_eq_true (Bool.and_eq_true_iff.1 hl).1

/-- What the endpoint makes of the rows. -/
theorem poolTrendsSorted_cases {raw : List PoolTrendRaw} {trends : List PoolTrend}
    (h : poolTrendsSorted D raw = some trends) :
    (trends.map (·.toPoolTrendRaw)).Perm raw ∧
      (∀ t ∈ trends, percentChange D t.sharesBefore t.sharesNow = some t.sharesChangePct) ∧
      trends.Pairwise fun a b =>
        Sql.nullsLast b.sharesChangePct ≤ Sql.nullsLast a.sharesChangePct := by
  obtain ⟨l, hl, h⟩ := Option.bind_eq_some_iff.1 h
  obtain rfl := Option.some.inj h
  obtain ⟨hmap, hall⟩ := @mapM_change _ _ raw l
    (fun r => percentChange D r.sharesBefore r.sharesNow)
    (fun r c => { r with sharesChangePct := c : PoolTrend }) (·.toPoolTrendRaw)
    (·.sharesChangePct) (fun _ _ => rfl) (fun _ _ => rfl) hl
  refine ⟨?_, fun t ht => hall t (sortByPct_perm.mem_iff.1 ht), pairwise_sortByPct⟩
  rw [← hmap]
  exact sortByPct_perm.map _

/-- **The trends of the pools.** -/
theorem poolsTrending_exact (hreach : System.Reachable webhook s) {trends : List PoolTrend}
    (h : ((CachedQuery.poolsTrending hours).compute D env since s.store).1 = .ret trends) :
    (trends.map (·.poolId)).Nodup ∧
    (∀ poolId, (∃ t ∈ trends, t.poolId = poolId) ↔
      ∃ a ∈ poolWindow since s.store.db, ∃ b ∈ poolWindow since s.store.db,
        a.poolId = poolId ∧ b.poolId = poolId ∧ a.time < b.time) ∧
    (∀ t ∈ trends, ∃ p ∈ s.store.db.pools, ∃ e l,
      Sql.Span (·.poolId) (·.time) (poolWindow since s.store.db) p.poolId e l ∧
        t.toPoolTrendRaw = p.trend e l ∧
        percentChange D e.totalShares l.totalShares = some t.sharesChangePct) ∧
    trends.Pairwise fun a b =>
      Sql.nullsLast b.sharesChangePct ≤ Sql.nullsLast a.sharesChangePct := by
  have hkeyed := hreach.keyed.db
  obtain ⟨hperm, hpct, hsorted⟩ := poolTrendsSorted_cases (eq_some_of_fetch h)
  have hids : (trends.map (·.poolId)).Perm
      ((poolTrends env.poolTrends since s.store.db).map (·.poolId)) := by
    have hmap := hperm.map (·.poolId)
    rwa [List.map_map] at hmap
  refine ⟨hids.nodup_iff.2 (nodup_poolTrends hkeyed.poolIds), fun poolId => ?_, fun t ht => ?_,
    hsorted⟩
  · rw [← Sql.exists_mem_spans_iff, ← List.mem_map, hids.mem_iff, List.mem_map]
    constructor
    · rintro ⟨r, hr, rfl⟩
      obtain ⟨p, -, x, hx, hxp, rfl⟩ := mem_poolTrends.1 hr
      exact ⟨x, hx, hxp⟩
    · rintro ⟨x, hx, rfl⟩
      -- a snapshot belongs to a pool that is listed
      obtain ⟨p, hp, hpx⟩ := hkeyed.poolOf x.1
        (List.mem_filter.1 (Sql.span_of_mem_spans hx).first_mem).1
      exact ⟨p.trend x.1 x.2, mem_poolTrends.2 ⟨p, hp, x, hx, hpx.symm, rfl⟩, hpx⟩
  · obtain ⟨p, hp, x, hx, hxp, hrow⟩ := mem_poolTrends.1
      (hperm.mem_iff.1 (List.mem_map_of_mem ht))
    refine ⟨p, hp, x.1, x.2, hxp ▸ Sql.span_of_mem_spans hx, hrow.symm, ?_⟩
    have hchange := hpct t ht
    rwa [← hrow] at hchange

/-! ### The tokens -/

/-- The key of a token snapshot. -/
def TokenSnapshotRow.token (s : TokenSnapshotRow) : String × String := (s.assetCode, s.assetIssuer)

theorem TokenSnapshotRow.token_eq_iff {s t : TokenSnapshotRow} :
    s.token = t.token ↔ s.assetCode = t.assetCode ∧ s.assetIssuer = t.assetIssuer :=
  Prod.ext_iff

/-- The row of a token. -/
def tokenTrend (e l : TokenSnapshotRow) : TokenTrendRaw :=
  ⟨e.assetCode, e.assetIssuer, e.time, l.time, e.amount, l.amount, e.numAccounts, l.numAccounts⟩

/-- The snapshots of a window. -/
def tokenWindow (since : Time) (db : Db) : List TokenSnapshotRow :=
  db.tokenSnapshots.filter fun s => since ≤ s.time

/-- **The query** joins the first and the last snapshots. -/
theorem tokenTrends_perm (env : TrendEnv TokenTrendRaw (String × String)) (since : Time) (db : Db) :
    (tokenTrends env since db).Perm
      ((Sql.spans env.tieFirst env.tieLast TokenSnapshotRow.token (·.time)
        (tokenWindow since db)).map fun x => tokenTrend x.1 x.2) := by
  refine (env.visit.perm _).trans (List.Perm.of_eq ?_)
  unfold Sql.spans earliest
  rw [List.map_flatMap]
  refine List.flatMap_congr fun e _ => ?_
  rw [List.map_map]
  congr 1
  refine List.filter_congr fun l _ => ?_
  simp only [TokenSnapshotRow.token_eq_iff, Bool.decide_and]

theorem tokenTrendsSorted_cases {raw : List TokenTrendRaw} {trends : List TokenTrend}
    (h : tokenTrendsSorted D raw = some trends) :
    (trends.map (·.toTokenTrendRaw)).Perm raw ∧
      (∀ t ∈ trends, percentChange D t.holdersBefore t.holdersNow = some t.holdersChangePct) ∧
      trends.Pairwise fun a b =>
        Sql.nullsLast b.holdersChangePct ≤ Sql.nullsLast a.holdersChangePct := by
  obtain ⟨l, hl, h⟩ := Option.bind_eq_some_iff.1 h
  obtain rfl := Option.some.inj h
  obtain ⟨hmap, hall⟩ := @mapM_change _ _ raw l
    (fun r => percentChange D r.holdersBefore r.holdersNow)
    (fun r c => { r with holdersChangePct := c : TokenTrend }) (·.toTokenTrendRaw)
    (·.holdersChangePct) (fun _ _ => rfl) (fun _ _ => rfl) hl
  refine ⟨?_, fun t ht => hall t (sortByPct_perm.mem_iff.1 ht), pairwise_sortByPct⟩
  rw [← hmap]
  exact sortByPct_perm.map _

/-- **The trends of the tokens.** -/
theorem tokensTrending_exact {store : Store} {trends : List TokenTrend}
    (h : ((CachedQuery.tokensTrending hours).compute D env since store).1 = .ret trends) :
    (trends.map fun t => (t.assetCode, t.assetIssuer)).Nodup ∧
    (∀ token, (∃ t ∈ trends, (t.assetCode, t.assetIssuer) = token) ↔
      ∃ a ∈ tokenWindow since store.db, ∃ b ∈ tokenWindow since store.db,
        a.token = token ∧ b.token = token ∧ a.time < b.time) ∧
    (∀ t ∈ trends, ∃ e l,
      Sql.Span TokenSnapshotRow.token (·.time) (tokenWindow since store.db)
          (t.assetCode, t.assetIssuer) e l ∧
        t.toTokenTrendRaw = tokenTrend e l ∧
        percentChange D e.numAccounts l.numAccounts = some t.holdersChangePct) ∧
    trends.Pairwise fun a b =>
      Sql.nullsLast b.holdersChangePct ≤ Sql.nullsLast a.holdersChangePct := by
  obtain ⟨hperm, hpct, hsorted⟩ := tokenTrendsSorted_cases (eq_some_of_fetch h)
  have hrows := hperm.trans (tokenTrends_perm env.tokenTrends since store.db)
  have hkeys : (trends.map fun t => (t.assetCode, t.assetIssuer)).Perm
      ((Sql.spans env.tokenTrends.tieFirst env.tokenTrends.tieLast TokenSnapshotRow.token (·.time)
        (tokenWindow since store.db)).map fun x => x.1.token) := by
    have hmap := hrows.map fun r => (r.assetCode, r.assetIssuer)
    rw [List.map_map, List.map_map] at hmap
    exact hmap
  refine ⟨hkeys.nodup_iff.2 Sql.nodup_spans, fun token => ?_, fun t ht => ?_, hsorted⟩
  · rw [← Sql.exists_mem_spans_iff, ← List.mem_map, hkeys.mem_iff, List.mem_map]
  · obtain ⟨x, hx, hrow⟩ := List.mem_map.1 (hrows.mem_iff.1 (List.mem_map_of_mem ht))
    have hspan := Sql.span_of_mem_spans hx
    have hkey : x.1.token = (t.assetCode, t.assetIssuer) :=
      congrArg (fun r : TokenTrendRaw => (r.assetCode, r.assetIssuer)) hrow
    refine ⟨x.1, x.2, hkey ▸ hspan, hrow.symm, ?_⟩
    have hchange := hpct t ht
    rwa [← hrow] at hchange

end Lumina

/-! ### A pool that grows -/

namespace Lumina.Sample

/-- A pool with two snapshots, and one that is before the window. -/
def trendingSystem : System :=
  let w := { System.empty.world with db := upsertPool ⟨"0a", "native", "USDC:G1", 30⟩ Db.empty }
  let w := { w with db := insertPoolSnapshot ⟨0, "0a", 1, 1, 1, 1⟩ w.db }
  let w := { w with db := insertPoolSnapshot ⟨3, "0a", 5, 2, 100, 1⟩ w.db }
  System.empty.withWorld { w with db := insertPoolSnapshot ⟨8, "0a", 6, 3, 150, 1⟩ w.db }

theorem trendingSystem_reachable : System.Reachable Config.default.webhook trendingSystem := by
  refine System.reaches_withWorld ?_
  refine (((Relation.ReflTransGen.single (.pool _ _)).tail (.poolSnapshot _ _ ?_)).tail
    (.poolSnapshot _ _ ?_)).tail (.poolSnapshot _ _ ?_)
  · exact ⟨⟨"0a", "native", "USDC:G1", 30⟩, List.mem_singleton.2 rfl, rfl⟩
  · exact ⟨⟨"0a", "native", "USDC:G1", 30⟩, List.mem_singleton.2 rfl, rfl⟩
  · exact ⟨⟨"0a", "native", "USDC:G1", 30⟩, List.mem_singleton.2 rfl, rfl⟩

/-- It is listed once, with its growth by a half. -/
def grown : PoolTrend := ⟨⟨"0a", "native", "USDC:G1", 30, 3, 8, 100, 150, 6, 3⟩, some 50⟩

theorem pool_trends : ((CachedQuery.poolsTrending 24).compute adminServer.decimal
    requestEnv.cached.query 2 trendingSystem.store).1 = .ret [grown] ∧
    ∃ a ∈ poolWindow 2 trendingSystem.store.db, ∃ b ∈ poolWindow 2 trendingSystem.store.db,
      a.poolId = "0a" ∧ b.poolId = "0a" ∧ a.time < b.time := by
  have h : ((CachedQuery.poolsTrending 24).compute adminServer.decimal
      requestEnv.cached.query 2 trendingSystem.store).1 = .ret [grown] := by
    have hsorted : poolTrendsSorted adminServer.decimal
        (poolTrends requestEnv.cached.query.poolTrends 2 trendingSystem.store.db) =
          some [grown] := by
      decide +kernel
    exact congrArg Outcome.orPanic hsorted
  exact ⟨h, ((poolsTrending_exact trendingSystem_reachable h).2.1 "0a").1
    ⟨grown, List.mem_singleton.2 rfl, rfl⟩⟩

/-- A token that starts without holders. -/
def newToken : Store :=
  let db := insertTokenSnapshot ⟨3, "USDC", "G1", 0, 0, 0⟩ Db.empty
  { Store.empty with db := insertTokenSnapshot ⟨8, "USDC", "G1", 10, 4, 0⟩ db }

/-- It is listed without a change. -/
theorem token_trends : ∃ e l, Sql.Span TokenSnapshotRow.token (·.time) (tokenWindow 2 newToken.db)
    ("USDC", "G1") e l ∧ tokenTrend e l = ⟨"USDC", "G1", 3, 8, 0, 10, 0, 4⟩ := by
  have h : ((CachedQuery.tokensTrending 24).compute adminServer.decimal
      requestEnv.cached.query 2 newToken).1 =
        .ret [⟨⟨"USDC", "G1", 3, 8, 0, 10, 0, 4⟩, none⟩] := by
    have hsorted : tokenTrendsSorted adminServer.decimal
        (tokenTrends requestEnv.cached.query.tokenTrends 2 newToken.db) =
          some [⟨⟨"USDC", "G1", 3, 8, 0, 10, 0, 4⟩, none⟩] := by
      decide +kernel
    exact congrArg Outcome.orPanic hsorted
  obtain ⟨e, l, hspan, hrow, -⟩ := (tokensTrending_exact h).2.2.1 _ (List.mem_singleton.2 rfl)
  exact ⟨e, l, hspan, hrow.symm⟩

end Lumina.Sample
