import Lumina.Model.Queries

/-!
# Paging through the pools and tokens

`/pools` and `/tokens` sort by one column and cut the page by `LIMIT` and `OFFSET`.  The column
does not tell all rows apart, so each page is cut from an order of its own: reading one page
after the other lists every row once exactly if the values of the column before each boundary
are greater than those after it, and no page is cut to the maximum (`pages_listedOnce_iff`).

## Main definitions

* `sharesRead`, `holdersRead` : the values of the column that a query may read.
* `PoolsListedOnce`, `TokensListedOnce` : the pages list every row once.
* `PagesSplit` : the condition on the table.
-/

namespace Lumina

/-- The answer of `/pools`. -/
def poolsPage (visit : Sql.Visit PoolWithLatest) (tie : String → ℕ) (q : PageQuery) (db : Db) :
    List PoolWithLatest :=
  listPoolsWithLatest visit tie q.pageLimit q.pageOffset db

/-- The answer of `/tokens`. -/
def tokensPage (visit : Sql.Visit TokenWithLatest) (tie : TokenRow → ℕ) (q : PageQuery) (db : Db) :
    List TokenWithLatest :=
  listTokensWithLatest visit tie q.pageLimit q.pageOffset db

/-- The page number `k` of a reader with page size `limit`. -/
def nthPage (limit : ℤ) (k : ℕ) : PageQuery := ⟨some limit, some (k * limit)⟩

/-- Reading `/pools` until an empty page lists every pool once, whatever order each query
chooses. -/
def PoolsListedOnce (limit : ℤ) (db : Db) : Prop :=
  ∀ (visit : ℕ → Sql.Visit PoolWithLatest) (tie : ℕ → String → ℕ), ∃ listed,
    Sql.Reads (fun k => poolsPage (visit k) (tie k) (nthPage limit k) db) 0 listed ∧
      (listed.map (·.pool)).Perm db.pools

/-- Reading `/tokens` until an empty page lists every token once, whatever order each query
chooses. -/
def TokensListedOnce (limit : ℤ) (db : Db) : Prop :=
  ∀ (visit : ℕ → Sql.Visit TokenWithLatest) (tie : ℕ → TokenRow → ℕ), ∃ listed,
    Sql.Reads (fun k => tokensPage (visit k) (tie k) (nthPage limit k) db) 0 listed ∧
      (listed.map (·.token)).Perm db.tokens

/-- The total shares that a query may read for a pool: those of any of its newest snapshots, and
`NULL` without a snapshot. -/
def sharesRead (db : Db) (p : PoolRow) : Set (WithBot Decimal) :=
  {x | ∃ tie, x = Sql.nullsLast (poolWithLatest tie db p).totalShares}

/-- The holders that a query may read for a token. -/
def holdersRead (db : Db) (t : TokenRow) : Set (WithBot ℤ) :=
  {x | ∃ tie, x = Sql.nullsLast (tokenWithLatest tie db t).numAccounts}

/-- No page is cut short of `limit` rows, and at each boundary between two pages the rows split:
all values that may be read before it are greater than all that may be read after it. -/
def PagesSplit {α κ : Type} [LinearOrder κ] (limit : ℤ) (read : α → Set κ) (rows : List α) :
    Prop :=
  (limit ≤ maxPageSize ∨ rows.length ≤ maxPageSize) ∧
    ∀ k, k * limit.toNat < rows.length → Sql.SplitsAt read rows (k * limit.toNat)

/-! ### Parameters -/

section Parameters

variable {limit : ℤ} (hlimit : 1 ≤ limit) (k : ℕ)

include hlimit

theorem pageLimit_toNat : (nthPage limit k).pageLimit.toNat = min 2000 limit.toNat := by
  simp only [nthPage, PageQuery.pageLimit, maxPageSize, Option.getD_some]
  omega

theorem pageOffset_toNat : (nthPage limit k).pageOffset.toNat = k * limit.toNat := by
  have hnonneg : 0 ≤ (k : ℤ) * limit := Int.mul_nonneg (Int.natCast_nonneg k) (by omega)
  simp only [nthPage, PageQuery.pageOffset, Option.getD_some]
  rw [max_eq_right hnonneg]
  lift limit to ℕ using by omega
  rw [← Int.natCast_mul, Int.toNat_natCast, Int.toNat_natCast]

theorem pageFull_iff (n : ℕ) :
    (min 2000 limit.toNat = limit.toNat ∨ n ≤ min 2000 limit.toNat) ↔
      (limit ≤ maxPageSize ∨ n ≤ maxPageSize) := by
  simp only [maxPageSize]
  omega

end Parameters

/-! ### The two tables -/

variable {db : Db} {limit : ℤ}

theorem poolsListedOnce_iff (hlimit : 1 ≤ limit) (hkey : (db.pools.map (·.poolId)).Nodup) :
    PoolsListedOnce limit db ↔ PagesSplit limit (sharesRead db) db.pools := by
  have hsize : 0 < min 2000 limit.toNat := by omega
  have hjoin := Sql.reads_join_perm_iff (fun (tie : String → ℕ) p =>
      poolWithLatest (tie p.poolId) db p) (·.pool) (fun r => Sql.nullsLast r.totalShares)
    (sharesRead db) (fun _ _ => rfl) (fun tie p => ⟨tie p.poolId, rfl⟩) ?_ hkey.of_map
    (fun p => ⟨_, 0, rfl⟩) hsize (min_le_right 2000 limit.toNat)
  · rw [pageFull_iff hlimit] at hjoin
    rw [PagesSplit, ← hjoin]
    simp only [PoolsListedOnce, poolsPage, listPoolsWithLatest, pageLimit_toNat hlimit,
      pageOffset_toNat hlimit]
  · intro choice hchoice
    obtain ⟨tie, htie⟩ := Sql.exists_choice_of_nodup hkey hchoice
    exact ⟨tie, fun p hp => (htie p hp).symm⟩

theorem tokensListedOnce_iff (hlimit : 1 ≤ limit) (hkey : db.tokens.Nodup) :
    TokensListedOnce limit db ↔ PagesSplit limit (holdersRead db) db.tokens := by
  have hsize : 0 < min 2000 limit.toNat := by omega
  have hjoin := Sql.reads_join_perm_iff (fun (tie : TokenRow → ℕ) t =>
      tokenWithLatest (tie t) db t) (·.token) (fun r => Sql.nullsLast r.numAccounts)
    (holdersRead db) (fun _ _ => rfl) (fun tie t => ⟨tie t, rfl⟩) ?_ hkey
    (fun t => ⟨_, 0, rfl⟩) hsize (min_le_right 2000 limit.toNat)
  · rw [pageFull_iff hlimit] at hjoin
    rw [PagesSplit, ← hjoin]
    simp only [TokensListedOnce, tokensPage, listTokensWithLatest, pageLimit_toNat hlimit,
      pageOffset_toNat hlimit]
  · intro choice hchoice
    choose! tie htie using hchoice
    exact ⟨tie, fun t ht => (htie t ht).symm⟩

/-- **Paging lists every pool and every token once**, whatever order the database chooses, exactly
if the values of the sort column split the table at each boundary between two pages. -/
theorem pages_listedOnce_iff (hlimit : 1 ≤ limit) (hpools : (db.pools.map (·.poolId)).Nodup)
    (htokens : db.tokens.Nodup) :
    (PoolsListedOnce limit db ↔ PagesSplit limit (sharesRead db) db.pools) ∧
      (TokensListedOnce limit db ↔ PagesSplit limit (holdersRead db) db.tokens) :=
  ⟨poolsListedOnce_iff hlimit hpools, tokensListedOnce_iff hlimit htokens⟩

end Lumina

/-! ### Two pools, one on a page -/

namespace Lumina.Sample

def poolA : PoolRow := ⟨"0a", "native", "USDC:GA5ZSEJY", 30⟩

def poolB : PoolRow := ⟨"0b", "native", "EURC:GDHU6WRG", 30⟩

/-- Two pools with one snapshot each. -/
def twoPools (sharesA sharesB : Decimal) : Db :=
  { Db.empty with
    pools := [poolA, poolB]
    poolSnapshots := [⟨0, "0a", 10, 20, sharesA, 1⟩, ⟨0, "0b", 10, 20, sharesB, 1⟩] }

/-- The second query sees the pools the other way round. -/
def secondReversed (k : ℕ) : Sql.Visit PoolWithLatest :=
  if k = 1 then ⟨List.reverse, List.reverse_perm⟩ else .stored

/-- Of two pools with equal shares one is listed twice and the other never. -/
theorem equalShares_listedTwice :
    ((twoPools 5 5).pools.map (·.poolId)).Nodup ∧
      Sql.Reads (fun k => poolsPage (secondReversed k) (fun _ => 0) (nthPage 1 k) (twoPools 5 5)) 0
        [poolWithLatest 0 (twoPools 5 5) poolA, poolWithLatest 0 (twoPools 5 5) poolA] ∧
      ¬ PoolsListedOnce 1 (twoPools 5 5) := by
  have hreads : Sql.Reads
      (fun k => poolsPage (secondReversed k) (fun _ => 0) (nthPage 1 k) (twoPools 5 5)) 0
      [poolWithLatest 0 (twoPools 5 5) poolA, poolWithLatest 0 (twoPools 5 5) poolA] :=
    .next (by decide +kernel) (.next (by decide +kernel) (.stop (by decide +kernel)))
  refine ⟨by decide, hreads, fun h => ?_⟩
  obtain ⟨listed, hlisted, hperm⟩ := h secondReversed fun _ _ => 0
  obtain rfl := hlisted.unique hreads
  exact absurd hperm (by decide)

/-- A pool with one snapshot is read in one way. -/
theorem sharesRead_single {db : Db} {p : PoolRow} {s : PoolSnapshotRow} {x : WithBot Decimal}
    (h : snapshotsOfPool db p.poolId = [s]) (hx : x ∈ sharesRead db p) :
    x = Sql.nullsLast (some s.totalShares) := by
  obtain ⟨tie, rfl⟩ := hx
  have hlatest : Sql.latest tie (·.time) ([] ++ [s]) = some s :=
    Sql.latest_append_of_lt fun _ hr => absurd hr (List.not_mem_nil)
  rw [List.nil_append] at hlatest
  simp only [poolWithLatest, h, hlatest, Option.map_some]

/-- Two pools with different shares are each listed once. -/
theorem differentShares_listedOnce :
    PoolsListedOnce 1 (twoPools 7 5) ∧ TokensListedOnce 1 (twoPools 7 5) := by
  have hiff := @pages_listedOnce_iff (twoPools 7 5) 1 (le_refl 1) (by decide) (by decide)
  refine ⟨hiff.1.2 ⟨.inl (by decide), fun k hk => ?_⟩, hiff.2.2 ⟨.inl (by decide), ?_⟩⟩
  · obtain rfl | rfl : k = 0 ∨ k = 1 := by
      have hlen : k * 1 < 2 := hk
      omega
    · exact ⟨[], _, List.Perm.refl _, rfl, by simp⟩
    · refine ⟨[poolA], [poolB], List.Perm.refl _, rfl, ?_⟩
      simp only [List.mem_singleton, forall_eq]
      intro x hx y hy
      rw [sharesRead_single rfl hx, sharesRead_single rfl hy]
      decide +kernel
  · exact fun k hk => absurd hk (Nat.not_lt_zero _)

end Lumina.Sample
