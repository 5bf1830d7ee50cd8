import Lumina.Pricing.Route
import Mathlib.Tactic.NormNum

/-!
# Which pool prices an asset

The discovery means the deepest pool to price an asset: the one whose known leg is worth the most.
It compares the reserves of the known legs instead, each in units of its own asset.  A run prices
every asset by a deepest pool exactly if at each asset the first of the pools with the greatest
reserve derives the price of a deepest one (`prices_deepest_iff`).  That is so where all pools that
lead to an asset start at one known asset (`Deepest.of_source`), hence in the first hop
(`Deepest.first`); from the second hop on, a thin pool of a token that is worth little can win.

## Main definitions

* `Deepest` : a price that a deepest pool derives.
* `DeepestLayers` : every price recorded is one.
* `ReservesRankDepths` : the greatest reserve derives the price of a greatest depth.
-/

namespace Lumina

open Lumina.Graph Tx

/-- The price is derived from a pool and one of the known assets such that the reserve of the
known leg, times the price of its asset, is the greatest of all that lead to `b`. -/
def Deepest (D : RustDecimal) (reserves : List PoolLegs) (known : AssetId → Decimal → Prop)
    (b : AssetId) (price : Decimal) : Prop :=
  ∃ r ∈ reserves, ∃ a p, known a p ∧ ∃ weight, Derives D r (a, p) b price weight ∧
    ∀ r' ∈ reserves, ∀ a' p', known a' p' → ∀ ratio, Leg r' a' b ratio →
      knownReserve r' a' * p' ≤ weight * p

/-- Each hop derives its prices from a deepest of the pools that link an asset priced before. -/
def DeepestLayers (D : RustDecimal) (reserves : List PoolLegs) (xlmUsd : Decimal)
    (layers : List (List AssetPriceRow)) : Prop :=
  ∀ k layer, layers[k]? = some layer → ∀ row ∈ layer,
    Deepest D reserves
      (fun a p => (a, p) ∈ (native, xlmUsd) :: (layers.take k).flatten.map (·.entry))
      row.asset row.priceUsd

/-- At each asset the first of the pools with the greatest reserve of the nearer leg derives the
price of a pool whose nearer leg is worth the most. -/
def ReservesRankDepths (D : RustDecimal) (reserves : List PoolLegs) (xlmUsd : Decimal) : Prop :=
  ∀ n < maxPriceHops, ∀ b, Hops reserves b (n + 1) → ∀ r weight,
    FirstBest reserves (Links reserves n b) r weight → ∀ a p, Routed D reserves xlmUsd n a p →
      ∀ price, Derives D r (a, p) b price weight →
        Deepest D reserves (Routed D reserves xlmUsd n) b price

variable {D : RustDecimal} {env : PricesEnv} {now : Time} {pools : List LiquidityPool}
  {reserves : List PoolLegs} {r : PoolLegs} {a b : AssetId} {xlmUsd price : Decimal} {w : World}
  {layers : List (List AssetPriceRow)} {n k : ℕ} {known known' : AssetId → Decimal → Prop}

/-! ### One asset -/

/-- Only the known assets that a pool links to it matter. -/
theorem Deepest.imp
    (hknown : ∀ a p, (∃ ratio, PoolStep reserves a b ratio) → (known a p ↔ known' a p))
    (h : Deepest D reserves known b price) : Deepest D reserves known' b price := by
  obtain ⟨r, hr, a, p, ha, weight, hd, hdeepest⟩ := h
  obtain ⟨ratio, -, hleg, -⟩ := derives_iff.1 hd
  refine ⟨r, hr, a, p, (hknown a p ⟨ratio, r, hr, hleg⟩).1 ha, weight, hd, ?_⟩
  intro r' hr' a' p' ha' ratio' hleg'
  exact hdeepest r' hr' a' p' ((hknown a' p' ⟨ratio', r', hr', hleg'⟩).2 ha') ratio' hleg'

theorem deepest_congr
    (hknown : ∀ a p, (∃ ratio, PoolStep reserves a b ratio) → (known a p ↔ known' a p)) :
    Deepest D reserves known b price ↔ Deepest D reserves known' b price :=
  ⟨.imp hknown, .imp fun a p ha => (hknown a p ha).symm⟩

/-- An asset that a pool links to one at `n + 1` hops, and that is no further than `n`, is at `n`
hops. -/
theorem Routed.hops_eq {m : ℕ} {ratio : Decimal} (hb : Hops reserves b (n + 1)) (hm : m ≤ n)
    (h : Routed D reserves xlmUsd m a price) (hstep : PoolStep reserves a b ratio) : m = n := by
  obtain ⟨x, hx⟩ := h.hops.walk
  have := hb.shortest _ _ (hx.step hstep)
  omega

/-- The price of a route is what the first of the pools with the greatest reserve derives. -/
theorem routed_succ_iff : Routed D reserves xlmUsd (n + 1) b price ↔
    Hops reserves b (n + 1) ∧ ∃ r weight, FirstBest reserves (Links reserves n b) r weight ∧
      ∃ a p, Routed D reserves xlmUsd n a p ∧ Derives D r (a, p) b price weight := by
  constructor
  · intro h
    cases h with
    | @hop _ a _ r weight ratio ratio' p _ hb hbest ha hleg hratio hprice =>
      obtain ⟨a', ratio₁, -, hleg', hweight⟩ := hbest.candidate
      obtain rfl := hleg.source_unique hleg'
      exact ⟨hb, r, weight, hbest, a', p, ha,
        derives_iff.2 ⟨ratio, ratio', hleg, hratio, hprice, hweight⟩⟩
  · rintro ⟨hb, r, weight, hbest, a, p, ha, hd⟩
    obtain ⟨ratio, ratio', hleg, hratio, hprice, -⟩ := derives_iff.1 hd
    exact .hop hb hbest ha hleg hratio hprice

/-- The condition, in terms of the routes. -/
theorem reservesRankDepths_iff : ReservesRankDepths D reserves xlmUsd ↔
    ∀ n < maxPriceHops, ∀ b price, Routed D reserves xlmUsd (n + 1) b price →
      Deepest D reserves (Routed D reserves xlmUsd n) b price := by
  constructor
  · intro h n hn b price hrouted
    obtain ⟨hb, r, weight, hbest, a, p, ha, hd⟩ := routed_succ_iff.1 hrouted
    exact h n hn b hb r weight hbest a p ha price hd
  · intro h n hn b hb r weight hbest a p ha price hd
    exact h n hn b price (routed_succ_iff.2 ⟨hb, r, weight, hbest, a, p, ha, hd⟩)

/-- **One known asset.**  Where all pools that lead to an asset start at the same known one, whose
price is not negative, the greatest reserve is the greatest depth. -/
theorem Deepest.of_source (h : Routed D reserves xlmUsd (n + 1) b price)
    (hnonneg : ∀ a p, Routed D reserves xlmUsd n a p → 0 ≤ p)
    (hsource : ∀ a a', Hops reserves a n → Hops reserves a' n → (∃ y, PoolStep reserves a b y) →
      (∃ y, PoolStep reserves a' b y) → a = a') :
    Deepest D reserves (Routed D reserves xlmUsd n) b price := by
  obtain ⟨-, r, weight, hbest, a, p, ha, hd⟩ := routed_succ_iff.1 h
  obtain ⟨ratio, -, hleg, -⟩ := derives_iff.1 hd
  refine ⟨r, hbest.mem, a, p, ha, weight, hd, fun r' hr' a' p' ha' ratio' hleg' => ?_⟩
  obtain rfl : a' = a :=
    hsource _ _ ha'.hops ha.hops ⟨ratio', r', hr', hleg'⟩ ⟨ratio, r, hbest.mem, hleg⟩
  obtain rfl := ha.unique ha'
  have hle : knownReserve r' a' ≤ weight :=
    hbest.le (fun _ hv => Links.unique hv hbest.candidate) hr' ⟨a', ratio', ha.hops, hleg', rfl⟩
  exact mul_le_mul_of_nonneg_right hle (hnonneg a' p ha)

/-- **The first hop** prices by the deepest pool. -/
theorem Deepest.first (hxlm : 0 ≤ xlmUsd) (h : Routed D reserves xlmUsd 1 b price) :
    Deepest D reserves (Routed D reserves xlmUsd 0) b price := by
  have hroot : ∀ a, Hops reserves a 0 → a = native := by
    intro a ha
    obtain ⟨x, hx⟩ := ha.walk
    cases hx
    rfl
  refine .of_source h (fun a p ha => ?_) fun a a' ha ha' _ _ =>
    (hroot a ha).trans (hroot a' ha').symm
  cases ha
  exact hxlm

/-! ### A run -/

/-- An element of the first lists. -/
theorem mem_flatten_take {α : Type*} {l : List (List α)} {x : α} :
    x ∈ (l.take k).flatten ↔ ∃ i < k, ∃ layer, l[i]? = some layer ∧ x ∈ layer := by
  rw [List.mem_flatten]
  constructor
  · rintro ⟨layer, hlayer, hx⟩
    obtain ⟨i, hi, rfl⟩ := List.mem_take_iff_getElem.1 hlayer
    exact ⟨i, by omega, _, List.getElem?_eq_getElem (by omega), hx⟩
  · rintro ⟨i, hi, layer, hget, hx⟩
    obtain ⟨hlen, rfl⟩ := List.getElem?_eq_some_iff.1 hget
    exact ⟨_, List.mem_take_iff_getElem.2 ⟨i, by omega, rfl⟩, hx⟩

/-- What is priced before hop `k` of a run are the assets within `k` hops. -/
theorem RoutedLayers.before_iff (h : RoutedLayers D reserves xlmUsd now 0 layers)
    (hroutes : Routes D reserves xlmUsd n ((native, xlmUsd) :: layers.flatten.map (·.entry)))
    (hk : k ≤ n) : (a, price) ∈ (native, xlmUsd) :: (layers.take k).flatten.map (·.entry) ↔
      ∃ m ≤ k, Routed D reserves xlmUsd m a price := by
  constructor
  · intro he
    rcases List.mem_cons.1 he with heq | he
    · obtain ⟨rfl, rfl⟩ := Prod.mk.inj heq
      exact ⟨0, Nat.zero_le k, .xlm⟩
    · obtain ⟨row, hrow, heq⟩ := List.mem_map.1 he
      obtain ⟨rfl, rfl⟩ := Prod.mk.inj heq
      obtain ⟨i, hi, layer, hget, hmem⟩ := mem_flatten_take.1 hrow
      have hrouted := h.routed i layer hget row hmem
      rw [Nat.zero_add] at hrouted
      exact ⟨i + 1, hi, hrouted⟩
  · rintro ⟨m, hm, hrouted⟩
    rcases List.mem_cons.1 (hroutes.mem hrouted (hm.trans hk)) with he | he
    · exact List.mem_cons.2 (.inl he)
    · obtain ⟨row, hrow, heq⟩ := List.mem_map.1 he
      obtain ⟨rfl, rfl⟩ := Prod.mk.inj heq
      obtain ⟨layer, hlayer, hmem⟩ := List.mem_flatten.1 hrow
      obtain ⟨i, hget⟩ := List.mem_iff_getElem?.1 hlayer
      -- the asset has one distance, so it was recorded in the hop of that
      have hhops := (h.routed i layer hget row hmem).hops.unique hrouted.hops
      refine List.mem_cons.2 (.inr (List.mem_map_of_mem ?_))
      exact mem_flatten_take.2 ⟨i, by omega, layer, hget, hmem⟩

/-- What a run records is priced by deepest pools where the routes are. -/
theorem RoutedLayers.deepest_iff (h : RoutedLayers D reserves xlmUsd now 0 layers)
    (hroutes : Routes D reserves xlmUsd n ((native, xlmUsd) :: layers.flatten.map (·.entry)))
    (hlen : layers.length ≤ n) : DeepestLayers D reserves xlmUsd layers ↔
      ∀ k < n, ∀ b price, Routed D reserves xlmUsd (k + 1) b price →
        Deepest D reserves (Routed D reserves xlmUsd k) b price := by
  -- of what is priced before a hop, only the last layer has pools to a new asset
  have hlast : ∀ k < n, ∀ b, Hops reserves b (k + 1) → ∀ price,
      (Deepest D reserves
          (fun a p => (a, p) ∈ (native, xlmUsd) :: (layers.take k).flatten.map (·.entry)) b price ↔
        Deepest D reserves (Routed D reserves xlmUsd k) b price) := by
    intro k hk b hb price
    refine deepest_congr fun a p ⟨ratio, hstep⟩ => ?_
    rw [h.before_iff hroutes hk.le]
    constructor
    · rintro ⟨m, hm, hrouted⟩
      obtain rfl := hrouted.hops_eq hb hm hstep
      exact hrouted
    · exact fun hrouted => ⟨k, le_rfl, hrouted⟩
  constructor
  · intro hdeepest k hk b price hrouted
    rw [← hlast k hk b hrouted.hops]
    have hbefore := (h.before_iff hroutes hk).2 ⟨k + 1, le_rfl, hrouted⟩
    rcases List.mem_cons.1 hbefore with he | he
    · -- XLM is no hop away from itself
      obtain ⟨rfl, rfl⟩ := Prod.mk.inj he
      exact absurd (hrouted.hops.unique distance_root) (Nat.succ_ne_zero k)
    · obtain ⟨row, hrow, heq⟩ := List.mem_map.1 he
      obtain ⟨rfl, rfl⟩ := Prod.mk.inj heq
      obtain ⟨i, hi, layer, hget, hmem⟩ := mem_flatten_take.1 hrow
      have hhops := (h.routed i layer hget row hmem).hops.unique hrouted.hops
      obtain rfl : i = k := by omega
      exact hdeepest i layer hget row hmem
  · intro hrouted k layer hget row hmem
    obtain ⟨hk, -⟩ := List.getElem?_eq_some_iff.1 hget
    have hrow := h.routed k layer hget row hmem
    rw [Nat.zero_add] at hrow
    rw [hlast k (hk.trans_le hlen) _ hrow.hops]
    exact hrouted k (hk.trans_le hlen) _ _ hrow

/-- **A run prices every asset by a deepest pool** exactly if the reserves rank as the depths. -/
theorem prices_deepest_iff (hx : fetchXlmUsd D env = .ret xlmUsd) {t : Tx World}
    (hret : ingestPrices D env now pools ⟨w, false⟩ = (.ret (), t)) :
    ∃ layers, t = ⟨addPrices (xlmRow now xlmUsd :: layers.flatten) w, false⟩ ∧
      RoutedLayers D (pools.filterMap (poolLegs D)) xlmUsd now 0 layers ∧
      (DeepestLayers D (pools.filterMap (poolLegs D)) xlmUsd layers ↔
        ReservesRankDepths D (pools.filterMap (poolLegs D)) xlmUsd) := by
  obtain ⟨xlmUsd', layers, hx', ht, hlayers, hlen, hroutes⟩ := ingestPrices_ret hret
  obtain rfl := Outcome.ret.inj (hx.symm.trans hx')
  exact ⟨layers, ht, hlayers, (hlayers.deepest_iff hroutes hlen).trans reservesRankDepths_iff.symm⟩

end Lumina

/-! ### A million of nearly nothing -/

namespace Lumina.Sample

/-- The amounts of the sample. -/
def dustQuoted (text : String) : Option Decimal :=
  if text = "1" then some 1 else if text = "1.0000000" then some 1
  else if text = "1000.0000000" then some 1000 else if text = "50000.0000000" then some 50000
  else if text = "100000.0000000" then some 100000
  else if text = "1000000.0000000" then some 1000000
  else if text = "1000000000.0000000" then some 1000000000 else none

def dustPool (id assetA amountA assetB amountB : String) : LiquidityPool :=
  ⟨id, 30, "12", "1000.0000000", [⟨assetA, amountA⟩, ⟨assetB, amountB⟩]⟩

/-- XLM trades against DUST and USDC, and both against AQUA: a dollar's worth of DUST for one AQUA,
and a hundred thousand USDC for fifty thousand AQUA. -/
def dustPools : List LiquidityPool :=
  [dustPool "0a4c1807b262ff851b0a3fe141194936bb0215b2f77447f1df11998eabb9672c" "native"
      "1000.0000000" "DUST:GBNZILSTVQZ4R7IKQDGHYGY2QXL5QOFJYQMXPKWRRM5PAV7Y4M67AQUA"
      "1000000000.0000000",
    dustPool "67260c4c1807b262ff851b0a3fe141194936bb0215b2f77447f1df11998eabb9" "native"
      "1000.0000000" "USDC:GA5ZSEJYB37JRC5AVCIA5MOP4RHTM335X2KGX3IHOJAPP5RE34K4KZVN"
      "1000.0000000",
    dustPool "8f3c7209651608b74b7db7ac9952dcae0cdf24871d1d9c7b0088a468d41d8e9b"
      "AQUA:GBNZILSTVQZ4R7IKQDGHYGY2QXL5QOFJYQMXPKWRRM5PAV7Y4M67AQUA" "1.0000000"
      "DUST:GBNZILSTVQZ4R7IKQDGHYGY2QXL5QOFJYQMXPKWRRM5PAV7Y4M67AQUA" "1000000.0000000",
    dustPool "a468d41d8e9b8f3c7209651608b74b7db7ac9952dcae0cdf24871d1d9c7b0088"
      "AQUA:GBNZILSTVQZ4R7IKQDGHYGY2QXL5QOFJYQMXPKWRRM5PAV7Y4M67AQUA" "50000.0000000"
      "USDC:GA5ZSEJYB37JRC5AVCIA5MOP4RHTM335X2KGX3IHOJAPP5RE34K4KZVN" "100000.0000000"]

def dustEnv : PricesEnv := ⟨.ret "1", .insertion, .ok, fun _ _ => .ok⟩

def dustRow : AssetPriceRow :=
  ⟨0, "DUST", "GBNZILSTVQZ4R7IKQDGHYGY2QXL5QOFJYQMXPKWRRM5PAV7Y4M67AQUA", 1 / 10 ^ 6,
    "xlm_pool_ratio"⟩

def dustUsdcRow : AssetPriceRow :=
  ⟨0, "USDC", "GA5ZSEJYB37JRC5AVCIA5MOP4RHTM335X2KGX3IHOJAPP5RE34K4KZVN", 1, "xlm_pool_ratio"⟩

def dustAquaRow : AssetPriceRow :=
  ⟨0, "AQUA", "GBNZILSTVQZ4R7IKQDGHYGY2QXL5QOFJYQMXPKWRRM5PAV7Y4M67AQUA", 1,
    "multi_hop_pool_ratio"⟩

/-- The run on the sample goes through. -/
theorem dust_ret : ∃ t, ingestPrices (.exact dustQuoted) dustEnv 0 dustPools ⟨World.empty, false⟩ =
    (.ret (), t) ∧ t.view.db.assetPrices = [xlmRow 0 1, dustRow, dustUsdcRow, dustAquaRow] := by
  have hrun : (ingestPrices (.exact dustQuoted) dustEnv 0 dustPools ⟨World.empty, false⟩).1 =
      .ret () ∧ (ingestPrices (.exact dustQuoted) dustEnv 0 dustPools
        ⟨World.empty, false⟩).2.view.db.assetPrices =
          [xlmRow 0 1, dustRow, dustUsdcRow, dustAquaRow] := by decide +kernel
  generalize ingestPrices (.exact dustQuoted) dustEnv 0 dustPools ⟨World.empty, false⟩ = run at hrun
  obtain ⟨o, t⟩ := run
  obtain ⟨rfl, hrows⟩ := hrun
  exact ⟨t, rfl, hrows⟩

/-- A pool that derives the recorded price of AQUA has a known leg of one dollar. -/
theorem dust_derives : ∀ r ∈ dustPools.filterMap (poolLegs (.exact dustQuoted)),
    ∀ e ∈ (native, 1) :: [dustRow, dustUsdcRow, dustAquaRow].map (·.entry),
      ((priceFromKnownLeg (.exact dustQuoted) r.assetA r.reserveA r.assetB r.reserveB e.1
        e.2).join.all fun o =>
          o.1 ≠ dustAquaRow.asset ∨ o.2.1 ≠ 1 ∨ o.2.2 * e.2 < 100000) = true := by
  decide +kernel

/-- AQUA is priced by the pool with a dollar's worth of DUST, and not by the one with a hundred
thousand USDC. -/
theorem dust_layers {layers : List (List AssetPriceRow)}
    (hflat : layers.flatten = [dustRow, dustUsdcRow, dustAquaRow])
    (hlayers : RoutedLayers (.exact dustQuoted) (dustPools.filterMap (poolLegs (.exact dustQuoted)))
      1 0 0 layers) :
    ¬ DeepestLayers (.exact dustQuoted) (dustPools.filterMap (poolLegs (.exact dustQuoted))) 1
      layers := by
  intro hdeepest
  have hlayer : ∀ row ∈ layers.flatten, ∃ k : ℕ, ∃ layer, layers[k]? = some layer ∧
      row ∈ layer := by
    intro row hrow
    obtain ⟨layer, hmem, hrow⟩ := List.mem_flatten.1 hrow
    obtain ⟨k, hk⟩ := List.mem_iff_getElem?.1 hmem
    exact ⟨k, layer, hk, hrow⟩
  -- USDC is priced in the first hop, AQUA in a later one
  obtain ⟨j, layer, hj, husdc⟩ := hlayer dustUsdcRow (by simp [hflat])
  obtain ⟨k, layer', hk, haqua⟩ := hlayer dustAquaRow (by simp [hflat])
  have hjsource := (hlayers.source j layer hj dustUsdcRow husdc).1
  have hksource := (hlayers.source k layer' hk dustAquaRow haqua).1
  have hj0 : j = 0 := by
    by_contra hne
    simp [dustUsdcRow, priceSource, hne] at hjsource
  have hk0 : 0 < k := by
    rw [Nat.pos_iff_ne_zero]
    rintro rfl
    simp [dustAquaRow, priceSource] at hksource
  obtain ⟨r, hr, a, p, hknown, weight, hd, hmax⟩ := hdeepest k layer' hk dustAquaRow haqua
  have hbefore : (a, p) ∈ (native, 1) :: [dustRow, dustUsdcRow, dustAquaRow].map (·.entry) := by
    refine List.cons_subset_cons _ (List.map_subset _ fun row hrow => ?_) hknown
    obtain ⟨i, -, layer, hi, hmem⟩ := mem_flatten_take.1 hrow
    exact hflat ▸ List.mem_flatten.2 ⟨layer, List.mem_of_getElem? hi, hmem⟩
  have hthin := dust_derives r hr (a, p) hbefore
  have hdeep := hmax ⟨"AQUA:GBNZILSTVQZ4R7IKQDGHYGY2QXL5QOFJYQMXPKWRRM5PAV7Y4M67AQUA", 50000,
    "USDC:GA5ZSEJYB37JRC5AVCIA5MOP4RHTM335X2KGX3IHOJAPP5RE34K4KZVN", 100000⟩ (by decide +kernel)
    dustUsdcRow.asset 1 (List.mem_cons_of_mem _ (List.mem_map.2 ⟨dustUsdcRow,
      mem_flatten_take.2 ⟨j, by omega, layer, hj, husdc⟩, rfl⟩)) 2
    (by unfold Leg; decide +kernel)
  have hreserve : knownReserve ⟨"AQUA:GBNZILSTVQZ4R7IKQDGHYGY2QXL5QOFJYQMXPKWRRM5PAV7Y4M67AQUA",
      50000, "USDC:GA5ZSEJYB37JRC5AVCIA5MOP4RHTM335X2KGX3IHOJAPP5RE34K4KZVN", 100000⟩
      dustUsdcRow.asset = 100000 := by decide +kernel
  rw [Derives] at hd
  simp only [hd, Option.join_some, Option.all_some, decide_eq_true_eq] at hthin
  rw [hreserve, mul_one] at hdeep
  rcases hthin with hne | hne | hlt
  · exact hne rfl
  · exact hne rfl
  · exact absurd hdeep (not_le.2 hlt)

/-- **A dollar's worth of a token that is worth nearly nothing prices AQUA**, at half of what the
pool with a hundred thousand dollars does. -/
theorem dust_notDeepest : ¬ ∀ (D : RustDecimal) (env : PricesEnv) (now : Time)
    (pools : List LiquidityPool) (w : World) (xlmUsd : Decimal) (t : Tx World),
    fetchXlmUsd D env = .ret xlmUsd → ingestPrices D env now pools ⟨w, false⟩ = (.ret (), t) →
      ∃ layers, t = ⟨addPrices (xlmRow now xlmUsd :: layers.flatten) w, false⟩ ∧
        RoutedLayers D (pools.filterMap (poolLegs D)) xlmUsd now 0 layers ∧
        DeepestLayers D (pools.filterMap (poolLegs D)) xlmUsd layers := by
  intro hall
  obtain ⟨t, hrun, hrows⟩ := dust_ret
  obtain ⟨layers, rfl, hlayers, hdeepest⟩ :=
    hall (.exact dustQuoted) dustEnv 0 dustPools World.empty 1 t (by decide +kernel) hrun
  exact dust_layers (List.cons.inj hrows).2 hlayers hdeepest

/-- The reserves of the sample do not rank as the depths. -/
theorem dust_notRanked : ¬ ReservesRankDepths (.exact dustQuoted)
    (dustPools.filterMap (poolLegs (.exact dustQuoted))) 1 := by
  have hquote : fetchXlmUsd (.exact dustQuoted) dustEnv = .ret 1 := by decide +kernel
  obtain ⟨t, hrun, hrows⟩ := dust_ret
  obtain ⟨layers, rfl, hlayers, hiff⟩ := prices_deepest_iff hquote hrun
  exact fun hranked => dust_layers (List.cons.inj hrows).2 hlayers (hiff.2 hranked)

end Lumina.Sample
