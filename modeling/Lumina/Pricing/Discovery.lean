import Lumina.Pricing.Route
import Mathlib.Tactic.Ring

/-!
# Price discovery

With exact arithmetic, a run of the price discovery that goes through records XLM and the assets
that at most four pools connect with it, each once, in the hop of its distance, at the price along
a shortest chain of pools (`ingestPrices_discovers`).

## Main definitions

* `PricedAt` : a price along a shortest chain.
* `Searched` : the invariant of the hops, for exact arithmetic.
* `Discovery` : what a run records.
-/

namespace Lumina

open Lumina.Graph Tx

variable {fromStr : String → Option Decimal} {reserves : List PoolLegs} {priced : Priced}
  {xlmUsd price : Decimal} {asset : AssetId} {n : ℕ}

/-- A price of an asset at `n` hops from XLM, along a shortest chain. -/
structure PricedAt (reserves : List PoolLegs) (xlmUsd : Decimal) (n : ℕ) (asset : AssetId)
    (price : Decimal) : Prop where
  hops : Hops reserves asset n
  price : ∃ x, Chain reserves asset n x ∧ price = xlmUsd * x

/-- After `n` hops the priced assets are those at most `n` hops from XLM, each once, and priced
along a shortest chain. -/
structure Searched (reserves : List PoolLegs) (xlmUsd : Decimal) (n : ℕ) (priced : Priced) :
    Prop where
  layered : Layered (PoolStep reserves) native n priced.Has
  once : (priced.map (·.1)).Nodup
  price : ∀ e ∈ priced, ∃ m, PricedAt reserves xlmUsd m e.1 e.2

/-- With exact arithmetic a route is a shortest chain. -/
theorem Routed.pricedAt (h : Routed (.exact fromStr) reserves xlmUsd n asset price) :
    PricedAt reserves xlmUsd n asset price where
  hops := h.hops
  price := by
    induction h with
    | xlm => exact ⟨1, .root, (mul_one xlmUsd).symm⟩
    | @hop n a b r weight ratio ratio' price price' hb hbest ha hleg hratio hprice ih =>
      obtain ⟨x, hx, rfl⟩ := ih
      obtain rfl : ratio = ratio' := Option.some.inj hratio
      obtain rfl : ratio * (xlmUsd * x) = price' := Option.some.inj hprice
      exact ⟨x * ratio, hx.step ⟨r, hbest.mem, hleg⟩, by ring⟩

theorem Routes.searched (h : Routes (.exact fromStr) reserves xlmUsd n priced) :
    Searched reserves xlmUsd n priced where
  layered := h.layered
  once := h.once
  price e he := by
    obtain ⟨m, -, hr⟩ := h.price e he
    exact ⟨m, hr.pricedAt⟩

/-- The rows that some hops record, those of hop `hop` first. -/
structure Layers (reserves : List PoolLegs) (xlmUsd : Decimal) (now : Time) (hop : ℕ)
    (layers : List (List AssetPriceRow)) : Prop where
  price : ∀ k layer, layers[k]? = some layer → ∀ row ∈ layer,
    PricedAt reserves xlmUsd (hop + k + 1) row.asset row.priceUsd
  source : ∀ k layer, layers[k]? = some layer → ∀ row ∈ layer,
    row.priceSource = priceSource (hop + k) ∧ row.time = now

theorem RoutedLayers.layers {now : Time} {hop : ℕ} {layers : List (List AssetPriceRow)}
    (h : RoutedLayers (.exact fromStr) reserves xlmUsd now hop layers) :
    Layers reserves xlmUsd now hop layers where
  price k layer hk row hrow := (h.routed k layer hk row hrow).pricedAt
  source := h.source

/-! ### The discovery -/

/-- What a run of the price discovery records: XLM and then the layers of its hops. -/
structure Discovery (reserves : List PoolLegs) (xlmUsd : Decimal) (now : Time)
    (layers : List (List AssetPriceRow)) : Prop where
  /-- The assets with a price are those that at most four pools connect with XLM. -/
  exact : ∀ asset, asset ∈ native :: layers.flatten.map (·.asset) ↔
    ∃ n ≤ maxPriceHops, ∃ x, Chain reserves asset n x
  /-- Each is recorded once, so the price of XLM is never replaced. -/
  once : (native :: layers.flatten.map (·.asset)).Nodup
  /-- Hop `k` records the assets at `k + 1` hops, at a price along a shortest chain. -/
  layers : Layers reserves xlmUsd now 0 layers

/-- **Price discovery.**  A run that goes through records XLM and the assets within four pools of
it, each once, in the hop of its distance and at the price along a shortest chain; and with an
XLM price and no failed statement it goes through. -/
theorem ingestPrices_discovers (fromStr : String → Option Decimal) (env : PricesEnv) (now : Time)
    (pools : List LiquidityPool) (w : World) :
    (∀ t, ingestPrices (.exact fromStr) env now pools ⟨w, false⟩ = (.ret (), t) →
      ∃ xlmUsd layers, fetchXlmUsd (.exact fromStr) env = .ret xlmUsd ∧
        t = ⟨addPrices (xlmRow now xlmUsd :: layers.flatten) w, false⟩ ∧
        Discovery (pools.filterMap (poolLegs (.exact fromStr))) xlmUsd now layers) ∧
    ∀ xlmUsd, fetchXlmUsd (.exact fromStr) env = .ret xlmUsd → env.insertXlm = .ok →
      (∀ hop i, env.insert hop i = .ok) →
        ∃ t, ingestPrices (.exact fromStr) env now pools ⟨w, false⟩ = (.ret (), t) := by
  constructor
  · intro t h
    obtain ⟨xlmUsd, layers, hx, ht, hlayers, -, hroutes⟩ := ingestPrices_ret h
    have hsearched := hroutes.searched
    have hkeys : (((native, xlmUsd) :: layers.flatten.map (·.entry) : Priced)).map (·.1) =
        native :: layers.flatten.map (·.asset) := by
      simp [AssetPriceRow.entry, Function.comp_def]
    refine ⟨xlmUsd, layers, hx, ht, ?_, ?_, hlayers.layers⟩
    · intro asset
      have hhas : ∀ priced : Priced, asset ∈ priced.map (·.1) ↔ priced.Has asset := by
        simp [Priced.Has]
      rw [← hkeys, hhas, hsearched.layered.known_iff]
    · have honce := hsearched.once
      rwa [hkeys] at honce
  · intro xlmUsd hx hi hok
    rw [ingestPrices_eq, hx, hi]
    obtain ⟨t, ht | ht⟩ := ingestHops_ok hok maxPriceHops 0 [(native, xlmUsd)]
      (addPrices [xlmRow now xlmUsd] w)
    · exact ⟨t, ht⟩
    · obtain ⟨_, -, _, _, -, _, -, hover⟩ := ingestHops_panic (routes_xlm _ _ xlmUsd) ht
      exact absurd hover not_overflows_exact

end Lumina

/-! ### Two hops -/

namespace Lumina.Sample

/-- The amounts of the sample. -/
def quoted (text : String) : Option Decimal :=
  if text = "0.5" then some (1 / 2) else if text = "1000.0000000" then some 1000
  else if text = "5000.0000000" then some 5000 else none

/-- XLM trades against USDC, and USDC against AQUA. -/
def tradedPools : List LiquidityPool :=
  [⟨"67260c4c1807b262ff851b0a3fe141194936bb0215b2f77447f1df11998eabb9", 30, "12", "1000.0000000",
      [⟨"native", "1000.0000000"⟩,
        ⟨"USDC:GA5ZSEJYB37JRC5AVCIA5MOP4RHTM335X2KGX3IHOJAPP5RE34K4KZVN", "1000.0000000"⟩]⟩,
    ⟨"a468d41d8e9b8f3c7209651608b74b7db7ac9952dcae0cdf24871d1d9c7b0088", 30, "12", "1000.0000000",
      [⟨"AQUA:GBNZILSTVQZ4R7IKQDGHYGY2QXL5QOFJYQMXPKWRRM5PAV7Y4M67AQUA", "5000.0000000"⟩,
        ⟨"USDC:GA5ZSEJYB37JRC5AVCIA5MOP4RHTM335X2KGX3IHOJAPP5RE34K4KZVN", "1000.0000000"⟩]⟩]

def pricesEnv : PricesEnv := ⟨.ret "0.5", .insertion, .ok, fun _ _ => .ok⟩

/-- AQUA is priced in the second hop, through USDC. -/
theorem prices_discovered :
    ∃ t layers, ingestPrices (.exact quoted) pricesEnv 1767225600000000 tradedPools
        ⟨World.empty, false⟩ = (.ret (), t) ∧
      Discovery (tradedPools.filterMap (poolLegs (.exact quoted))) (1 / 2) 1767225600000000 layers ∧
      t.view.db.assetPrices.map (fun row => (row.assetCode, row.priceUsd, row.priceSource)) =
        [("XLM", 1 / 2, "coingecko"), ("USDC", 1 / 2, "xlm_pool_ratio"),
          ("AQUA", 1 / 10, "multi_hop_pool_ratio")] := by
  have hquote : fetchXlmUsd (.exact quoted) pricesEnv = .ret (1 / 2) := by decide +kernel
  have hprices : (ingestPrices (.exact quoted) pricesEnv 1767225600000000 tradedPools
      ⟨World.empty, false⟩).2.view.db.assetPrices.map
        (fun row => (row.assetCode, row.priceUsd, row.priceSource)) =
      [("XLM", 1 / 2, "coingecko"), ("USDC", 1 / 2, "xlm_pool_ratio"),
        ("AQUA", 1 / 10, "multi_hop_pool_ratio")] := by decide +kernel
  obtain ⟨hret, hok⟩ := ingestPrices_discovers quoted pricesEnv 1767225600000000 tradedPools
    World.empty
  obtain ⟨t, ht⟩ := hok _ hquote rfl fun _ _ => rfl
  obtain ⟨xlmUsd, layers, hx, -, hdiscovery⟩ := hret t ht
  obtain rfl : 1 / 2 = xlmUsd := Outcome.ret.inj (hquote.symm.trans hx)
  rw [ht] at hprices
  exact ⟨t, layers, ht, hdiscovery, hprices⟩

end Lumina.Sample
