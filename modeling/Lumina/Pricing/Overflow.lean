import Lumina.Pricing.Route
import Lumina.Number.Rounding

/-!
# Overflow in the price discovery

A `Decimal` holds numbers up to `2 ^ 96 - 1`, and an operation whose result is greater panics.  The
ratio of two reserves that Horizon can report always fits; its product with the price of the known
leg need not, since a route of thin pools multiplies one ratio by the next.  The discovery goes
through without a panic exactly if every pool that leads from an asset within three hops of XLM has
a ratio whose product with the asset's price fits (`prices_fit_iff`).

## Main definitions

* `NeverPanics` : no run of the discovery panics.
* `RoutesFit` : the products of ratios and prices along the routes fit.
-/

namespace Lumina

/-- No run of the discovery with that answer of the feed panics. -/
def NeverPanics (D : RustDecimal) (quote : String) (pools : List LiquidityPool) : Prop :=
  ∀ (env : PricesEnv) (now : Time) (w : World), env.quote = .ret quote →
    (ingestPrices D env now pools ⟨w, false⟩).1 ≠ .panic

/-- Every pool that leads from an asset whose price a hop may use has a ratio whose product with
that price fits. -/
def RoutesFit (D : RustDecimal) (reserves : List PoolLegs) (xlmUsd : Decimal) : Prop :=
  ∀ n < maxPriceHops, ∀ a price, Routed D reserves xlmUsd n a price → ∀ r ∈ reserves,
    ∀ b ratio, Leg r a b ratio → ∀ ratio', D.round ratio = some ratio' →
      |ratio' * price| ≤ maxDecimal

variable {D : RustDecimal} {env : PricesEnv} {now : Time} {pools : List LiquidityPool}
  {reserves : List PoolLegs} {r : PoolLegs} {a b : AssetId} {ratio xlmUsd : Decimal} {w : World}
  {quote : String}

/-! ### Ratios -/

/-- **No division overflows.** -/
theorem Leg.exists_round (hD : D.PanicsBeyond) (hA : HorizonAmount r.reserveA)
    (hB : HorizonAmount r.reserveB) (h : Leg r a b ratio) :
    ∃ ratio', D.round ratio = some ratio' := by
  rw [← Option.ne_none_iff_exists']
  intro hnone
  have hfits : |ratio| ≤ maxDecimal := by
    obtain ⟨-, ⟨-, -, hne, rfl⟩ | ⟨-, -, hne, rfl⟩⟩ := h
    · exact hA.div_le hB hne
    · exact hB.div_le hA hne
  exact absurd hfits (not_le.2 ((hD ratio).1 hnone))

/-- What holds of the amounts of the pools holds of their legs. -/
theorem amounts_of_mem_legs {P : Decimal → Prop}
    (hpools : ∀ lp ∈ pools, ∀ a ∈ lp.reserves, ∀ q, D.fromStr a.amount = some q → P q)
    (hr : r ∈ pools.filterMap (poolLegs D)) : P r.reserveA ∧ P r.reserveB := by
  obtain ⟨lp, hlp, hlegs⟩ := List.mem_filterMap.1 hr
  unfold poolLegs at hlegs
  obtain ⟨a, ha, hlegs⟩ := Option.bind_eq_some_iff.1 hlegs
  obtain ⟨b, hb, hlegs⟩ := Option.bind_eq_some_iff.1 hlegs
  obtain ⟨reserveA, hA, hlegs⟩ := Option.bind_eq_some_iff.1 hlegs
  obtain ⟨reserveB, hB, hlegs⟩ := Option.bind_eq_some_iff.1 hlegs
  obtain rfl := Option.some.inj hlegs
  exact ⟨hpools lp hlp a (List.mem_of_getElem? ha) _ hA,
    hpools lp hlp b (List.mem_of_getElem? hb) _ hB⟩

/-! ### Runs -/

/-- The hops of a run, where its XLM price is recorded. -/
theorem ingestPrices_hops {xlmUsd : Decimal} (hquote : D.fromStr quote = some xlmUsd)
    (henv : env.quote = .ret quote) (hinsert : env.insertXlm = .ok) :
    ingestPrices D env now pools ⟨w, false⟩ = ingestHops D env now (pools.filterMap (poolLegs D))
      maxPriceHops 0 [(native, xlmUsd)] ⟨addPrices [xlmRow now xlmUsd] w, false⟩ := by
  have hx : fetchXlmUsd D env = .ret xlmUsd := by
    simp [fetchXlmUsd, henv, hquote]
  rw [ingestPrices_eq, hx, hinsert]

/-- **The discovery panics in no run** exactly if the products along the routes fit. -/
theorem prices_fit_iff (hD : D.PanicsBeyond) (hquote : D.fromStr quote = some xlmUsd)
    (hpools : ∀ lp ∈ pools, ∀ a ∈ lp.reserves, ∀ q, D.fromStr a.amount = some q →
      HorizonAmount q) :
    NeverPanics D quote pools ↔ RoutesFit D (pools.filterMap (poolLegs D)) xlmUsd := by
  constructor
  · intro hnever n hn a price hrouted r hr b ratio hleg ratio' hratio
    -- a run without faults looks at every priced asset
    let env : PricesEnv := ⟨.ret quote, .insertion, .ok, fun _ _ => .ok⟩
    have hrun := hnever env 0 World.empty rfl
    rw [ingestPrices_hops hquote rfl rfl] at hrun
    obtain ⟨t, ht | ht⟩ := @ingestHops_ok D env 0 (pools.filterMap (poolLegs D)) (fun _ _ => rfl)
      maxPriceHops 0 [(native, xlmUsd)] (addPrices [xlmRow 0 xlmUsd] World.empty)
    · obtain ⟨-, -, -, -, -, hno⟩ := ingestHops_ret (routes_xlm D _ xlmUsd) ht
      have hno := hno n (by simpa using hn) (by decide) a price hrouted r hr
      by_contra hbig
      refine hno (overflows_iff.2 ⟨b, ratio, hleg, fun ratio₁ hratio₁ => ?_⟩)
      obtain rfl := Option.some.inj (hratio.symm.trans hratio₁)
      exact (hD _).2 (not_le.1 hbig)
    · exact absurd (congrArg Prod.fst ht) hrun
  · intro hfit env now w henv hpanic
    cases hinsert : env.insertXlm with
    | ok =>
      rw [ingestPrices_hops hquote henv hinsert] at hpanic
      obtain ⟨m, hm, a, price, hrouted, r, hr, hover⟩ :=
        ingestHops_panic (routes_xlm D _ xlmUsd) (Prod.ext hpanic rfl)
      obtain ⟨b, ratio, hleg, hnone⟩ := overflows_iff.1 hover
      obtain ⟨hA, hB⟩ := amounts_of_mem_legs hpools hr
      obtain ⟨ratio', hratio⟩ := hleg.exists_round hD hA hB
      have hle := hfit m (by simpa using hm) a price hrouted r hr b ratio hleg ratio' hratio
      exact absurd hle (not_le.2 ((hD _).1 (hnone ratio' hratio)))
    | fail => simp [ingestPrices_eq, fetchXlmUsd, henv, hquote, hinsert] at hpanic
    | stop => simp [ingestPrices_eq, fetchXlmUsd, henv, hquote, hinsert] at hpanic

end Lumina

/-! ### Two thin pools -/

namespace Lumina.Sample

/-- The amounts of the sample. -/
def thinQuoted (text : String) : Option Decimal :=
  if text = "1" then some 1
  else if text = "922337203685.4775807" then some ((2 ^ 63 - 1) / 10 ^ 7)
  else if text = "0.0000001" then some (1 / 10 ^ 7) else none

/-- Exact arithmetic up to the greatest decimal. -/
def bounded (fromStr : String → Option Decimal) : RustDecimal where
  round q := if |q| ≤ maxDecimal then some q else none
  fromI128WithScale value scale := some (value / 10 ^ scale)
  fromStr := fromStr
  tryFromF64
    | .finite q => some q
    | _ => none

theorem bounded_panicsBeyond (fromStr : String → Option Decimal) :
    (bounded fromStr).PanicsBeyond := by
  intro q
  simp only [bounded]
  split_ifs with h
  · simpa using h
  · simpa using h

/-- A pool with all that an amount can hold of its first leg and one stroop of the other. -/
def thinPool (id assetA assetB : String) : LiquidityPool :=
  ⟨id, 30, "12", "1000.0000000", [⟨assetA, "922337203685.4775807"⟩, ⟨assetB, "0.0000001"⟩]⟩

/-- A token that one thin pool trades against XLM, and another one against it. -/
def thinPools : List LiquidityPool :=
  [thinPool "67260c4c1807b262ff851b0a3fe141194936bb0215b2f77447f1df11998eabb9" "native"
      "THIN:GA5ZSEJYB37JRC5AVCIA5MOP4RHTM335X2KGX3IHOJAPP5RE34K4KZVN",
    thinPool "a468d41d8e9b8f3c7209651608b74b7db7ac9952dcae0cdf24871d1d9c7b0088"
      "THIN:GA5ZSEJYB37JRC5AVCIA5MOP4RHTM335X2KGX3IHOJAPP5RE34K4KZVN"
      "THINNER:GBNZILSTVQZ4R7IKQDGHYGY2QXL5QOFJYQMXPKWRRM5PAV7Y4M67AQUA"]

theorem horizonAmount_thinQuoted {text : String} {q : Decimal} (h : thinQuoted text = some q)
    (hne : text ≠ "1") : HorizonAmount q := by
  unfold thinQuoted at h
  split_ifs at h with h₁ h₂ h₃
  · exact absurd h₁ hne
  · exact ⟨2 ^ 63 - 1, le_rfl, by rw [← Option.some.inj h]; norm_num⟩
  · exact ⟨1, by norm_num, by rw [← Option.some.inj h]; norm_num⟩

theorem horizonAmount_thinPools : ∀ lp ∈ thinPools, ∀ a ∈ lp.reserves, ∀ q,
    thinQuoted a.amount = some q → HorizonAmount q := by
  have hne : ∀ lp ∈ thinPools, ∀ a ∈ lp.reserves, a.amount ≠ "1" := by decide
  exact fun lp hlp a ha q hq => horizonAmount_thinQuoted hq (hne lp hlp a ha)

theorem thinPools_panic :
    (ingestPrices (bounded thinQuoted) ⟨.ret "1", .insertion, .ok, fun _ _ => .ok⟩ 0 thinPools
      ⟨World.empty, false⟩).1 = .panic := by
  decide +kernel

/-- **Two thin pools stop the ingester**, with XLM at one dollar. -/
theorem thinPools_overflow : ¬ ∀ (D : RustDecimal) (quote : String) (xlmUsd : Decimal)
    (pools : List LiquidityPool), D.PanicsBeyond → D.fromStr quote = some xlmUsd → 0 < xlmUsd →
      xlmUsd ≤ 1000 →
      (∀ lp ∈ pools, ∀ a ∈ lp.reserves, ∀ q, D.fromStr a.amount = some q → HorizonAmount q) →
      NeverPanics D quote pools := by
  intro hall
  exact hall (bounded thinQuoted) "1" 1 thinPools (bounded_panicsBeyond thinQuoted) (by decide)
    (by norm_num) (by norm_num) horizonAmount_thinPools _ 0 World.empty rfl thinPools_panic

/-- Their product does not fit. -/
theorem thinPools_not_fit :
    ¬ RoutesFit (bounded thinQuoted) (thinPools.filterMap (poolLegs (bounded thinQuoted))) 1 :=
  fun hfit => (prices_fit_iff (bounded_panicsBeyond thinQuoted) (by decide)
    horizonAmount_thinPools).2 hfit ⟨.ret "1", .insertion, .ok, fun _ _ => .ok⟩ 0 World.empty rfl
    thinPools_panic

end Lumina.Sample
