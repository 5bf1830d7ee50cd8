import Lumina.Pricing.Discovery
import Mathlib.Data.List.Nodup

/-!
# The order of the maps and of the pools

Each pool offers at most one price for an asset in one hop, and the first pool with the greatest
reserve wins.  What a run of the price discovery records is therefore the same in whatever order
its maps are iterated, and where no two offers for an asset are equally deep it is the same in
whatever order the pools are listed (`priceDiscovery_order`).

## Main definitions

* `SameRecords` : two runs end alike and, where they go through, record the same prices.
* `DistinctOffers` : in no hop are two offers for an asset equally deep.
* `SameRoutes` : two lists of pools with the same pools and the same routes.
-/

namespace Lumina

open Lumina.Graph Tx

variable {D : RustDecimal} {env env' : PricesEnv} {now : Time} {reserves reserves' : List PoolLegs}
  {priced priced' : Priced} {newly newly' : Newly} {xlmUsd price : Decimal} {w w' : World}
  {a b : AssetId} {n hop left : ℕ}

/-- Two runs end alike and, where they go through, add the same rows to the prices, up to their
order. -/
def SameRecords (w w' : World) (r r' : Outcome Error Unit × Tx World) : Prop :=
  r.1 = r'.1 ∧ (r.1 = .ret () → ∃ rows rows', r.2 = ⟨addPrices rows w, false⟩ ∧
    r'.2 = ⟨addPrices rows' w', false⟩ ∧ rows.Perm rows')

/-- In no hop are the reserves of two offers for a newly reached asset equal. -/
def DistinctOffers (reserves : List PoolLegs) : Prop :=
  ∀ n < maxPriceHops, ∀ b, Hops reserves b (n + 1) → DistinctWeights (Links reserves n b) reserves

/-! ### The order of the pools -/

/-- Two lists of pools with the same pools and the same routes. -/
structure SameRoutes (D : RustDecimal) (reserves reserves' : List PoolLegs) (xlmUsd : Decimal) :
    Prop where
  mem : ∀ r, r ∈ reserves ↔ r ∈ reserves'
  routed : ∀ n ≤ maxPriceHops, ∀ a price,
    Routed D reserves xlmUsd n a price ↔ Routed D reserves' xlmUsd n a price

theorem sameRoutes_refl (D : RustDecimal) (reserves : List PoolLegs) (xlmUsd : Decimal) :
    SameRoutes D reserves reserves xlmUsd :=
  ⟨fun _ => Iff.rfl, fun _ _ _ _ => Iff.rfl⟩

theorem poolStep_perm (hp : reserves.Perm reserves') : PoolStep reserves = PoolStep reserves' := by
  funext a b ratio
  exact propext (exists_congr fun r => and_congr_left fun _ => hp.mem_iff)

theorem links_perm (hp : reserves.Perm reserves') : Links reserves n b = Links reserves' n b := by
  funext r weight
  unfold Links Hops
  rw [poolStep_perm hp]

/-- The routes do not depend on the order of the pools if no two offers are equally deep. -/
theorem Routed.perm (hp : reserves.Perm reserves') (hd : DistinctOffers reserves)
    (h : Routed D reserves xlmUsd n a price) (hn : n ≤ maxPriceHops) :
    Routed D reserves' xlmUsd n a price := by
  induction h with
  | xlm => exact .xlm
  | @hop n a b r weight ratio ratio' price price' hb hbest ha hleg hratio hprice ih =>
    have hbest' := hbest.perm (hd n hn b hb) (fun _ _ _ hv hv' => hv.unique hv') hp
    rw [links_perm hp] at hbest'
    have hb' : Hops reserves' b (n + 1) := by
      unfold Hops at hb ⊢
      rwa [← poolStep_perm hp]
    exact .hop hb' hbest' (ih (Nat.le_of_succ_le hn)) hleg hratio hprice

theorem DistinctOffers.perm (hp : reserves.Perm reserves') (hd : DistinctOffers reserves) :
    DistinctOffers reserves' := by
  intro n hn b hb
  have hb' : Hops reserves b (n + 1) := by
    unfold Hops at hb ⊢
    rwa [poolStep_perm hp]
  rw [← links_perm hp]
  exact (hd n hn b hb').perm hp

theorem sameRoutes_of_perm (hp : reserves.Perm reserves') (hd : DistinctOffers reserves) :
    SameRoutes D reserves reserves' xlmUsd where
  mem _ := hp.mem_iff
  routed _ hn _ _ := ⟨fun h => h.perm hp hd hn, fun h => h.perm hp.symm (hd.perm hp) hn⟩

/-! ### One hop of two runs -/

/-- After as many hops two runs have the same prices. -/
theorem Routes.perm (hs : SameRoutes D reserves reserves' xlmUsd) (hn : n ≤ maxPriceHops)
    (h : Routes D reserves xlmUsd n priced) (h' : Routes D reserves' xlmUsd n priced') :
    priced.Perm priced' := by
  refine (List.perm_ext_iff_of_nodup (h.once.of_map _) (h'.once.of_map _)).2 fun e => ?_
  constructor
  · intro he
    obtain ⟨m, hm, hr⟩ := h.price e he
    exact h'.mem ((hs.routed m (hm.trans hn) _ _).1 hr) hm
  · intro he
    obtain ⟨m, hm, hr⟩ := h'.price e he
    exact h.mem ((hs.routed m (hm.trans hn) _ _).2 hr) hm

/-- What the two runs then add is the same, too. -/
theorem Routes.newly_perm (hs : SameRoutes D reserves reserves' xlmUsd) (hn : n ≤ maxPriceHops)
    (hp : priced.Perm priced') (h : Routes D reserves xlmUsd n (priced ++ newly.prices))
    (h' : Routes D reserves' xlmUsd n (priced' ++ newly'.prices)) :
    newly.prices.Perm newly'.prices := by
  have happend := h.perm hs hn h'
  exact (List.perm_append_left_iff priced).1 (happend.trans (hp.symm.append_right _))

/-- The rows depend on the prices alone, not on the reserves that won. -/
theorem priceRows_perm (h : newly.prices.Perm newly'.prices) :
    (newly.map (priceRow now hop)).Perm (newly'.map (priceRow now hop)) := by
  have hmap := h.map fun e => (⟨now, e.1.1, e.1.2, e.2, priceSource hop⟩ : AssetPriceRow)
  simp only [Newly.prices, List.map_map] at hmap
  exact hmap

/-- One of two hops panics exactly if the other does. -/
theorem priceHop_eq_none_congr {order order' : Priced → Priced} (ho : ∀ l, (order l).Perm l)
    (ho' : ∀ l, (order' l).Perm l) (hmem : ∀ r, r ∈ reserves ↔ r ∈ reserves')
    (hp : priced.Perm priced') :
    priceHop D order reserves priced = none ↔ priceHop D order' reserves' priced' = none := by
  rw [priceHop_eq_none_iff, priceHop_eq_none_iff]
  refine exists_congr fun d => and_congr_left fun _ => ?_
  rw [mem_hopPairs, mem_hopPairs, hmem, (ho priced).mem_iff, (ho' priced').mem_iff, hp.mem_iff]

/-- Two loops over as many prices end alike. -/
theorem insertPrices_outcomes (hins : env'.insert = env.insert) (i : ℕ) {l l' : Newly}
    (hlen : l.length = l'.length) :
    (∃ p t p' t', insertPrices env now hop i l priced ⟨w, false⟩ = (.ret p, t) ∧
      insertPrices env' now hop i l' priced' ⟨w', false⟩ = (.ret p', t')) ∨
    (∃ t t', insertPrices env now hop i l priced ⟨w, false⟩ = (.err .db, t) ∧
      insertPrices env' now hop i l' priced' ⟨w', false⟩ = (.err .db, t')) ∨
    ∃ t t', insertPrices env now hop i l priced ⟨w, false⟩ = (.stop, t) ∧
      insertPrices env' now hop i l' priced' ⟨w', false⟩ = (.stop, t') := by
  induction l generalizing l' i priced priced' w w' with
  | nil =>
    obtain rfl := List.length_eq_zero_iff.1 hlen.symm
    exact .inl ⟨_, _, _, _, rfl, rfl⟩
  | cons e l ih =>
    obtain ⟨e', l', rfl⟩ := List.exists_cons_of_length_eq_add_one hlen.symm
    rw [insertPrices_cons, insertPrices_cons, hins]
    cases env.insert hop i with
    | ok => exact ih (i + 1) (Nat.succ.inj hlen)
    | fail => exact .inr (.inl ⟨_, _, rfl, rfl⟩)
    | stop => exact .inr (.inr ⟨_, _, rfl, rfl⟩)

theorem SameRecords.add {rows rows' : List AssetPriceRow} {r r' : Outcome Error Unit × Tx World}
    (hp : rows.Perm rows') (h : SameRecords (addPrices rows w) (addPrices rows' w') r r') :
    SameRecords w w' r r' := by
  refine ⟨h.1, fun hret => ?_⟩
  obtain ⟨more, more', hr, hr', hmore⟩ := h.2 hret
  rw [addPrices_append] at hr hr'
  exact ⟨_, _, hr, hr', hp.append hmore⟩

/-- Two runs that end alike without going through. -/
theorem sameRecords_of_ne {r r' : Outcome Error Unit × Tx World} (h : r.1 = r'.1)
    (hne : r.1 ≠ .ret ()) : SameRecords w w' r r' :=
  ⟨h, fun hret => absurd hret hne⟩

/-- Two runs that record nothing. -/
theorem sameRecords_nil : SameRecords w w' (.ret (), ⟨w, false⟩) (.ret (), ⟨w', false⟩) :=
  ⟨rfl, fun _ => ⟨[], [], by simp [addPrices], by simp [addPrices], List.Perm.refl _⟩⟩

/-! ### The runs -/

/-- **The hops of two runs** with the same routes end alike. -/
theorem ingestHops_sameRecords (hs : SameRoutes D reserves reserves' xlmUsd)
    (hins : env'.insert = env.insert) (hleft : hop + left ≤ maxPriceHops)
    (h : Routes D reserves xlmUsd hop priced) (h' : Routes D reserves' xlmUsd hop priced') :
    SameRecords w w' (ingestHops D env now reserves left hop priced ⟨w, false⟩)
      (ingestHops D env' now reserves' left hop priced' ⟨w', false⟩) := by
  induction left generalizing hop priced priced' w w' with
  | zero => exact sameRecords_nil
  | succ left ih =>
    have hp : priced.Perm priced' := h.perm hs (by omega) h'
    have hnone := priceHop_eq_none_congr (D := D) (env.order.priced_perm hop)
      (env'.order.priced_perm hop) hs.mem hp
    rw [ingestHops_succ, ingestHops_succ, Proc.bind_apply, Proc.bind_apply, Proc.lift_apply,
      Proc.lift_apply]
    cases hnewly : priceHop D (env.order.priced hop) reserves priced with
    | none =>
      rw [hnone.1 hnewly]
      exact sameRecords_of_ne rfl (by simp)
    | some newly =>
    cases hnewly' : priceHop D (env'.order.priced hop) reserves' priced' with
    | none => exact absurd (hnewly.symm.trans (hnone.2 hnewly')) nofun
    | some newly' =>
    have hperm := env.order.newly_perm hop newly
    have hperm' := env'.order.newly_perm hop newly'
    have hpicks := priceHop_picks hnewly
    have hpicks' := priceHop_picks hnewly'
    have hnext := h.next (env.order.priced_perm hop priced) hpicks
      (not_overflows_of_priceHop hnewly) hperm
    have hnext' := h'.next (env'.order.priced_perm hop priced') hpicks'
      (not_overflows_of_priceHop hnewly') hperm'
    -- both hops find the same prices
    have hfound : (env.order.newly hop newly).prices.Perm (env'.order.newly hop newly').prices :=
      hnext.newly_perm hs (by omega) hp hnext'
    have hlen : (env.order.newly hop newly).length = (env'.order.newly hop newly').length := by
      simpa [Newly.prices] using hfound.length_eq
    have hsize : newly.length = newly'.length := by
      rw [← hperm.length_eq, hlen, hperm'.length_eq]
    simp only [Outcome.orPanic_some]
    by_cases hnil : newly = []
    · rw [if_pos hnil, if_pos (List.length_eq_zero_iff.1 (by rw [← hsize, hnil]; rfl))]
      exact sameRecords_nil
    have hnil' : newly' ≠ [] := fun heq =>
      hnil (List.length_eq_zero_iff.1 (by rw [hsize, heq]; rfl))
    rw [if_neg hnil, if_neg hnil', Proc.bind_apply, Proc.bind_apply]
    rcases @insertPrices_outcomes env env' now priced priced' w w' hop hins 0 _ _ hlen with
      ⟨p, t, p', t', hret, hret'⟩ | ⟨t, t', herr, herr'⟩ | ⟨t, t', hstop, hstop'⟩
    · obtain ⟨rfl, rfl⟩ := hpicks.recorded hperm hret
      obtain ⟨rfl, rfl⟩ := hpicks'.recorded hperm' hret'
      rw [hret, hret']
      exact (ih (by omega) hnext hnext').add (priceRows_perm hfound)
    · rw [herr, herr']
      exact sameRecords_of_ne rfl (by simp)
    · rw [hstop, hstop']
      exact sameRecords_of_ne rfl (by simp)

/-- Two runs with the same routes record the same prices. -/
theorem ingestPrices_sameRecords {pools pools' : List LiquidityPool}
    (hquote : env'.quote = env.quote) (hxlm : env'.insertXlm = env.insertXlm)
    (hins : env'.insert = env.insert)
    (hs : ∀ xlmUsd, SameRoutes D (pools.filterMap (poolLegs D)) (pools'.filterMap (poolLegs D))
      xlmUsd) :
    SameRecords w w (ingestPrices D env now pools ⟨w, false⟩)
      (ingestPrices D env' now pools' ⟨w, false⟩) := by
  have hfetch : fetchXlmUsd D env' = fetchXlmUsd D env := by
    unfold fetchXlmUsd
    rw [hquote]
  rw [ingestPrices_eq, ingestPrices_eq, hfetch, hxlm]
  cases fetchXlmUsd D env with
  | err e => exact sameRecords_of_ne rfl (by simp)
  | stop => exact sameRecords_of_ne rfl (by simp)
  | panic => exact sameRecords_of_ne rfl (by simp)
  | ret xlmUsd =>
    cases env.insertXlm with
    | fail => exact sameRecords_of_ne rfl (by simp)
    | stop => exact sameRecords_of_ne rfl (by simp)
    | ok =>
      exact (ingestHops_sameRecords (hs xlmUsd) hins (by decide) (routes_xlm _ _ _)
        (routes_xlm _ _ _)).add (List.Perm.refl [xlmRow now xlmUsd])

/-- **The order of the maps does not matter, and neither does that of the pools** where no two
offers for an asset are equally deep. -/
theorem priceDiscovery_order (D : RustDecimal) (env : PricesEnv) (now : Time)
    (pools : List LiquidityPool) (w : World) (order : HashOrder) :
    SameRecords w w (ingestPrices D env now pools ⟨w, false⟩)
      (ingestPrices D { env with order := order } now pools ⟨w, false⟩) ∧
    (DistinctOffers (pools.filterMap (poolLegs D)) → ∀ pools' : List LiquidityPool,
      pools.Perm pools' → SameRecords w w (ingestPrices D env now pools ⟨w, false⟩)
        (ingestPrices D { env with order := order } now pools' ⟨w, false⟩)) :=
  ⟨ingestPrices_sameRecords rfl rfl rfl fun xlmUsd => sameRoutes_refl D _ xlmUsd,
    fun hd _ hp => ingestPrices_sameRecords rfl rfl rfl fun _ =>
      sameRoutes_of_perm (hp.filterMap _) hd⟩

end Lumina

/-! ### Two pools of XLM and USDC -/

namespace Lumina.Sample

def usdcPool (id xlm usdc : String) : LiquidityPool :=
  ⟨id, 30, "12", "1000.0000000", [⟨"native", xlm⟩,
    ⟨"USDC:GA5ZSEJYB37JRC5AVCIA5MOP4RHTM335X2KGX3IHOJAPP5RE34K4KZVN", usdc⟩]⟩

def usdcPools : List LiquidityPool :=
  [usdcPool "67260c4c1807b262ff851b0a3fe141194936bb0215b2f77447f1df11998eabb9" "1000.0000000"
      "5000.0000000",
    usdcPool "a468d41d8e9b8f3c7209651608b74b7db7ac9952dcae0cdf24871d1d9c7b0088" "5000.0000000"
      "1000.0000000"]

/-- The maps are iterated from their end. -/
def backwards : HashOrder where
  priced _ l := l.reverse
  newly _ l := l.reverse
  priced_perm _ l := l.reverse_perm
  newly_perm _ l := l.reverse_perm

/-- The pool with more XLM gives the price, wherever it stands: one USDC is worth five XLM of half a
dollar, and not a fifth of one. -/
theorem usdcPools_reversed :
    SameRecords World.empty World.empty
        (ingestPrices (.exact quoted) pricesEnv 0 usdcPools ⟨World.empty, false⟩)
        (ingestPrices (.exact quoted) { pricesEnv with order := backwards } 0 usdcPools.reverse
          ⟨World.empty, false⟩) ∧
      ((ingestPrices (.exact quoted) { pricesEnv with order := backwards } 0 usdcPools.reverse
        ⟨World.empty, false⟩).2.view.db.assetPrices.map (·.priceUsd)) = [1 / 2, 5 / 2] := by
  have hlegs : usdcPools.filterMap (poolLegs (.exact quoted)) =
      [⟨"native", 1000, "USDC:GA5ZSEJYB37JRC5AVCIA5MOP4RHTM335X2KGX3IHOJAPP5RE34K4KZVN", 5000⟩,
        ⟨"native", 5000, "USDC:GA5ZSEJYB37JRC5AVCIA5MOP4RHTM335X2KGX3IHOJAPP5RE34K4KZVN",
          1000⟩] := by
    decide +kernel
  refine ⟨(priceDiscovery_order (.exact quoted) pricesEnv 0 usdcPools World.empty backwards).2 ?_
    usdcPools.reverse usdcPools.reverse_perm.symm, by decide +kernel⟩
  rw [hlegs]
  intro n _ b _
  refine List.pairwise_pair.2 ?_
  rintro v v' ⟨a, ratio, -, ⟨hne, hleg⟩, rfl⟩ ⟨a', ratio', -, ⟨-, hleg'⟩, rfl⟩
  -- the pools have the same legs, so the known asset is the same
  have hsource : a' = a := by
    rcases hleg with ⟨ha, hb, -⟩ | ⟨ha, hb, -⟩ <;> rcases hleg' with ⟨ha', hb', -⟩ | ⟨ha', hb', -⟩
    · exact ha'.symm.trans ha
    · exact absurd (ha.symm.trans hb') hne
    · exact absurd (ha.symm.trans hb') hne
    · exact ha'.symm.trans ha
  subst hsource
  by_cases hnative : parsePoolAsset "native" = a' <;> simp [knownReserve, hnative]

end Lumina.Sample
