import Lumina.Pricing.Hop

/-!
# Routes

The hops search the graph of the pools from XLM in layers: after `n` hops the priced assets are
those at distance at most `n`, whatever the order of the maps, and each has the price that its
route gives it (`Routes`): at each hop the first of the pools with the greatest reserve of the
priced leg.  A run that goes through records layer after layer (`ingestHops_ret`); one that panics
has met a pool whose arithmetic has no result at the price of a route (`ingestHops_panic`).

## Main definitions

* `Chain`, `Hops` : the chains of pools from XLM.
* `Routed` : the price of an asset along its route.
* `Routes` : the invariant of the hops, `RoutedLayers` : what they record.
-/

namespace Lumina

open Lumina.Graph Tx

variable {D : RustDecimal} {env : PricesEnv} {now : Time} {reserves : List PoolLegs}
  {r : PoolLegs} {priced : Priced} {newly : Newly} {xlmUsd price price' : Decimal} {w : World}
  {a b : AssetId} {n m hop left : ℕ}

/-- The chains of pools from XLM to an asset, with their length and the product of the ratios. -/
abbrev Chain (reserves : List PoolLegs) : AssetId → ℕ → Decimal → Prop :=
  Walk (PoolStep reserves) native

/-- The length of the shortest chains to an asset. -/
abbrev Hops (reserves : List PoolLegs) : AssetId → ℕ → Prop :=
  Distance (PoolStep reserves) native

/-- A pool that links an asset at `n` hops to `b`, with the reserve of the nearer leg. -/
def Links (reserves : List PoolLegs) (n : ℕ) (b : AssetId) (r : PoolLegs) (weight : Decimal) :
    Prop :=
  ∃ a ratio, Hops reserves a n ∧ Leg r a b ratio ∧ weight = knownReserve r a

/-- The price of an asset along its route.  The last pool of the route is the first of those with
the greatest reserve of the nearer leg among the pools that link an asset one hop nearer to it. -/
inductive Routed (D : RustDecimal) (reserves : List PoolLegs) (xlmUsd : Decimal) :
    ℕ → AssetId → Decimal → Prop
  | xlm : Routed D reserves xlmUsd 0 native xlmUsd
  | hop {n : ℕ} {a b : AssetId} {r : PoolLegs} {weight ratio ratio' price price' : Decimal}
    (hb : Hops reserves b (n + 1)) (hbest : FirstBest reserves (Links reserves n b) r weight)
    (ha : Routed D reserves xlmUsd n a price) (hleg : Leg r a b ratio)
    (hratio : D.round ratio = some ratio') (hprice : D.round (ratio' * price) = some price') :
    Routed D reserves xlmUsd (n + 1) b price'

theorem Routed.hops (h : Routed D reserves xlmUsd n a price) : Hops reserves a n := by
  cases h with
  | xlm => exact distance_root
  | hop hb => exact hb

theorem Links.unique {weight weight' : Decimal} (h : Links reserves n b r weight)
    (h' : Links reserves n b r weight') : weight = weight' := by
  obtain ⟨a, ratio, -, hleg, rfl⟩ := h
  obtain ⟨a', ratio', -, hleg', rfl⟩ := h'
  rw [hleg.source_unique hleg']

/-- An asset has one route. -/
theorem Routed.unique (h : Routed D reserves xlmUsd n a price)
    (h' : Routed D reserves xlmUsd n a price') : price = price' := by
  induction h generalizing price' with
  | xlm =>
    cases h' with
    | xlm => rfl
  | @hop n a b _ _ _ _ _ _ hb hbest ha hleg hratio hprice ih =>
    cases h' with
    | hop hb' hbest' ha' hleg' hratio' hprice' =>
      have hweight : ∀ r v v', Links reserves n b r v → Links reserves n b r v' → v = v' :=
        fun r v v' hv hv' => hv.unique hv'
      obtain ⟨rfl, -⟩ := hbest.unique hweight hbest'
      obtain rfl := hleg.source_unique hleg'
      obtain ⟨-, rfl⟩ := hleg.unique hleg'
      obtain rfl := Option.some.inj (hratio.symm.trans hratio')
      obtain rfl := ih ha'
      exact Option.some.inj (hprice.symm.trans hprice')

/-! ### One hop -/

/-- After `n` hops the priced assets are those at most `n` hops from XLM, each once, at the price
of its route. -/
structure Routes (D : RustDecimal) (reserves : List PoolLegs) (xlmUsd : Decimal) (n : ℕ)
    (priced : Priced) : Prop where
  layered : Layered (PoolStep reserves) native n priced.Has
  once : (priced.map (·.1)).Nodup
  price : ∀ e ∈ priced, ∃ m ≤ n, Routed D reserves xlmUsd m e.1 e.2

theorem routes_xlm (D : RustDecimal) (reserves : List PoolLegs) (xlmUsd : Decimal) :
    Routes D reserves xlmUsd 0 [(native, xlmUsd)] where
  layered b := by
    rw [← layered_root b]
    simp [Priced.Has]
  once := by simp
  price e he := by
    obtain rfl := List.mem_singleton.1 he
    exact ⟨0, le_rfl, .xlm⟩

/-- Every price of a route as long as that is among them. -/
theorem Routes.mem (h : Routes D reserves xlmUsd n priced)
    (hr : Routed D reserves xlmUsd m a price) (hm : m ≤ n) : (a, price) ∈ priced := by
  obtain ⟨price', hmem⟩ := (h.layered a).2 ⟨m, hm, hr.hops⟩
  obtain ⟨m', -, hr'⟩ := h.price _ hmem
  obtain rfl := hr.hops.unique hr'.hops
  rwa [hr.unique hr']

/-- The prices of a hop. -/
def Newly.prices (newly : Newly) : Priced := newly.map fun e => (e.1, e.2.2)

theorem Newly.has_prices {asset : AssetId} : newly.prices.Has asset ↔ asset ∈ newly.assets := by
  simp only [Newly.prices, Priced.Has, Newly.assets, List.mem_map]
  constructor
  · rintro ⟨price, e, he, heq⟩
    exact ⟨e, he, congrArg (·.1) heq⟩
  · rintro ⟨e, he, rfl⟩
    exact ⟨e.2.2, e, he, rfl⟩

theorem Priced.has_append {more : Priced} {asset : AssetId} :
    (priced ++ more).Has asset ↔ priced.Has asset ∨ more.Has asset := by
  simp only [Priced.Has, List.mem_append, exists_or]

theorem mem_hopPairs {l : List (AssetId × Decimal)} {d : PoolLegs × (AssetId × Decimal)} :
    d ∈ hopPairs reserves l ↔ d.1 ∈ reserves ∧ d.2 ∈ l := by
  simp only [hopPairs, List.mem_flatMap, List.mem_map]
  constructor
  · rintro ⟨r, hr, known, hk, rfl⟩
    exact ⟨hr, hk⟩
  · rintro ⟨hr, hk⟩
    exact ⟨d.1, hr, d.2, hk, rfl⟩

section Hop

variable {l : Priced}

theorem Leg.derives {known : AssetId × Decimal} {ratio : Decimal} (h : Leg r known.1 b ratio)
    (hno : ¬ Overflows D r known) :
    ∃ price, Derives D r known b price (knownReserve r known.1) := by
  rw [overflows_iff] at hno
  by_contra hnone
  refine hno ⟨b, ratio, h, fun ratio' hratio => ?_⟩
  rw [Option.eq_none_iff_forall_ne_some]
  exact fun price hprice => hnone ⟨price, derives_iff.2 ⟨ratio, ratio', h, hratio, hprice, rfl⟩⟩

/-- The assets that a hop finds are those without a price that an edge reaches from a priced
one. -/
theorem HopPicks.mem_assets_iff (hl : l.Perm priced)
    (h : HopPicks D priced (hopPairs reserves l) newly)
    (hno : ∀ r ∈ reserves, ∀ e ∈ priced, ¬ Overflows D r e) :
    b ∈ newly.assets ↔ ¬ priced.Has b ∧ ∃ a y, priced.Has a ∧ PoolStep reserves a b y := by
  constructor
  · intro hb
    obtain ⟨e, he, rfl⟩ := List.mem_map.1 hb
    obtain ⟨hnew, d, hbest, hd⟩ := h.picks e he
    obtain ⟨hr, hk⟩ := mem_hopPairs.1 hbest.mem
    obtain ⟨ratio, -, hleg, -⟩ := derives_iff.1 hd
    exact ⟨hnew, d.2.1, ratio, ⟨d.2.2, hl.mem_iff.1 hk⟩, d.1, hr, hleg⟩
  · rintro ⟨hnew, a, y, ⟨price, ha⟩, r, hr, hleg⟩
    obtain ⟨price', hd⟩ := @Leg.derives D r b (a, price) y hleg (hno r hr _ ha)
    exact h.complete (r, (a, price)) (mem_hopPairs.2 ⟨hr, hl.mem_iff.2 ha⟩) b _ ⟨price', hd⟩ hnew

/-- **What a hop finds is on a route.** -/
theorem Routes.routed (h : Routes D reserves xlmUsd n priced) (hl : l.Perm priced)
    (hp : HopPicks D priced (hopPairs reserves l) newly)
    (hno : ∀ r ∈ reserves, ∀ e ∈ priced, ¬ Overflows D r e) {e : AssetId × Decimal × Decimal}
    (he : e ∈ newly) : Routed D reserves xlmUsd (n + 1) e.1 e.2.2 := by
  obtain ⟨hnew, d, hbest, hd⟩ := hp.picks e he
  obtain ⟨hr, hk⟩ := mem_hopPairs.1 hbest.mem
  have hk : d.2 ∈ priced := hl.mem_iff.1 hk
  obtain ⟨ratio, ratio', hleg, hratio, hprice, hweight⟩ := derives_iff.1 hd
  -- the known end is in the last layer
  obtain ⟨hsource, htarget⟩ := h.layered.distance_source ⟨d.2.2, hk⟩ hnew ⟨d.1, hr, hleg⟩
  obtain ⟨m, -, hrouted⟩ := h.price d.2 hk
  obtain rfl := hrouted.hops.unique hsource
  have hlinks : ∃ r, d ∈ l.map (r, ·) ∧ FirstBest reserves (Links reserves m e.1) r e.2.1 := by
    refine hbest.of_flatMap ?_ ?_
    · rintro r hr weight ⟨a, ratio, ha, hleg, rfl⟩
      obtain ⟨price, hmem⟩ := (h.layered a).2 ⟨m, le_rfl, ha⟩
      obtain ⟨price', hd⟩ := @Leg.derives D r e.1 (a, price) ratio hleg (hno r hr _ hmem)
      exact ⟨(r, (a, price)), List.mem_map_of_mem (hl.mem_iff.2 hmem), price', hd⟩
    · intro r hr hmem
      obtain ⟨k, -, rfl⟩ := List.mem_map.1 hmem
      exact ⟨k.1, ratio, hsource, hleg, hweight⟩
  obtain ⟨r, hmem, hfirst⟩ := hlinks
  obtain ⟨k, -, rfl⟩ := List.mem_map.1 hmem
  exact .hop htarget hfirst hrouted hleg hratio hprice

/-- **One hop** adds the next layer. -/
theorem Routes.next (h : Routes D reserves xlmUsd n priced) (hl : l.Perm priced)
    (hp : HopPicks D priced (hopPairs reserves l) newly)
    (hno : ∀ r ∈ reserves, ∀ e ∈ priced, ¬ Overflows D r e) {newly' : Newly}
    (hperm : newly'.Perm newly) : Routes D reserves xlmUsd (n + 1) (priced ++ newly'.prices) where
  layered := by
    refine h.layered.succ ?_
    intro b
    rw [Priced.has_append, Newly.has_prices, ← hp.mem_assets_iff hl hno]
    exact or_congr Iff.rfl (hperm.map _).mem_iff
  once := by
    have hnewly : newly'.prices.map (·.1) = newly'.assets := by
      simp [Newly.prices, Newly.assets, Function.comp_def]
    rw [List.map_append, hnewly]
    refine List.nodup_append.2 ⟨h.once, (hperm.map _).nodup_iff.2 hp.once, ?_⟩
    rintro a ha b hb rfl
    obtain ⟨e, he, rfl⟩ := List.mem_map.1 ha
    exact ((hp.mem_assets_iff hl hno).1 ((hperm.map _).mem_iff.1 hb)).1 ⟨e.2, he⟩
  price e he := by
    rcases List.mem_append.1 he with he | he
    · obtain ⟨m, hm, hr⟩ := h.price e he
      exact ⟨m, hm.trans (Nat.le_succ n), hr⟩
    · obtain ⟨e', he', rfl⟩ := List.mem_map.1 he
      exact ⟨n + 1, le_rfl, h.routed hl hp hno (hperm.mem_iff.1 he')⟩

/-- A hop that finds nothing ends the search. -/
theorem Routes.closed (h : Routes D reserves xlmUsd n priced) (hl : l.Perm priced)
    (hp : HopPicks D priced (hopPairs reserves l) [])
    (hno : ∀ r ∈ reserves, ∀ e ∈ priced, ¬ Overflows D r e) (hnm : n ≤ m) :
    Routes D reserves xlmUsd m priced where
  layered := by
    refine h.layered.closed (fun a b y ha hab => ?_) hnm
    by_contra hb
    have := (hp.mem_assets_iff hl hno).2 ⟨hb, a, y, ha, hab⟩
    simp [Newly.assets] at this
  once := h.once
  price e he := by
    obtain ⟨k, hk, hr⟩ := h.price e he
    exact ⟨k, hk.trans hnm, hr⟩

end Hop

/-! ### The rows -/

/-- The asset of a price. -/
def AssetPriceRow.asset (row : AssetPriceRow) : AssetId := (row.assetCode, row.assetIssuer)

/-- The database with more prices. -/
def addPrices (rows : List AssetPriceRow) (w : World) : World :=
  { w with db := { w.db with assetPrices := w.db.assetPrices ++ rows } }

theorem addPrices_append (rows more : List AssetPriceRow) :
    addPrices more (addPrices rows w) = addPrices (rows ++ more) w := by
  simp [addPrices, List.append_assoc]

/-- The row of a price found in a hop. -/
def priceRow (now : Time) (hop : ℕ) (e : AssetId × Decimal × Decimal) : AssetPriceRow :=
  ⟨now, e.1.1, e.1.2, e.2.2, priceSource hop⟩

/-- The row of the XLM price. -/
def xlmRow (now : Time) (xlmUsd : Decimal) : AssetPriceRow := ⟨now, "XLM", "", xlmUsd, "coingecko"⟩

/-- The loop that records the prices of a hop, from number `i` on. -/
def insertPrices (env : PricesEnv) (now : Time) (hop i : ℕ) (l : Newly) (priced : Priced) :
    Proc (Tx World) Error Priced :=
  (l.zipIdx i).foldlM (fun priced (e, i) => do
    Tx.exec (env.insert hop i) (insertAssetPrice now e.1 e.2.2 (priceSource hop))
    return Priced.insert priced e.1 e.2.2) priced

theorem Priced.insert_new {asset : AssetId} {price : Decimal} (h : ¬ priced.Has asset) :
    priced.insert asset price = priced ++ [(asset, price)] := by
  rw [Priced.insert, if_neg (mt Priced.containsKey_iff.1 h)]

theorem insertPrices_cons (env : PricesEnv) (now : Time) (hop i : ℕ)
    (e : AssetId × Decimal × Decimal) (l : Newly) (priced : Priced) :
    insertPrices env now hop i (e :: l) priced ⟨w, false⟩ =
      match env.insert hop i with
      | .ok => insertPrices env now hop (i + 1) l (priced.insert e.1 e.2.2)
          ⟨addPrices [priceRow now hop e] w, false⟩
      | .fail => (.err .db, ⟨w, true⟩)
      | .stop => (.stop, ⟨w, false⟩) := by
  rw [insertPrices, List.zipIdx_cons, List.foldlM_cons, Proc.bind_apply]
  simp only [Proc.bind_apply, Tx.exec, Tx.execReturning]
  cases env.insert hop i <;> rfl

/-- A loop that goes through has recorded all prices. -/
theorem insertPrices_ret {l : Newly} {i : ℕ} {priced' : Priced} {t : Tx World}
    (hnew : ∀ e ∈ l, ¬ priced.Has e.1) (honce : l.assets.Nodup)
    (h : insertPrices env now hop i l priced ⟨w, false⟩ = (.ret priced', t)) :
    priced' = priced ++ l.prices ∧ t = ⟨addPrices (l.map (priceRow now hop)) w, false⟩ := by
  induction l generalizing i priced w with
  | nil =>
    obtain ⟨rfl, rfl⟩ : priced = priced' ∧ (⟨w, false⟩ : Tx World) = t := by
      simpa [insertPrices] using h
    exact ⟨by simp [Newly.prices], by simp [addPrices]⟩
  | cons e l ih =>
    rw [insertPrices_cons] at h
    have hcons : e.1 ∉ Newly.assets l ∧ (Newly.assets l).Nodup := List.nodup_cons.1 honce
    cases hi : env.insert hop i with
    | ok =>
      rw [hi] at h
      simp only at h
      rw [Priced.insert_new (hnew e (by simp))] at h
      have hrest : ∀ e' ∈ l, ¬ (priced ++ [(e.1, e.2.2)]).Has e'.1 := by
        intro e' he' hhas
        rcases Priced.has_append.1 hhas with hhas | ⟨price, hmem⟩
        · exact hnew e' (List.mem_cons_of_mem _ he') hhas
        · have heq : e'.1 = e.1 := by simpa using congrArg (·.1) (List.mem_singleton.1 hmem)
          exact hcons.1 (heq ▸ List.mem_map_of_mem he')
      obtain ⟨rfl, rfl⟩ := ih hrest hcons.2 h
      exact ⟨by simp [Newly.prices], by rw [addPrices_append]; rfl⟩
    | fail => simp [hi] at h
    | stop => simp [hi] at h

/-- So has one over what a hop found, in any order. -/
theorem HopPicks.recorded {done : List (PoolLegs × (AssetId × Decimal))} {newly l : Newly} {i : ℕ}
    {priced' : Priced} {t : Tx World} (hpicks : HopPicks D priced done newly) (hperm : l.Perm newly)
    (h : insertPrices env now hop i l priced ⟨w, false⟩ = (.ret priced', t)) :
    priced' = priced ++ l.prices ∧ t = ⟨addPrices (l.map (priceRow now hop)) w, false⟩ := by
  refine insertPrices_ret (fun e he => (hpicks.picks e (hperm.mem_iff.1 he)).1) ?_ h
  exact (hperm.map _).nodup_iff.2 hpicks.once

/-- Recording does not panic. -/
theorem insertPrices_ne_panic {l : Newly} {i : ℕ} :
    (insertPrices env now hop i l priced ⟨w, false⟩).1 ≠ .panic := by
  induction l generalizing i priced w with
  | nil => simp [insertPrices]
  | cons e l ih =>
    rw [insertPrices_cons]
    cases env.insert hop i with
    | ok => exact ih
    | fail => simp
    | stop => simp

variable (now) in
/-- Where every insertion goes through, so does the loop. -/
theorem insertPrices_ok (hok : ∀ i, env.insert hop i = .ok) (l : Newly) (i : ℕ) (priced : Priced)
    (w : World) : ∃ priced' w', insertPrices env now hop i l priced ⟨w, false⟩ =
      (.ret priced', ⟨w', false⟩) := by
  induction l generalizing i priced w with
  | nil => exact ⟨priced, w, rfl⟩
  | cons e l ih =>
    rw [insertPrices_cons, hok i]
    exact ih _ _ _

/-! ### The hops -/

theorem ingestHops_succ (D : RustDecimal) (env : PricesEnv) (now : Time)
    (reserves : List PoolLegs) (left hop : ℕ) (priced : Priced) :
    ingestHops D env now reserves (left + 1) hop priced = (do
      let newly ← Proc.lift (.orPanic (priceHop D (env.order.priced hop) reserves priced))
      if newly = [] then pure ()
      else do
        let priced ← insertPrices env now hop 0 (env.order.newly hop newly) priced
        ingestHops D env now reserves left (hop + 1) priced) := rfl

/-- The asset and the price of a row. -/
def AssetPriceRow.entry (row : AssetPriceRow) : AssetId × Decimal := (row.asset, row.priceUsd)

/-- The rows that some hops record, those of hop `hop` first. -/
structure RoutedLayers (D : RustDecimal) (reserves : List PoolLegs) (xlmUsd : Decimal) (now : Time)
    (hop : ℕ) (layers : List (List AssetPriceRow)) : Prop where
  routed : ∀ k layer, layers[k]? = some layer → ∀ row ∈ layer,
    Routed D reserves xlmUsd (hop + k + 1) row.asset row.priceUsd
  source : ∀ k layer, layers[k]? = some layer → ∀ row ∈ layer,
    row.priceSource = priceSource (hop + k) ∧ row.time = now

theorem routedLayers_nil : RoutedLayers D reserves xlmUsd now hop [] := ⟨by simp, by simp⟩

/-- The layer of one hop before those of the next ones. -/
theorem RoutedLayers.cons {layers : List (List AssetPriceRow)} {l : Newly}
    (h : RoutedLayers D reserves xlmUsd now (hop + 1) layers)
    (hl : ∀ e ∈ l, Routed D reserves xlmUsd (hop + 1) e.1 e.2.2) :
    RoutedLayers D reserves xlmUsd now hop (l.map (priceRow now hop) :: layers) where
  routed k layer hk row hrow := by
    cases k with
    | zero =>
      obtain rfl : _ = layer := Option.some.inj hk
      obtain ⟨e, he, rfl⟩ := List.mem_map.1 hrow
      exact hl e he
    | succ k =>
      have := h.routed k layer hk row hrow
      rwa [Nat.add_assoc hop, Nat.add_comm 1 k] at this
  source k layer hk row hrow := by
    cases k with
    | zero =>
      obtain rfl : _ = layer := Option.some.inj hk
      obtain ⟨e, he, rfl⟩ := List.mem_map.1 hrow
      exact ⟨rfl, rfl⟩
    | succ k =>
      have := h.source k layer hk row hrow
      rwa [Nat.add_assoc hop, Nat.add_comm 1 k] at this

/-- A hop that does not panic has met no overflow. -/
theorem not_overflows_of_priceHop
    (h : priceHop D (env.order.priced hop) reserves priced = some newly) :
    ∀ r ∈ reserves, ∀ e ∈ priced, ¬ Overflows D r e := by
  intro r hr e he hover
  have hnone : priceHop D (env.order.priced hop) reserves priced = none :=
    priceHop_eq_none_iff.2 ⟨(r, e),
      mem_hopPairs.2 ⟨hr, (env.order.priced_perm hop priced).mem_iff.2 he⟩, hover⟩
  rw [hnone] at h
  cases h

/-- **The hops**: where they go through, they record layer after layer, no pool overflows at the
price of a route, and the search goes as far as hops are left. -/
theorem ingestHops_ret {t : Tx World} (h : Routes D reserves xlmUsd hop priced)
    (hret : ingestHops D env now reserves left hop priced ⟨w, false⟩ = (.ret (), t)) :
    ∃ layers, t = ⟨addPrices layers.flatten w, false⟩ ∧
      RoutedLayers D reserves xlmUsd now hop layers ∧ layers.length ≤ left ∧
      Routes D reserves xlmUsd (hop + left) (priced ++ layers.flatten.map (·.entry)) ∧
      ∀ m < hop + left, 0 < left → ∀ a price, Routed D reserves xlmUsd m a price →
        ∀ r ∈ reserves, ¬ Overflows D r (a, price) := by
  induction left generalizing hop priced w with
  | zero =>
    obtain rfl : (⟨w, false⟩ : Tx World) = t := congrArg (·.2) hret
    exact ⟨[], by simp [addPrices], routedLayers_nil, le_rfl, by simpa using h,
      fun _ _ hleft => absurd hleft (Nat.lt_irrefl 0)⟩
  | succ left ih =>
    have hperm := env.order.priced_perm hop priced
    rw [ingestHops_succ, Proc.bind_apply, Proc.lift_apply] at hret
    cases hnewly : priceHop D (env.order.priced hop) reserves priced with
    | none => simp [hnewly] at hret
    | some newly =>
      have hpicks := priceHop_picks hnewly
      have hno := not_overflows_of_priceHop hnewly
      simp only [hnewly, Outcome.orPanic_some] at hret
      split_ifs at hret with hnil
      · -- the hop finds nothing, and no later hop would
        obtain rfl : (⟨w, false⟩ : Tx World) = t := congrArg (·.2) hret
        subst hnil
        have hclosed : ∀ m, hop ≤ m → Routes D reserves xlmUsd m priced := fun m hm =>
          h.closed hperm hpicks hno hm
        refine ⟨[], by simp [addPrices], routedLayers_nil, Nat.zero_le _,
          by simpa using hclosed _ (Nat.le_add_right _ _), fun m hm _ a price hr r hrs => ?_⟩
        exact hno r hrs _ ((hclosed (hop + (left + 1)) (Nat.le_add_right _ _)).mem hr hm.le)
      · have hperm' := env.order.newly_perm hop newly
        rw [Proc.bind_apply] at hret
        rcases hins : insertPrices env now hop 0 (env.order.newly hop newly) priced ⟨w, false⟩ with
          ⟨o, t₁⟩
        rw [hins] at hret
        cases o with
        | ret priced₁ =>
          obtain ⟨rfl, rfl⟩ := hpicks.recorded hperm' hins
          obtain ⟨layers, ht, hlayers, hlen, hroutes, hover⟩ :=
            ih (h.next hperm hpicks hno hperm') hret
          refine ⟨(env.order.newly hop newly).map (priceRow now hop) :: layers, ?_,
            hlayers.cons fun e he => h.routed hperm hpicks hno (hperm'.mem_iff.1 he),
            by simpa using hlen, ?_, ?_⟩
          · rw [ht, addPrices_append]
            rfl
          · rw [Nat.add_assoc, Nat.add_comm 1 left] at hroutes
            simpa [Newly.prices, priceRow, AssetPriceRow.entry, AssetPriceRow.asset,
              Function.comp_def] using hroutes
          · intro m hm _ a price hr r hrs
            by_cases hlast : m ≤ hop
            · exact hno r hrs _ (h.mem hr hlast)
            · exact hover m (by omega) (by omega) a price hr r hrs
        | err e => simp at hret
        | stop => simp at hret
        | panic => simp at hret

/-- **A hop that panics** has met a pool that overflows at the price of a route. -/
theorem ingestHops_panic {t : Tx World} (h : Routes D reserves xlmUsd hop priced)
    (hpanic : ingestHops D env now reserves left hop priced ⟨w, false⟩ = (.panic, t)) :
    ∃ m < hop + left, ∃ a price, Routed D reserves xlmUsd m a price ∧
      ∃ r ∈ reserves, Overflows D r (a, price) := by
  induction left generalizing hop priced w with
  | zero => exact absurd (congrArg Prod.fst hpanic) (by simp [ingestHops])
  | succ left ih =>
    have hperm := env.order.priced_perm hop priced
    rw [ingestHops_succ, Proc.bind_apply, Proc.lift_apply] at hpanic
    cases hnewly : priceHop D (env.order.priced hop) reserves priced with
    | none =>
      obtain ⟨d, hd, hover⟩ := priceHop_eq_none_iff.1 hnewly
      obtain ⟨hr, hk⟩ := mem_hopPairs.1 hd
      obtain ⟨m, hm, hrouted⟩ := h.price d.2 (hperm.mem_iff.1 hk)
      exact ⟨m, by omega, d.2.1, d.2.2, hrouted, d.1, hr, hover⟩
    | some newly =>
      have hpicks := priceHop_picks hnewly
      have hno := not_overflows_of_priceHop hnewly
      simp only [hnewly, Outcome.orPanic_some] at hpanic
      split_ifs at hpanic with hnil
      · simp at hpanic
      · have hperm' := env.order.newly_perm hop newly
        rw [Proc.bind_apply] at hpanic
        rcases hins : insertPrices env now hop 0 (env.order.newly hop newly) priced ⟨w, false⟩ with
          ⟨o, t₁⟩
        rw [hins] at hpanic
        cases o with
        | ret priced₁ =>
          obtain ⟨rfl, rfl⟩ := hpicks.recorded hperm' hins
          obtain ⟨m, hm, hfound⟩ := ih (h.next hperm hpicks hno hperm') hpanic
          exact ⟨m, by omega, hfound⟩
        | err e => simp at hpanic
        | stop => simp at hpanic
        | panic => exact absurd (congrArg Prod.fst hins) insertPrices_ne_panic

/-- Where every insertion goes through, the hops do so too or panic. -/
theorem ingestHops_ok (hok : ∀ hop i, env.insert hop i = .ok) (left hop : ℕ) (priced : Priced)
    (w : World) : ∃ t, ingestHops D env now reserves left hop priced ⟨w, false⟩ = (.ret (), t) ∨
      ingestHops D env now reserves left hop priced ⟨w, false⟩ = (.panic, t) := by
  induction left generalizing hop priced w with
  | zero => exact ⟨_, .inl rfl⟩
  | succ left ih =>
    rw [ingestHops_succ, Proc.bind_apply, Proc.lift_apply]
    cases priceHop D (env.order.priced hop) reserves priced with
    | none => exact ⟨_, .inr rfl⟩
    | some newly =>
      simp only [Outcome.orPanic_some]
      split_ifs
      · exact ⟨_, .inl rfl⟩
      · obtain ⟨priced', w', hins⟩ := insertPrices_ok now (hok hop) (env.order.newly hop newly) 0
          priced w
        rw [Proc.bind_apply, hins]
        exact ih _ _ _

theorem ingestPrices_eq (D : RustDecimal) (env : PricesEnv) (now : Time)
    (pools : List LiquidityPool) (w : World) : ingestPrices D env now pools ⟨w, false⟩ =
      match fetchXlmUsd D env with
      | .ret xlmUsd =>
        match env.insertXlm with
        | .ok => ingestHops D env now (pools.filterMap (poolLegs D)) maxPriceHops 0
            [(native, xlmUsd)] ⟨addPrices [xlmRow now xlmUsd] w, false⟩
        | .fail => (.err .db, ⟨w, true⟩)
        | .stop => (.stop, ⟨w, false⟩)
      | .err e => (.err e, ⟨w, false⟩)
      | .stop => (.stop, ⟨w, false⟩)
      | .panic => (.panic, ⟨w, false⟩) := by
  rw [ingestPrices, Proc.bind_apply, Proc.lift_apply]
  cases fetchXlmUsd D env with
  | ret xlmUsd =>
    simp only [Proc.bind_apply, Tx.exec, Tx.execReturning]
    cases env.insertXlm <;> rfl
  | err e => rfl
  | stop => rfl
  | panic => rfl

/-- **A run that goes through** records XLM and layer after layer. -/
theorem ingestPrices_ret {pools : List LiquidityPool} {t : Tx World}
    (hret : ingestPrices D env now pools ⟨w, false⟩ = (.ret (), t)) :
    ∃ xlmUsd layers, fetchXlmUsd D env = .ret xlmUsd ∧
      t = ⟨addPrices (xlmRow now xlmUsd :: layers.flatten) w, false⟩ ∧
      RoutedLayers D (pools.filterMap (poolLegs D)) xlmUsd now 0 layers ∧
      layers.length ≤ maxPriceHops ∧
      Routes D (pools.filterMap (poolLegs D)) xlmUsd maxPriceHops
        ((native, xlmUsd) :: layers.flatten.map (·.entry)) := by
  rw [ingestPrices_eq] at hret
  cases hx : fetchXlmUsd D env with
  | ret xlmUsd =>
    rw [hx] at hret
    cases hi : env.insertXlm with
    | ok =>
      rw [hi] at hret
      obtain ⟨layers, rfl, hlayers, hlen, hroutes, -⟩ := ingestHops_ret (routes_xlm _ _ xlmUsd) hret
      rw [Nat.zero_add] at hroutes
      refine ⟨xlmUsd, layers, rfl, ?_, hlayers, hlen, hroutes⟩
      rw [addPrices_append]
      rfl
    | fail => simp [hi] at hret
    | stop => simp [hi] at hret
  | err e => simp [hx] at hret
  | stop => simp [hx] at hret
  | panic => simp [hx] at hret

end Lumina
