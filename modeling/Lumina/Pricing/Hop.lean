import Lumina.Fold.Best
import Lumina.Graph.Walk
import Lumina.Model.Pricing

/-!
# One hop of the price discovery

A pool is an edge of a graph over the assets, in each direction whose far leg has a reserve
(`PoolStep`).  A hop finds each asset that is not priced yet and that an edge reaches from a priced
one, once, with the price that the first of the pools with the greatest reserve of the priced leg
derives (`priceHop_picks`); it panics exactly where a pool does for a priced asset
(`priceHop_eq_none_iff`), and so never with exact arithmetic (`not_overflows_exact`).

## Main definitions

* `Leg`, `PoolStep` : the edges, with the ratio of their reserves.
* `Derives` : the price that a pool derives from one of a leg.
* `HopPicks` : what a hop has found after some pairs of a pool and a priced asset.
-/

namespace Lumina

variable {D : RustDecimal} {fromStr : String → Option Decimal} {reserves : List PoolLegs}
  {r : PoolLegs} {priced : Priced} {newly newly' : Newly} {known : AssetId × Decimal}
  {asset a a' b b' : AssetId} {price price' weight weight' ratio ratio' : Decimal}

/-- One pool leads from the asset `a` to the other one, `b`, which has a reserve: one unit of `b`
is worth `ratio` units of `a`. -/
def Leg (r : PoolLegs) (a b : AssetId) (ratio : Decimal) : Prop :=
  a ≠ b ∧
    (parsePoolAsset r.assetA = a ∧ parsePoolAsset r.assetB = b ∧ r.reserveB ≠ 0 ∧
        ratio = r.reserveA / r.reserveB ∨
      parsePoolAsset r.assetB = a ∧ parsePoolAsset r.assetA = b ∧ r.reserveA ≠ 0 ∧
        ratio = r.reserveB / r.reserveA)

/-- Some pool leads from `a` to `b`. -/
def PoolStep (reserves : List PoolLegs) (a b : AssetId) (ratio : Decimal) : Prop :=
  ∃ r ∈ reserves, Leg r a b ratio

/-- The reserve of one leg, in units of its asset. -/
def knownReserve (r : PoolLegs) (a : AssetId) : Decimal :=
  if parsePoolAsset r.assetA = a then r.reserveA else r.reserveB

/-- A pool leads from an asset to one other. -/
theorem Leg.unique (h : Leg r a b ratio) (h' : Leg r a b' ratio') : b' = b ∧ ratio' = ratio := by
  obtain ⟨hne, ⟨ha, hb, -, rfl⟩ | ⟨ha, hb, -, rfl⟩⟩ := h <;>
    obtain ⟨hne', ⟨ha', hb', -, rfl⟩ | ⟨ha', hb', -, rfl⟩⟩ := h'
  · exact ⟨hb'.symm.trans hb, rfl⟩
  · exact absurd (ha'.symm.trans hb) hne
  · exact absurd (ha.symm.trans hb') hne'
  · exact ⟨hb'.symm.trans hb, rfl⟩

/-- It leads to an asset from one other. -/
theorem Leg.source_unique (h : Leg r a b ratio) (h' : Leg r a' b ratio') : a' = a := by
  obtain ⟨hne, ⟨ha, hb, -⟩ | ⟨ha, hb, -⟩⟩ := h <;>
    obtain ⟨hne', ⟨ha', hb', -⟩ | ⟨ha', hb', -⟩⟩ := h'
  · exact ha'.symm.trans ha
  · exact absurd (ha.symm.trans hb') hne
  · exact absurd (ha.symm.trans hb') hne
  · exact ha'.symm.trans ha

variable (D) in
/-- **One pool.**  It prices the other leg of a known one where it leads there, at the ratio of
the reserves times the known price, unless one of the two operations panics. -/
theorem priceFromKnownLeg_cases (r : PoolLegs) (known : AssetId × Decimal) :
    (priceFromKnownLeg D r.assetA r.reserveA r.assetB r.reserveB known.1 known.2 = some none ∧
        ∀ b ratio, ¬ Leg r known.1 b ratio) ∨
      ∃ b ratio, Leg r known.1 b ratio ∧
        priceFromKnownLeg D r.assetA r.reserveA r.assetB r.reserveB known.1 known.2 =
          (D.round ratio).bind fun ratio => (D.round (ratio * known.2)).bind fun price =>
            some (some (b, price, knownReserve r known.1)) := by
  unfold priceFromKnownLeg Leg
  by_cases hab : parsePoolAsset r.assetA = parsePoolAsset r.assetB
  · refine .inl ⟨by simp [hab], ?_⟩
    rintro b ratio ⟨hne, ⟨ha, hb, -⟩ | ⟨hb, ha, -⟩⟩
    · exact hne (ha.symm.trans (hab.trans hb))
    · exact hne (hb.symm.trans (hab.symm.trans ha))
  · by_cases ha : parsePoolAsset r.assetA = known.1
    · -- the first leg is the known one
      have hb : parsePoolAsset r.assetB ≠ known.1 := fun hb => hab (ha.trans hb.symm)
      by_cases hz : r.reserveB = 0
      · refine .inl ⟨by simp only [if_neg hab, if_pos ha, if_pos hz], ?_⟩
        rintro b ratio ⟨-, ⟨-, -, hne, -⟩ | ⟨hb', -⟩⟩
        · exact hne hz
        · exact hb hb'
      · refine .inr ⟨_, _, ⟨Ne.symm hb, .inl ⟨ha, rfl, hz, rfl⟩⟩, ?_⟩
        simp only [if_neg hab, if_pos ha, if_neg hz, RustDecimal.div, knownReserve]
        rfl
    · by_cases hb : parsePoolAsset r.assetB = known.1
      -- the second leg is the known one
      · by_cases hz : r.reserveA = 0
        · refine .inl ⟨by simp only [if_neg hab, if_neg ha, if_pos hb, if_pos hz], ?_⟩
          rintro b ratio ⟨-, ⟨ha', -⟩ | ⟨-, -, hne, -⟩⟩
          · exact ha ha'
          · exact hne hz
        · refine .inr ⟨_, _, ⟨Ne.symm ha, .inr ⟨hb, rfl, hz, rfl⟩⟩, ?_⟩
          simp only [if_neg hab, if_neg ha, if_pos hb, if_neg hz, RustDecimal.div, knownReserve]
          rfl
      · refine .inl ⟨by simp only [if_neg hab, if_neg ha, if_neg hb], ?_⟩
        rintro b ratio ⟨-, ⟨ha', -⟩ | ⟨hb', -⟩⟩
        · exact ha ha'
        · exact hb hb'

/-- The price and the weight that a pool derives for `b` from the price of another asset. -/
def Derives (D : RustDecimal) (r : PoolLegs) (known : AssetId × Decimal) (b : AssetId)
    (price weight : Decimal) : Prop :=
  priceFromKnownLeg D r.assetA r.reserveA r.assetB r.reserveB known.1 known.2 =
    some (some (b, price, weight))

/-- An operation of the pool panics. -/
def Overflows (D : RustDecimal) (r : PoolLegs) (known : AssetId × Decimal) : Prop :=
  priceFromKnownLeg D r.assetA r.reserveA r.assetB r.reserveB known.1 known.2 = none

theorem derives_iff : Derives D r known b price weight ↔ ∃ ratio ratio',
    Leg r known.1 b ratio ∧ D.round ratio = some ratio' ∧ D.round (ratio' * known.2) = some price ∧
      weight = knownReserve r known.1 := by
  unfold Derives
  rcases priceFromKnownLeg_cases D r known with ⟨heq, hno⟩ | ⟨b', ratio, hleg, heq⟩
  · rw [heq]
    exact iff_of_false (by simp) fun ⟨ratio, ratio', hleg, _⟩ => hno b ratio hleg
  · rw [heq]
    simp only [Option.bind_eq_some_iff, Option.some.injEq, Prod.mk.injEq]
    constructor
    · rintro ⟨ratio', hratio, price', hprice, rfl, rfl, rfl⟩
      exact ⟨ratio, ratio', hleg, hratio, hprice, rfl⟩
    · rintro ⟨ratio₁, ratio', hleg₁, hratio, hprice, rfl⟩
      obtain ⟨rfl, rfl⟩ := hleg.unique hleg₁
      exact ⟨ratio', hratio, price, hprice, rfl, rfl, rfl⟩

theorem overflows_iff : Overflows D r known ↔ ∃ b ratio, Leg r known.1 b ratio ∧
    ∀ ratio', D.round ratio = some ratio' → D.round (ratio' * known.2) = none := by
  unfold Overflows
  rcases priceFromKnownLeg_cases D r known with ⟨heq, hno⟩ | ⟨b, ratio, hleg, heq⟩
  · rw [heq]
    exact iff_of_false (by simp) fun ⟨b, ratio, hleg, _⟩ => hno b ratio hleg
  · rw [heq]
    simp only [Option.bind_eq_none_iff, reduceCtorEq, imp_false]
    have hnone : ∀ q, (∀ price, ¬ D.round q = some price) ↔ D.round q = none := fun q =>
      Option.eq_none_iff_forall_ne_some.symm
    constructor
    · exact fun h => ⟨b, ratio, hleg, fun ratio' hratio => (hnone _).1 (h ratio' hratio)⟩
    · rintro ⟨b₁, ratio₁, hleg₁, h⟩ ratio' hratio
      obtain ⟨-, rfl⟩ := hleg.unique hleg₁
      exact (hnone _).2 (h ratio' hratio)

/-! ### The maps -/

/-- The asset has a price. -/
def Priced.Has (priced : Priced) (asset : AssetId) : Prop := ∃ price, (asset, price) ∈ priced

theorem Priced.containsKey_iff : priced.containsKey asset = true ↔ priced.Has asset := by
  simp only [Priced.containsKey, List.any_eq_true, decide_eq_true_eq, Priced.Has]
  constructor
  · rintro ⟨⟨a, price⟩, h, rfl⟩
    exact ⟨price, h⟩
  · rintro ⟨price, h⟩
    exact ⟨_, h, rfl⟩

/-- The assets of the candidates. -/
def Newly.assets (newly : Newly) : List AssetId := newly.map (·.1)

/-- An offer adds its asset, if it is not there. -/
theorem Newly.mem_assets_offer :
    a ∈ (newly.offer asset weight price).assets ↔ a ∈ newly.assets ∨ a = asset := by
  induction newly with
  | nil => simp [Newly.offer, Newly.assets]
  | cons e newly ih =>
    obtain ⟨b, bestWeight, bestPrice⟩ := e
    unfold Newly.offer
    -- an asset that is there keeps its place, with the heavier candidate
    split_ifs with hb hw
    · simp only [Newly.assets, List.map_cons, List.mem_cons]
      grind
    · simp only [Newly.assets, List.map_cons, List.mem_cons]
      grind
    · simp only [Newly.assets, List.map_cons, List.mem_cons] at ih ⊢
      rw [ih, or_assoc]

theorem Newly.nodup_assets_offer (h : newly.assets.Nodup) :
    (newly.offer asset weight price).assets.Nodup := by
  induction newly with
  | nil => simp [Newly.offer, Newly.assets]
  | cons e newly ih =>
    obtain ⟨b, bestWeight, bestPrice⟩ := e
    have hcons : b ∉ Newly.assets newly ∧ (Newly.assets newly).Nodup := List.nodup_cons.1 h
    unfold Newly.offer
    split_ifs with hb hw
    · exact List.nodup_cons.2 hcons
    · exact List.nodup_cons.2 hcons
    · refine List.nodup_cons.2 ⟨fun hmem => ?_, ih hcons.2⟩
      rcases Newly.mem_assets_offer.1 hmem with hmem | rfl
      · exact hcons.1 hmem
      · exact hb rfl

/-- A candidate after an offer: another asset's, the one offered, which is heavier than what was
there, or one that is no lighter than it. -/
theorem Newly.mem_offer (honce : newly.assets.Nodup) {e : AssetId × Decimal × Decimal}
    (h : e ∈ newly.offer asset weight price) :
    e ∈ newly ∧ e.1 ≠ asset ∨ e ∈ newly ∧ e.1 = asset ∧ weight ≤ e.2.1 ∨
      e = (asset, weight, price) ∧ ∀ e' ∈ newly, e'.1 = asset → e'.2.1 < weight := by
  induction newly with
  | nil => exact .inr (.inr ⟨by simpa [Newly.offer] using h, by simp⟩)
  | cons e' newly ih =>
    obtain ⟨b, bestWeight, bestPrice⟩ := e'
    have hcons : b ∉ Newly.assets newly ∧ (Newly.assets newly).Nodup := List.nodup_cons.1 honce
    have hne : ∀ e ∈ newly, e.1 ≠ b := fun e he heq => hcons.1 (heq ▸ List.mem_map_of_mem he)
    unfold Newly.offer at h
    split_ifs at h with hb hw
    · -- the heavier candidate takes the place of the one that was there
      subst hb
      rcases List.mem_cons.1 h with rfl | h
      · refine .inr (.inr ⟨rfl, List.forall_mem_cons.2 ⟨fun _ => hw, ?_⟩⟩)
        exact fun e he heq => absurd heq (hne e he)
      · exact .inl ⟨List.mem_cons_of_mem _ h, hne e h⟩
    · subst hb
      rcases List.mem_cons.1 h with rfl | h
      · exact .inr (.inl ⟨List.mem_cons_self, rfl, not_lt.1 hw⟩)
      · exact .inl ⟨List.mem_cons_of_mem _ h, hne e h⟩
    · rcases List.mem_cons.1 h with rfl | h
      · exact .inl ⟨List.mem_cons_self, hb⟩
      · rcases ih hcons.2 h with ⟨h, hne⟩ | ⟨h, heq, hle⟩ | ⟨rfl, hlt⟩
        · exact .inl ⟨List.mem_cons_of_mem _ h, hne⟩
        · exact .inr (.inl ⟨List.mem_cons_of_mem _ h, heq, hle⟩)
        · exact .inr (.inr ⟨rfl, List.forall_mem_cons.2 ⟨fun heq => absurd heq hb, hlt⟩⟩)

/-! ### The fold -/

/-- A candidate for the price of `b`: a pool and a known price from which it derives one, with the
reserve of the known leg as its weight. -/
def Candidate (D : RustDecimal) (b : AssetId) (d : PoolLegs × (AssetId × Decimal))
    (weight : Decimal) : Prop :=
  ∃ price, Derives D d.1 d.2 b price weight

/-- What a hop has found after the pairs `done`: the assets that are not priced and that one of
the pairs derives a price for, each once, at the price of the first pair of the greatest weight. -/
structure HopPicks (D : RustDecimal) (priced : Priced)
    (done : List (PoolLegs × (AssetId × Decimal))) (newly : Newly) : Prop where
  once : newly.assets.Nodup
  picks : ∀ e ∈ newly, ¬ priced.Has e.1 ∧ ∃ d, FirstBest done (Candidate D e.1) d e.2.1 ∧
    Derives D d.1 d.2 e.1 e.2.2 e.2.1
  complete : ∀ d ∈ done, ∀ b weight, Candidate D b d weight → ¬ priced.Has b → b ∈ newly.assets

theorem hopPicks_nil : HopPicks D priced [] [] := ⟨List.nodup_nil, by simp, by simp⟩

theorem Candidate.unique {d : PoolLegs × (AssetId × Decimal)} (h : Candidate D b d weight)
    (h' : Candidate D b' d weight') : b' = b ∧ weight' = weight := by
  obtain ⟨price, h⟩ := h
  obtain ⟨price', h'⟩ := h'
  have heq := Option.some.inj (Option.some.inj (h.symm.trans h'))
  exact ⟨congrArg (·.1) heq.symm, congrArg (·.2.2) heq.symm⟩

variable {done : List (PoolLegs × (AssetId × Decimal))}

/-- One more pair that is no candidate for an asset without a price. -/
theorem HopPicks.skip (h : HopPicks D priced done newly)
    (hno : ∀ b weight, Candidate D b (r, known) weight → priced.Has b) :
    HopPicks D priced (done ++ [(r, known)]) newly where
  once := h.once
  picks e he := by
    obtain ⟨hnew, d, hbest, hd⟩ := h.picks e he
    exact ⟨hnew, d, hbest.snoc fun weight hc => absurd (hno e.1 weight hc) hnew, hd⟩
  complete d hd b weight hc hb := by
    rcases List.mem_append.1 hd with hd | hd
    · exact h.complete d hd b weight hc hb
    · obtain rfl := List.mem_singleton.1 hd
      exact absurd (hno b weight hc) hb

/-- One more pair that is a candidate for an asset without a price. -/
theorem HopPicks.offer (h : HopPicks D priced done newly) (hb : ¬ priced.Has b)
    (hd : Derives D r known b price weight) :
    HopPicks D priced (done ++ [(r, known)]) (newly.offer b weight price) where
  once := Newly.nodup_assets_offer h.once
  picks e he := by
    have hc : Candidate D b (r, known) weight := ⟨price, hd⟩
    rcases Newly.mem_offer h.once he with ⟨hold, hne⟩ | ⟨hold, rfl, hle⟩ | ⟨rfl, hlt⟩
    · obtain ⟨hnew, d, hbest, hpick⟩ := h.picks e hold
      exact ⟨hnew, d, hbest.snoc fun weight' hc' => absurd (hc.unique hc').1 hne, hpick⟩
    · obtain ⟨hnew, d, hbest, hpick⟩ := h.picks e hold
      exact ⟨hnew, d, hbest.snoc fun weight' hc' => (hc.unique hc').2 ▸ hle, hpick⟩
    · refine ⟨hb, (r, known), .snoc_new hc fun d hdone weight' hc' => ?_, hd⟩
      -- what was best before is lighter, and so is everything else
      obtain ⟨e', he', rfl⟩ := List.mem_map.1 (h.complete d hdone b weight' hc' hb)
      obtain ⟨-, d', hbest, -⟩ := h.picks e' he'
      exact (hbest.le (fun _ hc => (hbest.candidate.unique hc).2) hdone hc').trans_lt
        (hlt e' he' rfl)
  complete d hd' b' weight' hc' hb' := by
    rw [Newly.mem_assets_offer]
    rcases List.mem_append.1 hd' with hd' | hd'
    · exact .inl (h.complete d hd' b' weight' hc' hb')
    · obtain rfl := List.mem_singleton.1 hd'
      exact .inr (Candidate.unique ⟨price, hd⟩ hc').1

/-- **One pool and one priced asset.** -/
theorem offerFrom_picks (h : HopPicks D priced done newly)
    (ho : offerFrom D priced r newly known = some newly') :
    HopPicks D priced (done ++ [(r, known)]) newly' := by
  obtain ⟨o, heq, ho⟩ := Option.bind_eq_some_iff.1 ho
  cases o with
  | none =>
    obtain rfl := Option.some.inj ho
    refine h.skip fun b weight hc => ?_
    obtain ⟨price, hd⟩ := hc
    rw [Derives, heq] at hd
    cases hd
  | some o =>
    obtain ⟨b, price, weight⟩ := o
    simp only at ho
    split_ifs at ho with hkey
    · obtain rfl := Option.some.inj ho
      refine h.skip fun b' weight' hc' => ?_
      have hc : Candidate D b (r, known) weight := ⟨price, heq⟩
      rw [(hc.unique hc').1]
      exact Priced.containsKey_iff.1 hkey
    · obtain rfl := Option.some.inj ho
      exact h.offer (mt Priced.containsKey_iff.2 hkey) heq

/-- It panics where the pool does. -/
theorem offerFrom_eq_none_iff : offerFrom D priced r newly known = none ↔ Overflows D r known := by
  unfold offerFrom Overflows
  cases heq : priceFromKnownLeg D r.assetA r.reserveA r.assetB r.reserveB known.1 known.2 with
  | none => simp
  | some o =>
    refine iff_of_false ?_ (by simp)
    cases o with
    | none => simp
    | some o =>
      simp only [Option.bind_eq_bind, Option.bind_some]
      split_ifs <;> simp

/-- Some pairs, one after the other. -/
theorem offersFrom_picks {todo : List (PoolLegs × (AssetId × Decimal))}
    (h : HopPicks D priced done newly)
    (ho : todo.foldlM (fun newly d => offerFrom D priced d.1 newly d.2) newly = some newly') :
    HopPicks D priced (done ++ todo) newly' := by
  induction todo generalizing done newly with
  | nil =>
    obtain rfl := Option.some.inj ho
    simpa using h
  | cons d todo ih =>
    obtain ⟨newly₁, h₁, h₂⟩ := Option.bind_eq_some_iff.1 ho
    simpa using ih (offerFrom_picks h h₁) h₂

theorem offersFrom_eq_none_iff {todo : List (PoolLegs × (AssetId × Decimal))} :
    todo.foldlM (fun newly d => offerFrom D priced d.1 newly d.2) newly = none ↔
      ∃ d ∈ todo, Overflows D d.1 d.2 := by
  induction todo generalizing newly with
  | nil => exact iff_of_false (by simp) (by simp)
  | cons d todo ih =>
    rw [List.foldlM_cons, List.exists_mem_cons_iff, ← offerFrom_eq_none_iff]
    cases hd : offerFrom D priced d.1 newly d.2 with
    | none => simp
    | some newly => simp [ih]

/-- The pairs that a hop looks at. -/
def hopPairs (reserves : List PoolLegs) (l : List (AssetId × Decimal)) :
    List (PoolLegs × (AssetId × Decimal)) :=
  reserves.flatMap fun r => l.map (r, ·)

/-- A hop is one loop over its pairs. -/
theorem priceHop_eq (D : RustDecimal) (order : Priced → Priced) (reserves : List PoolLegs)
    (priced : Priced) : priceHop D order reserves priced =
      (hopPairs reserves (order priced)).foldlM (fun newly d => offerFrom D priced d.1 newly d.2)
        [] := by
  have hfold : ∀ newly, reserves.foldlM (fun newly r =>
      (order priced).foldlM (offerFrom D priced r) newly) newly =
        (hopPairs reserves (order priced)).foldlM
          (fun newly d => offerFrom D priced d.1 newly d.2) newly := by
    induction reserves with
    | nil => exact fun _ => rfl
    | cons r reserves ih =>
      intro newly
      rw [hopPairs, List.flatMap_cons, List.foldlM_append, List.foldlM_map, List.foldlM_cons]
      exact congrArg (_ >>= ·) (funext ih)
  exact hfold []

/-- **One hop** picks the price of each asset that it finds, in whatever order the map is
iterated. -/
theorem priceHop_picks {order : Priced → Priced}
    (h : priceHop D order reserves priced = some newly) :
    HopPicks D priced (hopPairs reserves (order priced)) newly := by
  rw [priceHop_eq] at h
  simpa using offersFrom_picks hopPicks_nil h

/-- **A hop panics** exactly where a pool does for one of the known prices. -/
theorem priceHop_eq_none_iff {order : Priced → Priced} : priceHop D order reserves priced = none ↔
    ∃ d ∈ hopPairs reserves (order priced), Overflows D d.1 d.2 := by
  rw [priceHop_eq, offersFrom_eq_none_iff]

/-! ### Exact arithmetic -/

theorem not_overflows_exact : ¬ Overflows (.exact fromStr) r known := by
  rw [overflows_iff]
  rintro ⟨b, ratio, -, h⟩
  exact absurd (h ratio rfl) (by simp [RustDecimal.exact])

end Lumina
