import Lumina.Pricing.Overflow

/-!
# Positive prices

A pool derives a price from the reserves of both of its legs and checks one of them for zero, the
one that it divides by.  With nothing on the other side, or with so little that the ratio or its
product with the known price rounds to zero, it derives the price zero, which is recorded and used
in the next hop like any other.  Every price that any run writes is positive exactly if, along the
routes, the pools have a reserve of the known asset and nothing underflows (`prices_pos_iff`).

## Main definitions

* `WritesPositive` : every run writes positive prices only.
* `Underflows` : a number other than zero rounds to zero.
* `PositiveRoutes` : the pools of the routes derive positive prices.
-/

namespace Lumina

open Lumina.Graph Tx

/-- The prices that a run adds, whatever becomes of it. -/
def written (D : RustDecimal) (env : PricesEnv) (now : Time) (pools : List LiquidityPool)
    (w : World) : List AssetPriceRow :=
  (ingestPrices D env now pools ⟨w, false⟩).2.view.db.assetPrices.drop w.db.assetPrices.length

/-- Every price that a run with that answer of the feed writes is positive. -/
def WritesPositive (D : RustDecimal) (quote : String) (pools : List LiquidityPool) : Prop :=
  ∀ (env : PricesEnv) (now : Time) (w : World), env.quote = .ret quote →
    ∀ row ∈ written D env now pools w, 0 < row.priceUsd

/-- A number other than zero rounds to zero. -/
def Underflows (D : RustDecimal) (q : Decimal) : Prop := q ≠ 0 ∧ D.round q = some 0

/-- No pool overflows in the first `n` hops. -/
def GoesThrough (D : RustDecimal) (reserves : List PoolLegs) (xlmUsd : Decimal) (n : ℕ) : Prop :=
  ∀ m < n, ∀ a price, Routed D reserves xlmUsd m a price → ∀ r ∈ reserves,
    ¬ Overflows D r (a, price)

/-- In every hop that goes through, a pool that prices an asset has a reserve of the known asset,
and neither the ratio of its reserves nor the product with the known price underflows. -/
def PositiveRoutes (D : RustDecimal) (reserves : List PoolLegs) (xlmUsd : Decimal) : Prop :=
  ∀ n < maxPriceHops, GoesThrough D reserves xlmUsd (n + 1) → ∀ b, Hops reserves b (n + 1) →
    ∀ r weight, FirstBest reserves (Links reserves n b) r weight →
      ∀ a price ratio, Routed D reserves xlmUsd n a price → Leg r a b ratio →
        0 < weight ∧ ¬ Underflows D ratio ∧
          ∀ ratio', D.round ratio = some ratio' → ¬ Underflows D (ratio' * price)

variable {D : RustDecimal} {env : PricesEnv} {now : Time} {pools : List LiquidityPool}
  {reserves : List PoolLegs} {r : PoolLegs} {priced : Priced} {newly : Newly} {a b : AssetId}
  {q d ratio ratio' price price' xlmUsd : Decimal} {w : World} {quote : String}
  {n m hop left : ℕ}

/-! ### One pool -/

/-- Rounding keeps a number positive unless it underflows. -/
theorem round_pos_iff (hD : D.RoundsToNearest) (hq : 0 ≤ q) (h : D.round q = some d) :
    0 < d ↔ 0 < q ∧ ¬ Underflows D q := by
  have hd : 0 ≤ d := (hD.nearest q d h).le_of_ge isDecimal_zero hq
  constructor
  · intro hpos
    have hne : q ≠ 0 := by
      rintro rfl
      exact hpos.ne (Option.some.inj ((hD.round_eq isDecimal_zero).symm.trans h))
    refine ⟨lt_of_le_of_ne hq hne.symm, fun hunder => ?_⟩
    exact hpos.ne (Option.some.inj (hunder.2.symm.trans h))
  · rintro ⟨hpos, hno⟩
    refine lt_of_le_of_ne hd fun hzero => hno ⟨hpos.ne', ?_⟩
    rw [h, ← hzero]

/-- The ratio of reserves that are not negative. -/
theorem Leg.ratio_pos_iff (hA : 0 ≤ r.reserveA) (hB : 0 ≤ r.reserveB) (h : Leg r a b ratio) :
    0 ≤ ratio ∧ (0 < ratio ↔ 0 < knownReserve r a) := by
  obtain ⟨hne, ⟨ha, hb, hz, rfl⟩ | ⟨ha, hb, hz, rfl⟩⟩ := h
  · have hpos : 0 < r.reserveB := lt_of_le_of_ne hB (Ne.symm hz)
    refine ⟨div_nonneg hA hB, ?_⟩
    rw [knownReserve, if_pos ha, div_pos_iff_of_pos_right hpos]
  · have hpos : 0 < r.reserveA := lt_of_le_of_ne hA (Ne.symm hz)
    refine ⟨div_nonneg hB hA, ?_⟩
    rw [knownReserve, if_neg fun ha' => hne (ha'.symm.trans hb), div_pos_iff_of_pos_right hpos]

/-- **One pool** derives a positive price from a positive one exactly if it has a reserve of the
known asset and nothing underflows. -/
theorem Leg.price_pos_iff (hD : D.RoundsToNearest) (hA : 0 ≤ r.reserveA) (hB : 0 ≤ r.reserveB)
    (h : Leg r a b ratio) (hratio : D.round ratio = some ratio') (hprice : 0 < price)
    (hround : D.round (ratio' * price) = some price') :
    0 < price' ↔ 0 < knownReserve r a ∧ ¬ Underflows D ratio ∧
      ¬ Underflows D (ratio' * price) := by
  obtain ⟨hnonneg, hpos⟩ := h.ratio_pos_iff hA hB
  have hratio' : 0 ≤ ratio' := (hD.nearest _ _ hratio).le_of_ge isDecimal_zero hnonneg
  rw [round_pos_iff hD (mul_nonneg hratio' hprice.le) hround, mul_pos_iff_of_pos_right hprice,
    round_pos_iff hD hnonneg hratio, hpos, and_assoc]

/-! ### What the hops write -/

theorem GoesThrough.mono (h : GoesThrough D reserves xlmUsd n) (hm : m ≤ n) :
    GoesThrough D reserves xlmUsd m := fun k hk => h k (hk.trans_le hm)

/-- The first hops go through where no pool overflows at a known price. -/
theorem Routes.goesThrough (h : Routes D reserves xlmUsd hop priced)
    (hno : ∀ r ∈ reserves, ∀ e ∈ priced, ¬ Overflows D r e) :
    GoesThrough D reserves xlmUsd (hop + 1) := fun _ hm _ _ hrouted r hr =>
  hno r hr _ (h.mem hrouted (Nat.lt_succ_iff.1 hm))

theorem Routes.not_overflows (h : Routes D reserves xlmUsd hop priced)
    (hthrough : GoesThrough D reserves xlmUsd (hop + 1)) :
    ∀ r ∈ reserves, ∀ e ∈ priced, ¬ Overflows D r e := by
  intro r hr e he
  obtain ⟨m, hm, hrouted⟩ := h.price e he
  exact hthrough m (Nat.lt_succ_of_le hm) e.1 e.2 hrouted r hr

/-- An asset further away than the priced ones is not among them. -/
theorem Routes.not_mem (h : Routes D reserves xlmUsd hop priced)
    (hrouted : Routed D reserves xlmUsd n b price) (hn : hop < n) : (b, price') ∉ priced := by
  intro hmem
  obtain ⟨m, hm, hrouted'⟩ := h.price _ hmem
  have := hrouted'.hops.unique hrouted.hops
  omega

theorem exists_addPrices_nil (w : World) (P : AssetPriceRow → Prop) :
    ∃ rows, w = addPrices rows w ∧ ∀ row ∈ rows, P row := ⟨[], by simp [addPrices], by simp⟩

variable (env now hop) in
/-- Whatever becomes of it, the loop that records the prices of a hop has recorded some. -/
theorem insertPrices_view (l : Newly) (i : ℕ) (priced : Priced) (w : World) :
    ∃ rows, (insertPrices env now hop i l priced ⟨w, false⟩).2.view = addPrices rows w ∧
      ∀ row ∈ rows, ∃ e ∈ l, row = priceRow now hop e := by
  induction l generalizing i priced w with
  | nil => exact ⟨[], by simp [insertPrices, addPrices], by simp⟩
  | cons e l ih =>
    rw [insertPrices_cons]
    cases env.insert hop i with
    | ok =>
      obtain ⟨rows, hview, hrows⟩ := ih (i + 1) (priced.insert e.1 e.2.2)
        (addPrices [priceRow now hop e] w)
      refine ⟨priceRow now hop e :: rows, hview.trans (addPrices_append _ _), fun row hrow => ?_⟩
      rcases List.mem_cons.1 hrow with rfl | hrow
      · exact ⟨e, List.mem_cons_self, rfl⟩
      · obtain ⟨e', he', rfl⟩ := hrows row hrow
        exact ⟨e', List.mem_cons_of_mem _ he', rfl⟩
    | fail => exact exists_addPrices_nil w _
    | stop => exact exists_addPrices_nil w _

variable (env now w left) in
/-- **What the hops have written**, whatever becomes of them: prices of routes, in hops that go
through. -/
theorem ingestHops_view (h : Routes D reserves xlmUsd hop priced) :
    ∃ rows, (ingestHops D env now reserves left hop priced ⟨w, false⟩).2.view = addPrices rows w ∧
      ∀ row ∈ rows, ∃ n < hop + left, GoesThrough D reserves xlmUsd (n + 1) ∧
        Routed D reserves xlmUsd (n + 1) row.asset row.priceUsd := by
  induction left generalizing hop priced w with
  | zero => exact exists_addPrices_nil w _
  | succ left ih =>
    have hperm := env.order.priced_perm hop priced
    rw [ingestHops_succ, Proc.bind_apply, Proc.lift_apply]
    cases hnewly : priceHop D (env.order.priced hop) reserves priced with
    | none => exact exists_addPrices_nil w _
    | some newly =>
      have hpicks := priceHop_picks hnewly
      have hno := not_overflows_of_priceHop hnewly
      simp only [Outcome.orPanic_some]
      split_ifs with hnil
      · exact exists_addPrices_nil w _
      · have hperm' := env.order.newly_perm hop newly
        have hrow : ∀ e ∈ env.order.newly hop newly, ∃ n < hop + (left + 1),
            GoesThrough D reserves xlmUsd (n + 1) ∧ Routed D reserves xlmUsd (n + 1)
              (priceRow now hop e).asset (priceRow now hop e).priceUsd := fun e he =>
          ⟨hop, by omega, h.goesThrough hno, h.routed hperm hpicks hno (hperm'.mem_iff.1 he)⟩
        rw [Proc.bind_apply]
        obtain ⟨rows, hview, hrows⟩ := insertPrices_view env now hop (env.order.newly hop newly) 0
          priced w
        rcases hins : insertPrices env now hop 0 (env.order.newly hop newly) priced ⟨w, false⟩ with
          ⟨o, t⟩
        rw [hins] at hview
        have hpartial : ∃ rows, t.view = addPrices rows w ∧ ∀ row ∈ rows,
            ∃ n < hop + (left + 1), GoesThrough D reserves xlmUsd (n + 1) ∧
              Routed D reserves xlmUsd (n + 1) row.asset row.priceUsd := by
          refine ⟨rows, hview, fun row hmem => ?_⟩
          obtain ⟨e, he, rfl⟩ := hrows row hmem
          exact hrow e he
        cases o with
        | ret priced₁ =>
          obtain ⟨rfl, rfl⟩ := hpicks.recorded hperm' hins
          obtain ⟨more, hview', hmore⟩ := ih _ (h.next hperm hpicks hno hperm')
          refine ⟨_, hview'.trans (addPrices_append _ _), fun row hmem => ?_⟩
          rcases List.mem_append.1 hmem with hmem | hmem
          · obtain ⟨e, he, rfl⟩ := List.mem_map.1 hmem
            exact hrow e he
          · obtain ⟨n, hn, hwritten⟩ := hmore row hmem
            exact ⟨n, by omega, hwritten⟩
        | err e => exact hpartial
        | stop => exact hpartial
        | panic => exact hpartial

variable (env now w left) in
/-- **Where every insertion goes through**, each price of a route is written, as far as the hops go
through. -/
theorem ingestHops_writes (hok : ∀ hop i, env.insert hop i = .ok)
    (h : Routes D reserves xlmUsd hop priced) (hthrough : GoesThrough D reserves xlmUsd (n + 1))
    (hn : hop ≤ n) (hleft : n < hop + left) (hrouted : Routed D reserves xlmUsd (n + 1) b price) :
    ∃ rows, (ingestHops D env now reserves left hop priced ⟨w, false⟩).2.view = addPrices rows w ∧
      ∃ row ∈ rows, row.priceUsd = price := by
  induction left generalizing hop priced w with
  | zero => omega
  | succ left ih =>
    have hperm := env.order.priced_perm hop priced
    have hno := h.not_overflows (hthrough.mono (by omega))
    rw [ingestHops_succ, Proc.bind_apply, Proc.lift_apply]
    cases hnewly : priceHop D (env.order.priced hop) reserves priced with
    | none =>
      obtain ⟨d, hd, hover⟩ := priceHop_eq_none_iff.1 hnewly
      obtain ⟨hr, hk⟩ := mem_hopPairs.1 hd
      exact absurd hover (hno d.1 hr d.2 (hperm.mem_iff.1 hk))
    | some newly =>
      have hpicks := priceHop_picks hnewly
      have hperm' := env.order.newly_perm hop newly
      simp only [Outcome.orPanic_some]
      split_ifs with hnil
      · -- the search has ended, so there is no asset that far away
        subst hnil
        have hclosed := h.closed (m := n + 1) hperm hpicks hno (by omega)
        exact absurd (hclosed.mem hrouted le_rfl) (h.not_mem hrouted (by omega))
      · obtain ⟨priced', w', hins⟩ := insertPrices_ok now (hok hop) (env.order.newly hop newly) 0
          priced w
        obtain ⟨rfl, ht⟩ := hpicks.recorded hperm' hins
        have hnext := h.next hperm hpicks hno hperm'
        rw [Proc.bind_apply, hins, ht]
        simp only
        by_cases hlast : n = hop
        · -- this hop writes it
          subst hlast
          obtain ⟨more, hview, -⟩ := ingestHops_view env now
            (addPrices ((env.order.newly n newly).map (priceRow now n)) w) left hnext
          refine ⟨_, hview.trans (addPrices_append _ _), ?_⟩
          rcases List.mem_append.1 (hnext.mem hrouted le_rfl) with hmem | hmem
          · exact absurd hmem (h.not_mem hrouted (by omega))
          · obtain ⟨e, he, heq⟩ := List.mem_map.1 hmem
            refine ⟨priceRow now n e, List.mem_append_left _ (List.mem_map_of_mem he), ?_⟩
            exact (Prod.mk.inj heq).2
        · obtain ⟨more, hview, row, hrow, hprice⟩ := ih _ hnext (by omega) (by omega)
          exact ⟨_, hview.trans (addPrices_append _ _), row, List.mem_append_right _ hrow, hprice⟩

/-! ### Runs -/

/-- What a run writes: nothing, or the price of XLM and prices of routes. -/
theorem mem_written (hquote : D.fromStr quote = some xlmUsd) (henv : env.quote = .ret quote)
    {row : AssetPriceRow} (hrow : row ∈ written D env now pools w) :
    row = xlmRow now xlmUsd ∨ ∃ n < maxPriceHops,
      GoesThrough D (pools.filterMap (poolLegs D)) xlmUsd (n + 1) ∧
        Routed D (pools.filterMap (poolLegs D)) xlmUsd (n + 1) row.asset row.priceUsd := by
  unfold written at hrow
  cases hinsert : env.insertXlm with
  | ok =>
    rw [ingestPrices_hops hquote henv hinsert] at hrow
    obtain ⟨rows, hview, hrows⟩ := ingestHops_view env now
      (addPrices [xlmRow now xlmUsd] w) maxPriceHops
      (routes_xlm D (pools.filterMap (poolLegs D)) xlmUsd)
    rw [hview, addPrices_append] at hrow
    rcases List.mem_cons.1 (by simpa [addPrices] using hrow) with rfl | hrow
    · exact .inl rfl
    · exact .inr (by simpa using hrows row hrow)
  | fail => simp [ingestPrices_eq, fetchXlmUsd, henv, hquote, hinsert] at hrow
  | stop => simp [ingestPrices_eq, fetchXlmUsd, henv, hquote, hinsert] at hrow

/-- A run without faults writes each price of a route, as far as the hops go through. -/
theorem exists_written (hquote : D.fromStr quote = some xlmUsd) (hn : n < maxPriceHops)
    (hthrough : GoesThrough D (pools.filterMap (poolLegs D)) xlmUsd (n + 1))
    (hrouted : Routed D (pools.filterMap (poolLegs D)) xlmUsd (n + 1) b price) :
    ∃ row ∈ written D ⟨.ret quote, .insertion, .ok, fun _ _ => .ok⟩ 0 pools World.empty,
      row.priceUsd = price := by
  let env : PricesEnv := ⟨.ret quote, .insertion, .ok, fun _ _ => .ok⟩
  obtain ⟨rows, hview, row, hrow, hprice⟩ := ingestHops_writes env 0
    (addPrices [xlmRow 0 xlmUsd] World.empty) maxPriceHops (fun _ _ => rfl)
    (routes_xlm D (pools.filterMap (poolLegs D)) xlmUsd) hthrough (Nat.zero_le n) (by omega)
    hrouted
  refine ⟨row, ?_, hprice⟩
  unfold written
  rw [ingestPrices_hops hquote rfl rfl, hview, addPrices_append]
  simp [addPrices, hrow]

/-- The weight of a pool is its reserve of the known asset. -/
theorem Links.weight_eq {weight : Decimal} (h : Links reserves n b r weight)
    (hleg : Leg r a b ratio) : weight = knownReserve r a := by
  obtain ⟨a', ratio', -, hleg', rfl⟩ := h
  rw [hleg.source_unique hleg']

/-- Along positive routes every price is positive. -/
theorem PositiveRoutes.pos (h : PositiveRoutes D reserves xlmUsd) (hD : D.RoundsToNearest)
    (hxlm : 0 < xlmUsd) (hreserves : ∀ r ∈ reserves, 0 ≤ r.reserveA ∧ 0 ≤ r.reserveB)
    (hrouted : Routed D reserves xlmUsd n a price) (hn : n ≤ maxPriceHops)
    (hthrough : GoesThrough D reserves xlmUsd n) : 0 < price := by
  induction hrouted with
  | xlm => exact hxlm
  | @hop n a b r weight ratio ratio' price price' hb hbest ha hleg hratio hprice ih =>
    have hpos := ih (by omega) (hthrough.mono (Nat.le_succ n))
    obtain ⟨hA, hB⟩ := hreserves r hbest.mem
    obtain ⟨hweight, hno, hno'⟩ := h n (by omega) hthrough b hb r weight hbest a price ratio ha hleg
    rw [hbest.candidate.weight_eq hleg] at hweight
    exact (hleg.price_pos_iff hD hA hB hratio hpos hprice).2 ⟨hweight, hno, hno' ratio' hratio⟩

/-- **Every price that any run writes is positive** exactly if the routes are. -/
theorem prices_pos_iff (hD : D.RoundsToNearest) (hquote : D.fromStr quote = some xlmUsd)
    (hxlm : 0 < xlmUsd)
    (hpools : ∀ lp ∈ pools, ∀ a ∈ lp.reserves, ∀ q, D.fromStr a.amount = some q → 0 ≤ q) :
    WritesPositive D quote pools ↔ PositiveRoutes D (pools.filterMap (poolLegs D)) xlmUsd := by
  constructor
  · intro hwrites n hn hthrough b hb r weight hbest a price ratio ha hleg
    have hpos : ∀ k < maxPriceHops, GoesThrough D (pools.filterMap (poolLegs D)) xlmUsd (k + 1) →
        ∀ c p, Routed D (pools.filterMap (poolLegs D)) xlmUsd (k + 1) c p → 0 < p := by
      intro k hk hk' c p hrouted
      obtain ⟨row, hrow, rfl⟩ := exists_written hquote hk hk' hrouted
      exact hwrites _ 0 World.empty rfl row hrow
    have hprice : 0 < price := by
      cases n with
      | zero =>
        cases ha
        exact hxlm
      | succ k => exact hpos k (by omega) (hthrough.mono (Nat.le_succ _)) a price ha
    have hno := hthrough n (Nat.lt_succ_self n) a price ha r hbest.mem
    obtain ⟨price', hderives⟩ := @Leg.derives D r b (a, price) ratio hleg hno
    obtain ⟨ratio₁, ratio', hleg₁, hratio, hround, -⟩ := derives_iff.1 hderives
    obtain ⟨-, rfl⟩ := hleg.unique hleg₁
    have hprice' := hpos n hn hthrough b price' (.hop hb hbest ha hleg hratio hround)
    obtain ⟨hA, hB⟩ := amounts_of_mem_legs hpools hbest.mem
    obtain ⟨hweight, hunder, hunder'⟩ :=
      (hleg.price_pos_iff hD hA hB hratio hprice hround).1 hprice'
    rw [hbest.candidate.weight_eq hleg]
    refine ⟨hweight, hunder, fun ratio₂ hratio₂ => ?_⟩
    obtain rfl := Option.some.inj (hratio.symm.trans hratio₂)
    exact hunder'
  · intro hroutes env now w henv row hrow
    rcases mem_written hquote henv hrow with rfl | ⟨n, hn, hthrough, hrouted⟩
    · exact hxlm
    · exact hroutes.pos hD hxlm (fun r hr => amounts_of_mem_legs hpools hr) hrouted hn hthrough

end Lumina

/-! ### A pool without XLM -/

namespace Lumina.Sample

/-- The amounts of the sample. -/
def drainedQuoted (text : String) : Option Decimal :=
  if text = "0.1" then some (1 / 10) else if text = "0.0000000" then some 0
  else if text = "100.0000000" then some 100
  else if text = "1000.0000000" then some 1000 else none

/-- A pool with some XLM and a hundred USDC. -/
def quotedPool (xlm : String) : List LiquidityPool :=
  [⟨"67260c4c1807b262ff851b0a3fe141194936bb0215b2f77447f1df11998eabb9", 30, "12", "1000.0000000",
    [⟨"native", xlm⟩,
      ⟨"USDC:GA5ZSEJYB37JRC5AVCIA5MOP4RHTM335X2KGX3IHOJAPP5RE34K4KZVN", "100.0000000"⟩]⟩]

/-- The pool without XLM. -/
def drainedPools : List LiquidityPool := quotedPool "0.0000000"

theorem nonneg_quotedPool (xlm : String) : ∀ lp ∈ quotedPool xlm, ∀ a ∈ lp.reserves, ∀ q,
    drainedQuoted a.amount = some q → 0 ≤ q := by
  intro lp hlp a ha q hq
  unfold drainedQuoted at hq
  split_ifs at hq <;> simp [← Option.some.inj hq]

theorem drained_written :
    (written (.rounding drainedQuoted) ⟨.ret "0.1", .insertion, .ok, fun _ _ => .ok⟩ 0 drainedPools
      World.empty).map (·.priceUsd) = [1 / 10, 0] := by
  decide +kernel

theorem not_writesPositive_drained :
    ¬ WritesPositive (.rounding drainedQuoted) "0.1" drainedPools := by
  intro hpos
  have hzero : (0 : Decimal) ∈ (written (.rounding drainedQuoted)
      ⟨.ret "0.1", .insertion, .ok, fun _ _ => .ok⟩ 0 drainedPools World.empty).map
        (·.priceUsd) := by
    rw [drained_written]
    simp
  obtain ⟨row, hrow, hrow'⟩ := List.mem_map.1 hzero
  exact (hpos _ 0 World.empty rfl row hrow).ne' hrow'

/-- **A pool without XLM prices USDC at zero.** -/
theorem drained_price : ¬ ∀ (D : RustDecimal) (quote : String) (xlmUsd : Decimal)
    (pools : List LiquidityPool), D.RoundsToNearest → D.fromStr quote = some xlmUsd →
      0 < xlmUsd →
      (∀ lp ∈ pools, ∀ a ∈ lp.reserves, ∀ q, D.fromStr a.amount = some q → 0 ≤ q) →
      WritesPositive D quote pools := fun hall =>
  not_writesPositive_drained (hall (.rounding drainedQuoted) "0.1" (1 / 10) drainedPools
    (RustDecimal.rounding_roundsToNearest _) (by decide +kernel) (by norm_num)
      (nonneg_quotedPool _))

/-- The pool with a thousand XLM. -/
def fundedLegs : PoolLegs :=
  ⟨"native", 1000, "USDC:GA5ZSEJYB37JRC5AVCIA5MOP4RHTM335X2KGX3IHOJAPP5RE34K4KZVN", 100⟩

theorem leg_fundedLegs {a b : AssetId} {ratio : Decimal} (h : Leg fundedLegs a b ratio) :
    a = native ∧ ratio = 10 ∨ b = native := by
  have hA : parsePoolAsset fundedLegs.assetA = native := by decide +kernel
  obtain ⟨-, ⟨ha, -, -, hratio⟩ | ⟨-, hb, -⟩⟩ := h
  · refine .inl ⟨ha.symm.trans hA, hratio.trans ?_⟩
    decide +kernel
  · exact .inr (hb.symm.trans hA)

theorem positiveRoutes_fundedLegs :
    PositiveRoutes (.rounding drainedQuoted) [fundedLegs] (1 / 10) := by
  intro n hn _ b hb r weight hbest a price ratio ha hleg
  obtain rfl := List.mem_singleton.1 hbest.mem
  rw [hbest.candidate.weight_eq hleg]
  rcases leg_fundedLegs hleg with ⟨rfl, rfl⟩ | rfl
  · cases ha with
    | xlm =>
      have hten : (RustDecimal.rounding drainedQuoted).round 10 = some 10 := by decide +kernel
      have hone : (RustDecimal.rounding drainedQuoted).round (10 * (1 / 10)) ≠ some 0 := by
        decide +kernel
      refine ⟨by decide +kernel, fun hunder => ?_, fun ratio' hratio hunder => ?_⟩
      · exact absurd (hten.symm.trans hunder.2) (by decide +kernel)
      · obtain rfl := Option.some.inj (hten.symm.trans hratio)
        exact hone hunder.2
    | hop hnative => exact absurd (hnative.unique Graph.distance_root) (Nat.succ_ne_zero _)
  · exact absurd (hb.unique Graph.distance_root) (Nat.succ_ne_zero _)

/-- The route of the pool without XLM is not positive; with a thousand XLM the pool has a positive
one, and every run writes positive prices. -/
theorem drained_not_positive : ¬ PositiveRoutes (.rounding drainedQuoted)
      (drainedPools.filterMap (poolLegs (.rounding drainedQuoted))) (1 / 10) ∧
    WritesPositive (.rounding drainedQuoted) "0.1" (quotedPool "1000.0000000") := by
  refine ⟨fun hroutes => ?_, ?_⟩
  · exact not_writesPositive_drained
      ((prices_pos_iff (RustDecimal.rounding_roundsToNearest drainedQuoted) (by decide +kernel)
        (by norm_num) (nonneg_quotedPool _)).2 hroutes)
  · have hlegs : (quotedPool "1000.0000000").filterMap (poolLegs (.rounding drainedQuoted)) =
        [fundedLegs] := by decide +kernel
    have hxlm : (0 : Decimal) < 1 / 10 := by norm_num
    refine (prices_pos_iff (RustDecimal.rounding_roundsToNearest drainedQuoted) (by decide +kernel)
      hxlm (nonneg_quotedPool _)).2 ?_
    rw [hlegs]
    exact positiveRoutes_fundedLegs

end Lumina.Sample
