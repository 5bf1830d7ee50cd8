import Lumina.Lending.Run
import Mathlib.Tactic.Linarith

/-!
# One reserve on each side

A position keeps one asset and one amount on each side, while its events may name any reserve.
The amount is the net amount of the kept asset, after every event, exactly when no event touches
a reserve while another one of the same side is still held (`Run.inOneUnit_iff`).

The two sides work alike, so they are treated as one (`Side`), with the kind of event that adds
to it and the kind that takes from it as parameters.

## Main definitions

* `net` : the net amount of one reserve over a list of events.
* `Side`, `side` : one side of a position, and the one that a list of events leads to.
* `OneReserve` : no event touches a reserve while another one is held.
* `InOneUnit` : the amounts of a row are those of its assets alone.
-/

namespace Lumina

section Side

variable (add sub : PositionEvent)

/-- The net amount of a reserve after one more event, clamped at zero. -/
def netStep (asset : String) (x : Decimal) (e : Decoded) : Decimal :=
  if e.reserveAsset = asset then
    if e.kind = add then x + e.amount
    else if e.kind = sub then max (x - e.amount) 0
    else x
  else x

/-- The net amount of one reserve over a list of events. -/
def net (asset : String) (es : List Decoded) : Decimal := es.foldl (netStep add sub asset) 0

/-- The asset and the amount of one side of a position. -/
structure Side where
  asset : String
  amount : Decimal

/-- What an event does to a side. -/
def Side.apply (s : Side) (e : Decoded) : Side :=
  if e.kind = add then ⟨e.reserveAsset, s.amount + e.amount⟩
  else if e.kind = sub then ⟨s.asset, max (s.amount - e.amount) 0⟩
  else s

/-- The side that a list of events leads to. -/
def side (es : List Decoded) : Side := es.foldl (Side.apply add sub) ⟨"", 0⟩

/-- The event touches the side while no other reserve is held there, or takes nothing. -/
def AloneAt (past : List Decoded) (e : Decoded) : Prop :=
  e.kind = add ∨ e.kind = sub →
    (∀ asset, asset ≠ e.reserveAsset → net add sub asset past = 0) ∨ e.kind = sub ∧ e.amount = 0

/-- No event touches a reserve while another one is held. -/
def OneReserve (es : List Decoded) : Prop :=
  ∀ init e, init ++ [e] <+: es → AloneAt add sub init e

/-- The amount of the side is the net amount of its asset. -/
def Exact (es : List Decoded) : Prop :=
  (side add sub es).amount = net add sub (side add sub es).asset es

/-- The side is exact and holds no other reserve. -/
structure Single (es : List Decoded) : Prop where
  exact : Exact add sub es
  others : ∀ asset, asset ≠ (side add sub es).asset → net add sub asset es = 0
  nonneg : 0 ≤ (side add sub es).amount

variable {add sub} {past es : List Decoded} {e : Decoded}

theorem net_append (asset : String) :
    net add sub asset (past ++ [e]) = netStep add sub asset (net add sub asset past) e := by
  simp [net]

theorem side_append : side add sub (past ++ [e]) = (side add sub past).apply add sub e := by
  simp [side]

theorem single_nil : Single add sub [] where
  exact := rfl
  others _ _ := rfl
  nonneg := le_rfl

/-- From a side with a single reserve, an event leaves it exact only if it comes alone. -/
theorem Single.alone_of_exact (hne : add ≠ sub) (h : Single add sub past)
    (he : 0 ≤ e.amount) (hx : Exact add sub (past ++ [e])) : AloneAt add sub past e := by
  intro hk
  have hexact := h.exact
  unfold Exact at hx hexact
  rw [net_append, side_append] at hx
  by_cases hB : e.reserveAsset = (side add sub past).asset
  · exact .inl fun asset ha => h.others asset (hB ▸ ha)
  · have hempty : (side add sub past).amount = 0 →
        ∀ asset, asset ≠ e.reserveAsset → net add sub asset past = 0 := by
      intro hamount asset ha
      by_cases hA : asset = (side add sub past).asset
      · rw [hA, ← hexact, hamount]
      · exact h.others asset hA
    rcases hk with hk | hk
    · -- the new asset has no net amount yet, so the old amount must be zero
      have hzero := h.others e.reserveAsset hB
      have hamount : (side add sub past).amount = 0 := by
        simpa [Side.apply, netStep, hk, hzero] using hx
      exact .inl (hempty hamount)
    · -- taking another asset leaves the net amount, so it must leave the kept amount too
      have hkept : max ((side add sub past).amount - e.amount) 0 = (side add sub past).amount := by
        simpa [Side.apply, netStep, hk, hne.symm, hB, ← hexact] using hx
      by_cases hb : e.amount = 0
      · exact .inr ⟨hk, hb⟩
      · have hpos : 0 < e.amount := lt_of_le_of_ne he (Ne.symm hb)
        have hamount : (side add sub past).amount = 0 := by
          rcases max_choice ((side add sub past).amount - e.amount) 0 with hm | hm
          · rw [hm] at hkept
            linarith
          · rw [hm] at hkept
            exact hkept.symm
        exact .inl (hempty hamount)

theorem Single.append_add (hne : add ≠ sub) (h : Single add sub past) (he : 0 ≤ e.amount)
    (hk : e.kind = add) (ha : AloneAt add sub past e) : Single add sub (past ++ [e]) := by
  have hothers : ∀ asset, asset ≠ e.reserveAsset → net add sub asset past = 0 := by
    rcases ha (.inl hk) with ha | ⟨hk', -⟩
    · exact ha
    · exact absurd (hk.symm.trans hk') hne
  -- the amount of another asset is zero, so the sum is in the new asset
  have hnet : (side add sub past).amount = net add sub e.reserveAsset past := by
    by_cases hB : e.reserveAsset = (side add sub past).asset
    · rw [hB, h.exact]
    · rw [h.others _ hB, h.exact, hothers _ (Ne.symm hB)]
  refine ⟨?_, ?_, ?_⟩
  · simp [Exact, side_append, net_append, Side.apply, netStep, hk, hnet]
  · intro asset hasset
    have hB : e.reserveAsset ≠ asset := by
      simpa [side_append, Side.apply, hk, eq_comm] using hasset
    rw [net_append, netStep, if_neg hB, hothers asset (Ne.symm hB)]
  · simpa [side_append, Side.apply, hk] using add_nonneg h.nonneg he

theorem Single.append_sub (hne : add ≠ sub) (h : Single add sub past) (he : 0 ≤ e.amount)
    (hk : e.kind = sub) (ha : AloneAt add sub past e) : Single add sub (past ++ [e]) := by
  have hside : side add sub (past ++ [e]) =
      ⟨(side add sub past).asset, max ((side add sub past).amount - e.amount) 0⟩ := by
    simp [side_append, Side.apply, hk, hne.symm]
  refine ⟨?_, ?_, ?_⟩
  · have hexact := h.exact
    unfold Exact at hexact ⊢
    rw [hside, net_append, ← hexact]
    by_cases hB : e.reserveAsset = (side add sub past).asset
    · simp [netStep, hB, hk, hne.symm]
    · rw [netStep, if_neg hB]
      rcases ha (.inr hk) with ha | ⟨-, hb⟩
      · have hzero : (side add sub past).amount = 0 := by rw [hexact, ha _ (Ne.symm hB)]
        rw [hzero, zero_sub]
        exact max_eq_right (neg_nonpos.2 he)
      · rw [hb, sub_zero]
        exact max_eq_left h.nonneg
  · intro asset hasset
    rw [hside] at hasset
    rw [net_append, netStep, h.others asset hasset]
    simp [hk, hne.symm, he]
  · rw [hside]
    exact le_max_right _ _

/-- An event of the other side changes nothing. -/
theorem Single.append_other (h : Single add sub past) (hadd : e.kind ≠ add)
    (hsub : e.kind ≠ sub) : Single add sub (past ++ [e]) := by
  have hside : side add sub (past ++ [e]) = side add sub past := by
    simp [side_append, Side.apply, hadd, hsub]
  have hnet : ∀ asset, net add sub asset (past ++ [e]) = net add sub asset past := by
    intro asset
    simp [net_append, netStep, hadd, hsub]
  refine ⟨?_, ?_, ?_⟩
  · rw [Exact, hside, hnet, h.exact]
  · intro asset hasset
    rw [hside] at hasset
    rw [hnet, h.others asset hasset]
  · rw [hside]
    exact h.nonneg

/-- An event that comes alone keeps the side at a single reserve. -/
theorem Single.append (hne : add ≠ sub) (h : Single add sub past) (he : 0 ≤ e.amount)
    (ha : AloneAt add sub past e) : Single add sub (past ++ [e]) := by
  by_cases hadd : e.kind = add
  · exact h.append_add hne he hadd ha
  · by_cases hsub : e.kind = sub
    · exact h.append_sub hne he hsub ha
    · exact h.append_other hadd hsub

theorem oneReserve_nil : OneReserve add sub [] := fun init e hp => by simp at hp

theorem OneReserve.init (h : OneReserve add sub (past ++ [e])) : OneReserve add sub past :=
  fun init' e' hp => h init' e' (hp.trans (List.prefix_append _ _))

theorem OneReserve.append (h : OneReserve add sub past) (ha : AloneAt add sub past e) :
    OneReserve add sub (past ++ [e]) := by
  intro init e' hp
  rcases List.prefix_concat_iff.1 hp with heq | hp
  · obtain ⟨rfl, he⟩ := List.append_inj' heq rfl
    obtain rfl : e' = e := by simpa using he
    exact ha
  · exact h init e' hp

/-- One reserve at a time keeps the side at a single reserve. -/
theorem OneReserve.single (hne : add ≠ sub) (h : OneReserve add sub es)
    (hes : ∀ e ∈ es, 0 ≤ e.amount) : Single add sub es := by
  induction es using List.reverseRecOn with
  | nil => exact single_nil
  | append_singleton init e ih =>
    have hinit := ih h.init fun e' he' => hes e' (List.mem_append_left _ he')
    exact hinit.append hne (hes e (by simp)) (h init e (List.prefix_refl _))

/-- **The side is exact after every event exactly when no event touches a reserve while another
one is held.** -/
theorem exact_iff_oneReserve (hne : add ≠ sub) (hes : ∀ e ∈ es, 0 ≤ e.amount) :
    (∀ init, init <+: es → Exact add sub init) ↔ OneReserve add sub es := by
  constructor
  · intro hx
    induction es using List.reverseRecOn with
    | nil => exact oneReserve_nil
    | append_singleton es e ih =>
      have hes' : ∀ e' ∈ es, 0 ≤ e'.amount := fun e' he' => hes e' (List.mem_append_left _ he')
      have hone := ih hes' fun init hp => hx init (hp.trans (List.prefix_append _ _))
      have halone := (hone.single hne hes').alone_of_exact hne (hes e (by simp))
        (hx _ (List.prefix_refl _))
      exact hone.append halone
  · intro hone init hp
    have hinit : OneReserve add sub init := fun init' e' hp' => hone init' e' (hp'.trans hp)
    exact (hinit.single hne fun e he => hes e (hp.subset he)).exact

end Side

/-! ### The two sides of a position -/

/-- The collateral of a position. -/
def Holdings.collateral (h : Holdings) : Side := ⟨h.collateralAsset, h.collateralAmount⟩

/-- The debt of a position. -/
def Holdings.debt (h : Holdings) : Side := ⟨h.debtAsset, h.debtAmount⟩

/-- The net collateral in one reserve. -/
def netCollateral (asset : String) (es : List Decoded) : Decimal :=
  net .supplyCollateral .withdrawCollateral asset es

/-- The net debt in one reserve. -/
def netDebt (asset : String) (es : List Decoded) : Decimal := net .borrow .repay asset es

/-- The amounts of a row are the net amounts of its two assets alone, and so its risk is
computed from units of the assets whose prices it uses. -/
structure InOneUnit (D : RustDecimal) (prices : PriceMap) (es : List Decoded)
    (row : LendingPositionRow) : Prop where
  collateral : row.collateralAmount = netCollateral row.collateralAsset es
  debt : row.debtAmount = netDebt row.debtAsset es
  risk : computeLendingRisk D (netCollateral row.collateralAsset es)
    (prices row.collateralAsset) (netDebt row.debtAsset es) (prices row.debtAsset) =
      some (row.ltv, row.healthFactor)

section Exact

variable {fromStr : String → Option Decimal} {es : List Decoded}

theorem Holdings.apply_exact {h h' : Holdings} {e : Decoded}
    (ha : h.apply (.exact fromStr) e = some h') :
    h'.collateral = h.collateral.apply .supplyCollateral .withdrawCollateral e ∧
      h'.debt = h.debt.apply .borrow .repay e := by
  unfold Holdings.apply at ha
  cases hk : e.kind <;>
    simp only [hk, RustDecimal.exact_add, RustDecimal.exact_sub, Option.bind_eq_bind,
      Option.bind_some, Option.pure_def, Option.some.injEq] at ha <;>
    subst ha <;>
    simp [Side.apply, hk, Holdings.collateral, Holdings.debt]

/-- The fold of the events treats the two sides on their own. -/
theorem foldHoldings_exact {h : Holdings} (hf : foldHoldings (.exact fromStr) es = some h) :
    h.collateral = side .supplyCollateral .withdrawCollateral es ∧
      h.debt = side .borrow .repay es := by
  induction es using List.reverseRecOn generalizing h with
  | nil =>
    obtain rfl : Holdings.empty = h := by simpa using hf
    exact ⟨rfl, rfl⟩
  | append_singleton es e ih =>
    rw [foldHoldings_append] at hf
    obtain ⟨h₁, hf₁, ha⟩ := Option.bind_eq_some_iff.1 hf
    obtain ⟨hc, hd⟩ := ih hf₁
    obtain ⟨hc', hd'⟩ := Holdings.apply_exact ha
    rw [side_append, side_append, ← hc, ← hd]
    exact ⟨hc', hd'⟩

variable {X : Codec} {config : Config} {w w' : World} {steps : List (Step (.exact fromStr) X)}
  {contract account : String}

/-- The row of an event is in one unit exactly when both sides are exact. -/
theorem Run.inOneUnit_row {s : Step (.exact fromStr) X} (h : Run config w (steps ++ [s]) w')
    (hc : Concerns contract account (steps ++ [s])) (hw : NoRows contract account w.db)
    (hi : Increasing (steps ++ [s])) :
    InOneUnit (.exact fromStr) s.prices ((steps ++ [s]).map (·.decoded)) s.row ↔
      Exact .supplyCollateral .withdrawCollateral ((steps ++ [s]).map (·.decoded)) ∧
        Exact .borrow .repay ((steps ++ [s]).map (·.decoded)) := by
  obtain ⟨hcol, hdebt⟩ := foldHoldings_exact (h.foldHoldings_eq hc hw hi.init)
  unfold Exact
  rw [← hcol, ← hdebt]
  obtain ⟨_, -, -, hr⟩ := h.snoc_cases
  have hrisk := (nextPosition_eq_some hr).2.2.2.2.2
  constructor
  · intro hu
    exact ⟨hu.collateral, hu.debt⟩
  · rintro ⟨hcollateral, hdebt⟩
    have hcollateral' : s.row.collateralAmount = netCollateral s.row.collateralAsset
      ((steps ++ [s]).map (·.decoded)) := hcollateral
    have hdebt' : s.row.debtAmount = netDebt s.row.debtAsset
      ((steps ++ [s]).map (·.decoded)) := hdebt
    exact ⟨hcollateral', hdebt', by rw [← hcollateral', ← hdebt']; exact hrisk⟩

/-- **After every event the stored amounts are in the units of the stored assets exactly when,
on each side, no event touches a reserve while another one is held.** -/
theorem Run.inOneUnit_iff (h : Run config w steps w') (hc : Concerns contract account steps)
    (hw : NoRows contract account w.db) (hi : Increasing steps)
    (hn : ∀ s ∈ steps, 0 ≤ s.decoded.amount) :
    (∀ init s w₁ tie, init ++ [s] <+: steps → Run config w (init ++ [s]) w₁ →
      ∃ row, latestLendingPosition tie "blend" contract account w₁.db = some row ∧
        InOneUnit (.exact fromStr) s.prices ((init ++ [s]).map (·.decoded)) row) ↔
      OneReserve .supplyCollateral .withdrawCollateral (steps.map (·.decoded)) ∧
        OneReserve .borrow .repay (steps.map (·.decoded)) := by
  have hes : ∀ e ∈ steps.map (·.decoded), 0 ≤ e.amount := by simpa using hn
  rw [← exact_iff_oneReserve (by decide) hes, ← exact_iff_oneReserve (by decide) hes,
    ← forall₂_and]
  constructor
  · intro hu es hp
    obtain ⟨init, hp', rfl⟩ := List.prefix_map_iff.1 hp
    rcases List.eq_nil_or_concat init with rfl | ⟨init, s, rfl⟩
    · exact ⟨rfl, rfl⟩
    · rw [List.concat_eq_append] at hp' ⊢
      obtain ⟨w₁, h₁⟩ := h.of_prefix hp'
      have hi₁ := hi.of_prefix hp'
      have hc₁ := hc.of_prefix hp'
      obtain ⟨row, hrow, hunit⟩ := hu init s w₁ 0 hp' h₁
      rw [latestLendingPosition, h₁.latestLendingRow_eq hc₁ hw hi₁.lt_last] at hrow
      obtain rfl : s.row = row := by simpa using hrow
      exact (h₁.inOneUnit_row hc₁ hw hi₁).1 hunit
  · intro hx init s w₁ tie hp h₁
    have hi₁ := hi.of_prefix hp
    have hc₁ := hc.of_prefix hp
    refine ⟨s.row, ?_, (h₁.inOneUnit_row hc₁ hw hi₁).2 (hx _ (hp.map _))⟩
    rw [latestLendingPosition, h₁.latestLendingRow_eq hc₁ hw hi₁.lt_last]
    rfl

end Exact

end Lumina

/-! ### Two reserves of one position -/

namespace Lumina.Sample

/-- 50 of another reserve are supplied in the next ledger. -/
def supplyOther : Delivery decimal codec :=
  delivery (event .supplyCollateral eurc 50 "2026-01-01T00:00:05Z")
    ⟨.supplyCollateral, eurc, account, 50, 1767225605000000⟩ (by decide +kernel)

def supplyOtherRow : LendingPositionRow :=
  ⟨1767225605000000, "blend", pool, account, eurc, 150, "", 0, none, none⟩

def suppliedOther : World :=
  { supplied with db := insertLendingPosition supplyOtherRow supplied.db }

/-- The second supply turns 100 of the first reserve into 100 of the second one. -/
theorem supplyOther_adds :
    Run Config.default World.empty [⟨supply, supplyRow⟩, ⟨supplyOther, supplyOtherRow⟩]
        suppliedOther ∧
      Increasing [⟨supply, supplyRow⟩, ⟨supplyOther, supplyOtherRow⟩] ∧
      (latestLendingPosition 0 "blend" pool account suppliedOther.db).map
        (fun row => (row.collateralAsset, row.collateralAmount)) = some (eurc, 150) ∧
      netCollateral eurc [supply.decoded, supplyOther.decoded] = 50 :=
  ⟨run_supply.snoc_quiet rfl rfl (by decide +kernel) (by decide +kernel),
    by simp [Increasing, supply, supplyOther, delivery], by decide +kernel, by decide +kernel⟩

/-- A supply and a loan keep each side in one unit. -/
theorem borrowLater_inOneUnit :
    Run Config.default World.empty [⟨supply, supplyRow⟩, ⟨borrowLater, borrowLaterRow⟩]
        borrowedLater ∧
      ∀ init s w₁ tie, init ++ [s] <+: [⟨supply, supplyRow⟩, ⟨borrowLater, borrowLaterRow⟩] →
        Run Config.default World.empty (init ++ [s]) w₁ →
          ∃ row, latestLendingPosition tie "blend" pool account w₁.db = some row ∧
            InOneUnit decimal s.prices ((init ++ [s]).map (·.decoded)) row := by
  have hn : ∀ s ∈ [(⟨supply, supplyRow⟩ : Step decimal codec), ⟨borrowLater, borrowLaterRow⟩],
      0 ≤ s.decoded.amount := by
    intro s hs
    simp only [List.mem_cons, List.not_mem_nil, or_false] at hs
    rcases hs with rfl | rfl <;> simp [supply, borrowLater, delivery]
  have hcollateral : OneReserve .supplyCollateral .withdrawCollateral [supply.decoded] :=
    oneReserve_nil.append fun _ => .inl fun _ _ => rfl
  have hdebt : OneReserve .borrow .repay [supply.decoded] :=
    oneReserve_nil.append fun hk => by simp [supply, delivery] at hk
  refine ⟨run_borrowLater,
    (run_borrowLater.inOneUnit_iff concerns_borrowLater rfl increasing_borrowLater hn).2
      ⟨hcollateral.append (e := borrowLater.decoded) fun hk => ?_,
        hdebt.append (e := borrowLater.decoded) fun _ => .inl fun asset _ => ?_⟩⟩
  · simp [borrowLater, delivery] at hk
  · simp [net, netStep, supply, delivery]

end Lumina.Sample
