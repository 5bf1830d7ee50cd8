import Lumina.Lending.Escalation
import Lumina.Lending.NonNegative

/-!
# Risk moves in the right direction

Over the exact arithmetic and a fixed map of positive prices, supplying collateral and repaying
never raise the LTV of a position, and borrowing and withdrawing never lower it.  The LTV is lost
where no collateral is left, and in one more case: a borrow onto an empty debt side may name a
reserve that has no price (`risk_moves`).  Supplying and repaying never raise an alert, in whatever
order the cutoffs of the bands are.

## Main definitions

* `ltvOf`, `Holdings.ltv` : the LTV of two values, and of the holdings of a position.
* `Holdings.Names` : an event names the asset of its side, or its side is empty.
-/

namespace Lumina

/-! ### The ratio -/

/-- The debt as a percentage of the collateral. -/
def ltvOf (collateralUsd debtUsd : ℚ) : Option ℚ :=
  if collateralUsd = 0 then none else some (debtUsd / collateralUsd * 100)

section Ratio

variable {c c' d d' ltv ltv' : ℚ}

theorem ltvOf_eq_none_iff : ltvOf c d = none ↔ c = 0 := by
  unfold ltvOf
  split_ifs with h <;> simp [h]

/-- With more collateral and less debt the ratio is no higher. -/
theorem ltvOf_le (hc : 0 ≤ c) (hcc : c ≤ c') (hd : 0 ≤ d') (hdd : d' ≤ d)
    (h : ltvOf c d = some ltv) (h' : ltvOf c' d' = some ltv') : ltv' ≤ ltv := by
  unfold ltvOf at h h'
  split_ifs at h with hzero
  split_ifs at h'
  obtain rfl := Option.some.inj h
  obtain rfl := Option.some.inj h'
  have hpos : 0 < c := lt_of_le_of_ne hc (Ne.symm hzero)
  have hratio : d' / c' ≤ d / c := div_le_div₀ (hd.trans hdd) hdd hpos hcc
  linarith

end Ratio

/-! ### The LTV of a position -/

/-- The LTV of some holdings. -/
def Holdings.ltv (prices : PriceMap) (h : Holdings) : Option ℚ :=
  (prices h.collateralAsset).bind fun p => (prices h.debtAsset).bind fun q =>
    ltvOf (h.collateralAmount * p) (h.debtAmount * q)

/-- The event names the asset of its side, or its side is empty. -/
def Holdings.Names (h : Holdings) (e : Decoded) : Prop :=
  match e.kind with
  | .supplyCollateral | .withdrawCollateral =>
    e.reserveAsset = h.collateralAsset ∨ h.collateralAmount = 0
  | .borrow | .repay => e.reserveAsset = h.debtAsset ∨ h.debtAmount = 0

/-- The event moves collateral in or debt out. -/
def PositionEvent.reduces (kind : PositionEvent) : Bool :=
  kind = .supplyCollateral || kind = .repay

variable {fromStr : String → Option Decimal} {prices : PriceMap} {h h' : Holdings} {e : Decoded}
  {ltv ltv' : ℚ}

/-- The exact arithmetic computes the LTV. -/
theorem computeLendingRisk_exact :
    ∃ healthFactor, computeLendingRisk (.exact fromStr) h.collateralAmount
      (prices h.collateralAsset) h.debtAmount (prices h.debtAsset) =
        some (h.ltv prices, healthFactor) := by
  unfold computeLendingRisk Holdings.ltv ltvOf
  cases prices h.collateralAsset with
  | none => exact ⟨none, rfl⟩
  | some p =>
    cases prices h.debtAsset with
    | none => exact ⟨none, rfl⟩
    | some q =>
      simp only [RustDecimal.mul, RustDecimal.div, RustDecimal.exact, Option.bind_eq_bind,
        Option.bind_some, Option.pure_def]
      by_cases hc : h.collateralAmount * p = 0
      · exact ⟨none, by simp [hc]⟩
      · by_cases hd : h.debtAmount * q = 0
        · exact ⟨none, by simp [hc, hd]⟩
        · exact ⟨some (h.collateralAmount * p / (h.debtAmount * q)), by simp [hc, hd]⟩

/-- A defined LTV has a price on both sides and some collateral. -/
theorem Holdings.ltv_eq_some (hl : h.ltv prices = some ltv) :
    ∃ p q, prices h.collateralAsset = some p ∧ prices h.debtAsset = some q ∧
      ltvOf (h.collateralAmount * p) (h.debtAmount * q) = some ltv := by
  obtain ⟨p, hp, hl⟩ := Option.bind_eq_some_iff.1 hl
  obtain ⟨q, hq, hl⟩ := Option.bind_eq_some_iff.1 hl
  exact ⟨p, q, hp, hq, hl⟩

/-- Holdings in the same assets, or in a debt asset that was not owed before: with more collateral
and less debt the LTV is no higher. -/
theorem Holdings.ltv_le (hpos : ∀ asset p, prices asset = some p → 0 < p) (hn : h.NonNegative)
    (hn' : h'.NonNegative) (hasset : h.collateralAsset = h'.collateralAsset)
    (hdebt : h.debtAsset = h'.debtAsset ∨ h'.debtAmount = 0)
    (hc : h.collateralAmount ≤ h'.collateralAmount) (hd : h'.debtAmount ≤ h.debtAmount)
    (hl : h.ltv prices = some ltv) (hl' : h'.ltv prices = some ltv') : ltv' ≤ ltv := by
  obtain ⟨p, q, hp, hq, hltv⟩ := Holdings.ltv_eq_some hl
  obtain ⟨p', q', hp', hq', hltv'⟩ := Holdings.ltv_eq_some hl'
  obtain rfl : p = p' := by simpa [hasset, hp'] using hp.symm
  have hp₀ := (hpos _ _ hp).le
  have hq₀ := (hpos _ _ hq).le
  refine ltvOf_le (mul_nonneg hn.1 hp₀) (mul_le_mul_of_nonneg_right hc hp₀)
    (mul_nonneg hn'.2 (hpos _ _ hq').le) ?_ hltv hltv'
  rcases hdebt with hsame | hzero
  · obtain rfl : q = q' := by simpa [hsame, hq'] using hq.symm
    exact mul_le_mul_of_nonneg_right hd hq₀
  · rw [hzero, zero_mul]
    exact mul_nonneg hn.2 hq₀

/-! ### One event -/

/-- The holdings after an event, over the exact arithmetic. -/
def Holdings.after (h : Holdings) (e : Decoded) : Holdings :=
  match e.kind with
  | .supplyCollateral =>
    { h with collateralAsset := e.reserveAsset, collateralAmount := h.collateralAmount + e.amount }
  | .withdrawCollateral => { h with collateralAmount := max (h.collateralAmount - e.amount) 0 }
  | .borrow => { h with debtAsset := e.reserveAsset, debtAmount := h.debtAmount + e.amount }
  | .repay => { h with debtAmount := max (h.debtAmount - e.amount) 0 }

theorem Holdings.apply_eq_after : h.apply (.exact fromStr) e = some (h.after e) := by
  unfold Holdings.apply Holdings.after
  cases e.kind <;> rfl

theorem Holdings.NonNegative.after (hn : h.NonNegative) (he : 0 ≤ e.amount) :
    (h.after e).NonNegative := by
  unfold Holdings.after
  cases e.kind with
  | supplyCollateral => exact ⟨add_nonneg hn.1 he, hn.2⟩
  | withdrawCollateral => exact ⟨le_max_right _ _, hn.2⟩
  | borrow => exact ⟨hn.1, add_nonneg hn.2 he⟩
  | repay => exact ⟨hn.1, le_max_right _ _⟩

/-- An event that reduces the risk keeps the assets, adds no debt and takes no collateral. -/
theorem Holdings.after_of_reduces (hn : h.NonNegative) (hc : h.collateralAmount ≠ 0)
    (he : 0 ≤ e.amount) (hnames : h.Names e) (hk : e.kind.reduces) :
    (h.after e).collateralAsset = h.collateralAsset ∧ (h.after e).debtAsset = h.debtAsset ∧
      h.collateralAmount ≤ (h.after e).collateralAmount ∧
      (h.after e).debtAmount ≤ h.debtAmount := by
  unfold Holdings.after
  unfold Holdings.Names at hnames
  cases hkind : e.kind with
  | supplyCollateral =>
    rw [hkind] at hnames
    exact ⟨hnames.resolve_right hc, rfl, le_add_of_nonneg_right he, le_rfl⟩
  | repay => exact ⟨rfl, rfl, le_rfl, max_le (sub_le_self _ he) hn.2⟩
  | withdrawCollateral => simp [hkind, PositionEvent.reduces] at hk
  | borrow => simp [hkind, PositionEvent.reduces] at hk

/-- Any other event keeps the collateral's asset, takes no debt and adds no collateral. -/
theorem Holdings.after_of_not_reduces (hn : h.NonNegative) (he : 0 ≤ e.amount)
    (hnames : h.Names e) (hk : e.kind.reduces = false) :
    (h.after e).collateralAsset = h.collateralAsset ∧
      ((h.after e).debtAsset = h.debtAsset ∨ h.debtAmount = 0) ∧
      (h.after e).collateralAmount ≤ h.collateralAmount ∧
      h.debtAmount ≤ (h.after e).debtAmount := by
  unfold Holdings.after
  unfold Holdings.Names at hnames
  cases hkind : e.kind with
  | supplyCollateral => simp [hkind, PositionEvent.reduces] at hk
  | repay => simp [hkind, PositionEvent.reduces] at hk
  | withdrawCollateral => exact ⟨rfl, .inl rfl, max_le (sub_le_self _ he) hn.1, le_rfl⟩
  | borrow =>
    rw [hkind] at hnames
    exact ⟨rfl, hnames, le_rfl, le_add_of_nonneg_right he⟩

/-- The LTV is lost with the collateral, or with a new debt asset that has no price. -/
theorem Holdings.ltv_after_eq_none_iff (hpos : ∀ asset p, prices asset = some p → 0 < p)
    (hnames : h.Names e) (hl : h.ltv prices = some ltv) :
    (h.after e).ltv prices = none ↔ (h.after e).collateralAmount = 0 ∨
      e.kind = .borrow ∧ h.debtAmount = 0 ∧ prices e.reserveAsset = none := by
  obtain ⟨p, q, hp, hq, hltv⟩ := Holdings.ltv_eq_some hl
  have hc : h.collateralAmount ≠ 0 := by
    intro hzero
    rw [hzero, zero_mul, ltvOf_eq_none_iff.2 rfl] at hltv
    cases hltv
  have hp₀ : p ≠ 0 := (hpos _ _ hp).ne'
  unfold Holdings.after Holdings.ltv
  unfold Holdings.Names at hnames
  cases hkind : e.kind with
  | supplyCollateral =>
    rw [hkind] at hnames
    simp only [hnames.resolve_right hc, hp, hq, Option.bind_some, ltvOf_eq_none_iff]
    simp [hp₀]
  | withdrawCollateral =>
    simp only [hp, hq, Option.bind_some, ltvOf_eq_none_iff]
    simp [hp₀]
  | repay =>
    simp only [hp, hq, Option.bind_some, ltvOf_eq_none_iff]
    simp [hp₀]
  | borrow =>
    rw [hkind] at hnames
    cases hq' : prices e.reserveAsset with
    | some q' =>
      simp only [hp, Option.bind_some, ltvOf_eq_none_iff]
      simp [hp₀]
    | none =>
      -- an asset without a price is not that of the stored LTV
      have hempty : h.debtAmount = 0 := hnames.resolve_left fun heq => by
        rw [heq, hq] at hq'
        cases hq'
      simp [hempty]

/-! ### The ingester -/

section Ingester

variable {X : Codec} {config : Config} {bands : LtvBands} {env : EventEnv} {event : RpcEvent}
  {poolContract : String} {latest row : LendingPositionRow} {w : World}

/-- The exact arithmetic has a row for every event, with the LTV of its holdings. -/
theorem nextPosition_exact : ∃ row,
    nextPosition (.exact fromStr) prices poolContract (some latest) e = some row ∧
      row.holdings = latest.holdings.after e ∧ row.ltv = row.holdings.ltv prices := by
  obtain ⟨healthFactor, hrisk⟩ := @computeLendingRisk_exact fromStr prices (latest.holdings.after e)
  unfold nextPosition
  rw [Option.map_some, Option.getD_some, Holdings.apply_eq_after, Option.bind_eq_bind,
    Option.bind_some, hrisk, Option.bind_eq_bind, Option.bind_some]
  exact ⟨_, rfl, rfl, rfl⟩

/-- An LTV that is no higher than the last one raises no alert. -/
theorem lendingAlert_of_le (hl : latest.ltv = some ltv)
    (hle : ∀ ltv', row.ltv = some ltv' → ltv' ≤ ltv) :
    lendingAlert bands (some latest) row = some none := by
  have hnone : escalation bands (some latest) row = none := by
    rw [Option.eq_none_iff_forall_ne_some]
    rintro ⟨ltv', level⟩ hesc
    obtain ⟨hrow, rfl, -, hprev⟩ := escalation_eq_some_iff.1 hesc
    have hlt := hprev (riskLevelWithBands ltv bands)
      (by simp [LendingPositionRow.level, hl])
    exact absurd hlt (not_lt.2 (riskRank_mono bands (hle ltv' hrow)))
  rw [lendingAlert, hnone]

/-- **Risk moves in the right direction.** -/
theorem risk_moves (hpos : ∀ asset p, prices asset = some p → 0 < p)
    (hlatest : latestLendingPosition env.tie "blend" event.contractId e.account w.db = some latest)
    (hn : 0 ≤ latest.collateralAmount ∧ 0 ≤ latest.debtAmount) (hltv : latest.ltv = some ltv)
    (hrisk : ∃ healthFactor, computeLendingRisk (.exact fromStr) latest.collateralAmount
      (prices latest.collateralAsset) latest.debtAmount (prices latest.debtAsset) =
        some (some ltv, healthFactor))
    (hd : decodeEvent (.exact fromStr) X event = .ret (some e)) (he : 0 ≤ e.amount)
    (hnames : latest.holdings.Names e) :
    ∃ row, rowAfter (.exact fromStr) prices env.tie event.contractId e w.db = some row ∧
      (Goes env →
        (processEvent (.exact fromStr) X config prices bands env event w).2.db.lendingPositions =
          w.db.lendingPositions ++ [row]) ∧
      (e.kind.reduces → ∀ ltv', row.ltv = some ltv' → ltv' ≤ ltv) ∧
      (e.kind.reduces = false → ∀ ltv', row.ltv = some ltv' → ltv ≤ ltv') ∧
      (row.ltv = none ↔ row.collateralAmount = 0 ∨
        e.kind = .borrow ∧ latest.debtAmount = 0 ∧ prices e.reserveAsset = none) ∧
      (e.kind.reduces →
        (processEvent (.exact fromStr) X config prices bands env event w).2.db.alerts =
          w.db.alerts) := by
  have hn : latest.holdings.NonNegative := hn
  have hl : latest.holdings.ltv prices = some ltv := by
    obtain ⟨healthFactor, hrisk⟩ := hrisk
    obtain ⟨_, hexact⟩ := @computeLendingRisk_exact fromStr prices latest.holdings
    exact (Prod.mk.inj (Option.some.inj (hexact.symm.trans hrisk))).1
  obtain ⟨row, hnext, hholdings, hrow⟩ :=
    @nextPosition_exact fromStr prices e event.contractId latest
  have hafter : rowAfter (.exact fromStr) prices env.tie event.contractId e w.db = some row := by
    rw [rowAfter, hlatest, hnext]
  rw [hholdings] at hrow
  have hn' : (latest.holdings.after e).NonNegative := Holdings.NonNegative.after hn he
  have hc : latest.holdings.collateralAmount ≠ 0 := by
    obtain ⟨p, q, -, -, hratio⟩ := Holdings.ltv_eq_some hl
    intro hzero
    rw [hzero, zero_mul, ltvOf_eq_none_iff.2 rfl] at hratio
    cases hratio
  have hdown : e.kind.reduces → ∀ ltv', row.ltv = some ltv' → ltv' ≤ ltv := by
    intro hk ltv' hltv'
    obtain ⟨hasset, hdebt, hmore, hless⟩ := Holdings.after_of_reduces hn hc he hnames hk
    exact Holdings.ltv_le hpos hn hn' hasset.symm (.inl hdebt.symm) hmore hless hl
      (hrow ▸ hltv')
  refine ⟨row, hafter, ?_, hdown, ?_, ?_, ?_⟩
  · rintro ⟨hlok, hiok⟩
    rw [(processEvent_stored config bands hd hlok hiok hafter).1, recordedDb_lendingPositions]
    rfl
  · intro hk ltv' hltv'
    obtain ⟨hasset, hdebt, hless, hmore⟩ := Holdings.after_of_not_reduces hn he hnames hk
    exact Holdings.ltv_le hpos hn' hn hasset hdebt hless hmore (hrow ▸ hltv') hl
  · rw [hrow, Holdings.ltv_after_eq_none_iff hpos hnames hl, ← hholdings]
    rfl
  · intro hk
    rcases processEvent_cases (.exact fromStr) X config prices bands env event w with
      ⟨e', row', alert, hd', hgoes, hrow', -⟩ | ⟨heq, -⟩
    · rw [(processEvent_stored config bands hd hgoes.1 hgoes.2 hafter).1]
      obtain ⟨-, -, -, hcontract, haccount, -⟩ := nextPosition_eq_some hnext
      rw [alertAfter, hcontract, haccount, hlatest, lendingAlert_of_le hltv (hdown hk)]
      rfl
    · rw [heq]

end Ingester

end Lumina

/-! ### A repayment, and a borrow of another asset -/

namespace Lumina.Sample

/-- A position of a hundred with the given debt. -/
def owingRow (debtAsset : String) (debt ltv : Decimal) : LendingPositionRow :=
  ⟨1767225600000000, "blend", pool, account, usdc, 100, debtAsset, debt, some ltv, none⟩

def owing (row : LendingPositionRow) : World :=
  { World.empty with db := insertLendingPosition row World.empty.db }

/-- A repayment raises no alert, even with cutoffs out of order. -/
theorem repay_unalerted :
    (processEvent (.exact decimal.fromStr) codec Config.default dollar ⟨90, 60, 1⟩ env
      (event .repay eurc 10 "2026-01-01T00:00:05Z") (owing (owingRow eurc 50 50))).2.db.alerts =
        [] := by
  have hdollar : ∀ asset p, dollar asset = some p → 0 < p := by
    intro asset p h
    unfold dollar at h
    split_ifs at h
    rw [← Option.some.inj h]
    exact one_pos
  have hd : decodeEvent (.exact decimal.fromStr) codec
      (event .repay eurc 10 "2026-01-01T00:00:05Z") =
        .ret (some ⟨.repay, eurc, account, 10, 1767225605000000⟩) := by
    decide +kernel
  obtain ⟨-, -, -, -, -, -, halerts⟩ := @risk_moves decimal.fromStr dollar _ _ codec Config.default
    ⟨90, 60, 1⟩ env _ (owingRow eurc 50 50) (owing (owingRow eurc 50 50)) hdollar
    (by decide +kernel) (by decide +kernel) rfl ⟨some 2, by decide +kernel⟩ hd (by decide +kernel)
    (.inl rfl)
  exact halerts rfl

/-- Only one of the two assets has a price. -/
def usdcOnly : PriceMap := fun asset => if asset = usdc then some 1 else none

/-- A repaid position borrows an asset without a price: the LTV is lost, with a hundred of
collateral left. -/
theorem unpriced_borrow_loses_ltv :
    computeLendingRisk decimal 100 (usdcOnly usdc) 0 (usdcOnly usdc) = some (some 0, none) ∧
    ((processEvent decimal codec Config.default usdcOnly .default env
      (event .borrow eurc 50 "2026-01-01T00:00:05Z")
      (owing (owingRow usdc 0 0))).2.db.lendingPositions.map
        fun r => (r.ltv, r.collateralAmount)) = [(some 0, 100), (none, 100)] := by
  decide +kernel

end Lumina.Sample
