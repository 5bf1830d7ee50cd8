import Lumina.Model.Rows
import Mathlib.Order.Basic

/-!
# Decision logic

The database-free decisions of the ingester: which asset a payment moves, whether it is a whale
payment, how much a quantity changed, the risk of a lending position, and the operator's rules
that override the thresholds.

## Main definitions

* `resolvePaymentAsset`, `whaleAmount`, `percentChange`, `computeLendingRisk` : `logic.rs`.
* `RiskLevel`, `riskRank` : the risk bands and their order.
* `resolveRule` and its three instances, `resolveLtvBands`, `riskLevelWithBands` :
  `alert_rules.rs`.
-/

namespace Lumina

/-- `to_ascii_uppercase`. -/
def toAsciiUppercase (s : String) : String := String.ofList (s.toList.map Char.toUpper)

/-- Resolves a payment's asset into its code and issuer; native XLM has no issuer. -/
def resolvePaymentAsset (assetType assetCode assetIssuer : Option String) :
    String × Option String :=
  if assetType = some "native" then ("XLM", none)
  else (assetCode.getD "UNKNOWN", assetIssuer)

/-- The amount of a payment that meets the whale threshold. -/
def whaleAmount (opType : String) (amount : Option Decimal) (threshold : Decimal) :
    Option Decimal :=
  if opType ≠ "payment" then none
  else amount.bind fun amount => if amount < threshold then none else some amount

section Arithmetic

variable (D : RustDecimal)

/-- Percent change between two points in time; `none` from a zero baseline.  The outer option
is the panic of the arithmetic. -/
def percentChange (before now : Decimal) : Option (Option Decimal) :=
  if before = 0 then some none
  else do
    let diff ← D.sub now before
    let ratio ← D.div diff before
    let pct ← D.mul ratio 100
    return some pct

/-- `(ltv, health_factor)` of a position.  The outer option is the panic of the arithmetic. -/
def computeLendingRisk (collateralAmount : Decimal) (collateralPriceUsd : Option Decimal)
    (debtAmount : Decimal) (debtPriceUsd : Option Decimal) :
    Option (Option Decimal × Option Decimal) :=
  match collateralPriceUsd, debtPriceUsd with
  | some collateralPrice, some debtPrice => do
    let collateralUsd ← D.mul collateralAmount collateralPrice
    let debtUsd ← D.mul debtAmount debtPrice
    if collateralUsd = 0 then
      return (none, none)
    let ratio ← D.div debtUsd collateralUsd
    let ltv ← D.mul ratio 100
    if debtUsd = 0 then
      return (some ltv, none)
    let healthFactor ← D.div collateralUsd debtUsd
    return (some ltv, some healthFactor)
  | _, _ => some (none, none)

end Arithmetic

/-! ### Risk bands -/

/-- A risk band. -/
inductive RiskLevel where
  | low
  | medium
  | high
  | critical
  deriving DecidableEq

/-- The name of a band. -/
def RiskLevel.asStr : RiskLevel → String
  | low => "LOW"
  | medium => "MEDIUM"
  | high => "HIGH"
  | critical => "CRITICAL"

/-- The order of the bands. -/
def riskRank : RiskLevel → ℕ
  | .critical => 3
  | .high => 2
  | .medium => 1
  | .low => 0

/-- LTV percentage cutoffs. -/
structure LtvBands where
  medium : Decimal
  high : Decimal
  critical : Decimal
  deriving DecidableEq

/-- The cutoffs without any rule. -/
def LtvBands.default : LtvBands := ⟨70, 85, 95⟩

/-- The band of an LTV. -/
def riskLevelWithBands (ltv : Decimal) (bands : LtvBands) : RiskLevel :=
  if bands.critical ≤ ltv then .critical
  else if bands.high ≤ ltv then .high
  else if bands.medium ≤ ltv then .medium
  else .low

/-- A higher LTV is in no lower band, in whatever order the cutoffs are. -/
theorem riskRank_mono (bands : LtvBands) {ltv ltv' : Decimal} (h : ltv ≤ ltv') :
    riskRank (riskLevelWithBands ltv bands) ≤ riskRank (riskLevelWithBands ltv' bands) := by
  have hup : ∀ {cutoff : Decimal}, cutoff ≤ ltv → cutoff ≤ ltv' := fun hc => hc.trans h
  unfold riskLevelWithBands
  split_ifs with h₁ h₂ h₃ h₄ h₅ h₆ h₇ h₈ h₉ <;>
    first | decide | exact absurd (hup ‹_›) ‹_›

/-- The bands that are worth an alert. -/
def RiskLevel.alertable (level : RiskLevel) : Bool := level = .high || level = .critical

/-! ### Rules -/

/-- `max_by_key(|r| r.id)`: the last of the rules with the greatest id. -/
def maxById (rules : List AlertRuleRow) : Option AlertRuleRow :=
  rules.foldl (fun best r =>
    match best with
    | none => some r
    | some b => if b.id ≤ r.id then some r else some b) none

/-- The threshold of the newest enabled rule of one type that matches, else the default. -/
def resolveRule (rules : List AlertRuleRow) (ruleType : String) (matching : AlertRuleRow → Bool)
    (default : Decimal) : Decimal :=
  ((maxById ((rules.filter fun r => r.enabled && r.ruleType = ruleType).filter matching)).map
    (·.threshold)).getD default

/-- The whale threshold of an asset. -/
def resolveWhaleThreshold (rules : List AlertRuleRow) (assetCode : String)
    (assetIssuer : Option String) (default : Decimal) : Decimal :=
  resolveRule rules "whale_threshold"
    (fun r => r.assetCode = some assetCode && r.assetIssuer = assetIssuer) default

/-- The holder-drop threshold of an asset. -/
def resolveHolderDropThresholdPct (rules : List AlertRuleRow) (assetCode : String)
    (assetIssuer : Option String) (default : Decimal) : Decimal :=
  resolveRule rules "holder_drop_pct"
    (fun r => r.assetCode = some assetCode && r.assetIssuer = assetIssuer) default

/-- The liquidity-drop threshold of a pool, whose id the rule holds as its asset code. -/
def resolveLiquidityDropThresholdPct (rules : List AlertRuleRow) (poolId : String)
    (default : Decimal) : Decimal :=
  resolveRule rules "liquidity_drop_pct" (fun r => r.assetCode = some poolId) default

/-- One `ltv_band` rule applied to the cutoffs; a rule of another name changes nothing. -/
def LtvBands.apply (bands : LtvBands) (r : AlertRuleRow) : LtvBands :=
  if toAsciiUppercase r.name = "MEDIUM" then { bands with medium := r.threshold }
  else if toAsciiUppercase r.name = "HIGH" then { bands with high := r.threshold }
  else if toAsciiUppercase r.name = "CRITICAL" then { bands with critical := r.threshold }
  else bands

/-- The cutoffs under the enabled `ltv_band` rules. -/
def resolveLtvBands (rules : List AlertRuleRow) : LtvBands :=
  (rules.filter fun r => r.enabled && r.ruleType = "ltv_band").foldl LtvBands.apply
    LtvBands.default

end Lumina
