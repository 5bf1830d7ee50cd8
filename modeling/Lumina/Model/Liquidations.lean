import Lumina.Model.Api
import Lumina.Model.Soroban

/-!
# The liquidation dashboard

`/liquidations` shows the newest row of every lending position and a summary by risk band.  The
summary is a query of its own, with a `CASE` over the cutoffs that the handler passes in.

## Main definitions

* `liquidationRiskSummary` : the query.
* `liquidations` : the handler.
-/

namespace Lumina

/-- The key of a position. -/
def LendingPositionRow.key (r : LendingPositionRow) : String × String × String :=
  (r.protocol, r.poolContract, r.account)

/-- The `CASE` of the summary. -/
def caseRiskLevel (medium high critical ltv : Decimal) : String :=
  if critical ≤ ltv then "CRITICAL"
  else if high ≤ ltv then "HIGH"
  else if medium ≤ ltv then "MEDIUM"
  else "LOW"

/-- `liquidation_risk_summary`; `tie` chooses the row of each position. -/
def liquidationRiskSummary (tie : String × String × String → ℕ) (medium high critical : Decimal)
    (db : Db) : List LiquidationRiskBucket :=
  let latest := Sql.distinctOn tie LendingPositionRow.key (·.time) db.lendingPositions
  let banded := latest.filterMap fun r =>
    r.ltv.map fun ltv => (caseRiskLevel medium high critical ltv, r.debtAmount)
  (((banded.map (·.1)).dedup).insertionSort (· ≤ ·)).map fun level =>
    let rows := banded.filter fun b => b.1 = level
    ⟨level, rows.length, (rows.map (·.2)).sum⟩

def noPositionsNote : String :=
  "No lending positions ingested yet. Set BLEND_POOL_IDS to real Blend pool contract addresses " ++
    "to turn on the Soroban event ingester."

def noRiskNote : String :=
  "Positions below are tracked from real on-chain Blend events (collateral/debt amounts are " ++
    "live). Risk bucketing (LTV/health factor) isn't computed yet — that needs a USD price per " ++
    "Soroban asset-contract address, which isn't wired up, so those columns show no invented " ++
    "numbers rather than a guess."

/-- The environment of `liquidations`. -/
structure LiquidationsEnv where
  rules : Fault
  summary : Fault
  tieSummary : String × String × String → ℕ
  positions : Fault
  tiePositions : String × String × String → ℕ
  /-- The order of the positions, which the query sorts by their key only. -/
  visit : Sql.Visit LendingPositionRow

/-- `sort_by_key(Reverse(ltv))`. -/
def sortByLtv (positions : List LendingPositionRow) : List LendingPositionRow :=
  positions.insertionSort fun a b => Sql.nullsLast b.ltv ≤ Sql.nullsLast a.ltv

def liquidationsNote (positions : List LendingPositionRow)
    (summary : List LiquidationRiskBucket) : String :=
  if positions.isEmpty then noPositionsNote
  else if summary.isEmpty then noRiskNote
  else "Live data."

/-- `/liquidations`. -/
def liquidations (env : LiquidationsEnv) : Proc Store Error Response := do
  match ← (Store.fetch env.rules fun s => listAlertRules s.db).attempt with
  | .error e => return err e
  | .ok rules =>
    let bands := resolveLtvBands rules
    match ← (Store.fetch env.summary fun s =>
      liquidationRiskSummary env.tieSummary bands.medium bands.high bands.critical
        s.db).attempt with
    | .error e => return err e
    | .ok summary =>
      match ← (Store.fetch env.positions fun s =>
        env.visit.order (listLendingPositions env.tiePositions s.db)).attempt with
      | .error e => return err e
      | .ok positions =>
        let positions := sortByLtv positions
        return .json (.liquidations summary positions (liquidationsNote positions summary))

end Lumina
