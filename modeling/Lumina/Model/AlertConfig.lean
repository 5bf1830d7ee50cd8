import Lumina.Model.Auth
import Lumina.Model.Soroban

/-!
# Alert channels and alert rules

The two tables that the operator edits: the channels that alerts are delivered to, and the rules
that override thresholds.  A row's id comes from a sequence, which a failed insertion advances
all the same.

## Main definitions

* `insertAlertRule`, `updateAlertRule`, … : the statements.
* `createAlertRule`, `editAlertRule`, … : the handlers with their validation.
-/

namespace Lumina

/-- A statement that the database may refuse. -/
def Store.tryExec {α : Type} (f : Fault) (u : Store → Option α × Store) : Proc Store Error α := do
  match ← Store.exec f u with
  | some a => return a
  | none => Proc.lift (.err .db)

/-! ### Alert channels -/

/-- `list_alert_channels`. -/
def listAlertChannels (s : Store) : List AlertChannelRow :=
  s.db.alertChannels.insertionSort fun a b => a.id ≤ b.id

/-- `insert_alert_channel`, which a channel of the same name prevents. -/
def insertAlertChannel (name kind url minSeverity : String) (enabled : Bool) (s : Store) :
    Option AlertChannelRow × Store :=
  let s' := { s with alertChannelSeq := s.alertChannelSeq + 1 }
  if s.db.alertChannels.any fun c => c.name = name then (none, s')
  else
    let row : AlertChannelRow := ⟨s.alertChannelSeq, name, kind, url, minSeverity, enabled⟩
    (some row, { s' with db := { s.db with alertChannels := s.db.alertChannels ++ [row] } })

/-- `delete_alert_channel`: whether there was one. -/
def deleteAlertChannel (id : ℤ) (s : Store) : Bool × Store :=
  let channels := s.db.alertChannels.filter fun c => c.id ≠ id
  (s.db.alertChannels.any fun c => c.id = id,
    { s with db := { s.db with alertChannels := channels } })

/-- The body of a request for a new channel. -/
structure NewAlertChannel where
  name : String
  kind : String
  url : String
  minSeverity : String
  enabled : Bool
  deriving DecidableEq

def defaultMinSeverity : String := "WARNING"

def defaultTrue : Bool := true

/-- The fields of the body, of which some may be left out. -/
def NewAlertChannel.ofFields (name kind url : String) (minSeverity : Option String)
    (enabled : Option Bool) : NewAlertChannel :=
  ⟨name, kind, url, minSeverity.getD defaultMinSeverity, enabled.getD defaultTrue⟩

/-- `create_alert_channel`. -/
def createAlertChannel (state : AppState) (f : Fault) (headers : HeaderMap)
    (body : NewAlertChannel) : Proc Store Error Response :=
  guarded state headers <|
    if trim body.name.toList = [] then pure (badRequest "name must not be empty")
    else if body.kind ∉ ["slack", "discord", "generic"] then
      pure (badRequest "kind must be one of: slack, discord, generic")
    else if ¬ ("http://".toList <+: body.url.toList ∨ "https://".toList <+: body.url.toList) then
      pure (badRequest "url must start with http:// or https://")
    else if Severity.parse body.minSeverity = none then
      pure (badRequest "min_severity must be one of: INFO, WARNING, CRITICAL")
    else
      answer (Store.tryExec f
        (insertAlertChannel body.name body.kind body.url body.minSeverity body.enabled))
        fun row => .created (.alertChannel row)

/-- `delete_alert_channel`, the handler. -/
def removeAlertChannel (state : AppState) (f : Fault) (headers : HeaderMap) (id : ℤ) :
    Proc Store Error Response :=
  guarded state headers <| answer (Store.exec f (deleteAlertChannel id)) foundOrNot

/-! ### Alert rules -/

/-- `insert_alert_rule`. -/
def insertAlertRule (name ruleType : String) (assetCode assetIssuer : Option String)
    (threshold : Decimal) (enabled : Bool) (s : Store) : AlertRuleRow × Store :=
  let row : AlertRuleRow :=
    ⟨s.alertRuleSeq, name, ruleType, assetCode, assetIssuer, threshold, enabled⟩
  (row, { s with
    db := { s.db with alertRules := s.db.alertRules ++ [row] }
    alertRuleSeq := s.alertRuleSeq + 1 })

/-- The assignment of `update_alert_rule`. -/
def AlertRuleRow.edit (threshold : Decimal) (enabled : Bool) (r : AlertRuleRow) : AlertRuleRow :=
  { r with threshold := threshold, enabled := enabled }

/-- `update_alert_rule`: the row as it is now, where there is one. -/
def updateAlertRule (id : ℤ) (threshold : Decimal) (enabled : Bool) (s : Store) :
    Option AlertRuleRow × Store :=
  let rules := s.db.alertRules.map fun r => if r.id = id then r.edit threshold enabled else r
  ((s.db.alertRules.find? fun r => r.id = id).map fun r => r.edit threshold enabled,
    { s with db := { s.db with alertRules := rules } })

/-- `delete_alert_rule`: whether there was one. -/
def deleteAlertRule (id : ℤ) (s : Store) : Bool × Store :=
  let rules := s.db.alertRules.filter fun r => r.id ≠ id
  (s.db.alertRules.any fun r => r.id = id, { s with db := { s.db with alertRules := rules } })

/-- The body of a request for a new rule. -/
structure NewAlertRule where
  name : String
  ruleType : String
  assetCode : Option String
  assetIssuer : Option String
  threshold : Decimal
  enabled : Bool
  deriving DecidableEq

/-- The fields of the body, of which one may be left out. -/
def NewAlertRule.ofFields (name ruleType : String) (assetCode assetIssuer : Option String)
    (threshold : Decimal) (enabled : Option Bool) : NewAlertRule :=
  ⟨name, ruleType, assetCode, assetIssuer, threshold, enabled.getD defaultTrue⟩

/-- The body of a request that edits a rule. -/
structure UpdateAlertRule where
  threshold : Decimal
  enabled : Bool
  deriving DecidableEq

/-- What is wrong with a new rule, if anything. -/
def NewAlertRule.invalid (body : NewAlertRule) : Option String :=
  if trim body.name.toList = [] then some "name must not be empty"
  else if body.threshold ≤ 0 then some "threshold must be greater than zero"
  else if body.ruleType = "whale_threshold" ∨ body.ruleType = "holder_drop_pct" then
    if body.assetCode = none then some (body.ruleType ++ " rules require asset_code") else none
  else if body.ruleType = "liquidity_drop_pct" then
    if body.assetCode = none then
      some "liquidity_drop_pct rules require asset_code (the pool ID)"
    else none
  else if body.ruleType = "ltv_band" then
    if toAsciiUppercase body.name ∉ ["MEDIUM", "HIGH", "CRITICAL"] then
      some "ltv_band rules must be named MEDIUM, HIGH, or CRITICAL"
    else none
  else
    some "rule_type must be one of: whale_threshold, holder_drop_pct, liquidity_drop_pct, ltv_band"

/-- `create_alert_rule`. -/
def createAlertRule (state : AppState) (f : Fault) (headers : HeaderMap) (body : NewAlertRule) :
    Proc Store Error Response :=
  guarded state headers <|
    match body.invalid with
    | some message => pure (badRequest message)
    | none =>
      answer (Store.exec f (insertAlertRule body.name body.ruleType body.assetCode body.assetIssuer
        body.threshold body.enabled)) fun row => .created (.alertRule row)

/-- `update_alert_rule`, the handler. -/
def editAlertRule (state : AppState) (f : Fault) (headers : HeaderMap) (id : ℤ)
    (body : UpdateAlertRule) : Proc Store Error Response :=
  guarded state headers <|
    if body.threshold ≤ 0 then pure (badRequest "threshold must be greater than zero")
    else
      answer (Store.exec f (updateAlertRule id body.threshold body.enabled)) fun row =>
        match row with
        | some row => .json (.alertRule row)
        | none => .notFound

/-- `delete_alert_rule`, the handler. -/
def removeAlertRule (state : AppState) (f : Fault) (headers : HeaderMap) (id : ℤ) :
    Proc Store Error Response :=
  guarded state headers <| answer (Store.exec f (deleteAlertRule id)) foundOrNot

end Lumina
