import Lumina.Model.Logic

/-!
# Alerts

How severe an alert is, and what recording one does: a row in `alerts`, and then the deliveries,
each of them best effort.

## Main definitions

* `Severity`, `severityForRiskLevel`, `severityForWhaleMultiple`, `severityForLiquidityDrop`,
  `severityForHolderDrop`.
* `PendingAlert` : an alert held in memory until it is recorded.
* `record` : insert the row, deliver to the webhooks, publish the live event.
-/

namespace Lumina

/-- The severity of an alert. -/
inductive Severity where
  | info
  | warning
  | critical
  deriving DecidableEq

namespace Severity

/-- The order of the severities. -/
def rank : Severity → ℕ
  | info => 0
  | warning => 1
  | critical => 2

def asStr : Severity → String
  | info => "INFO"
  | warning => "WARNING"
  | critical => "CRITICAL"

def parse (s : String) : Option Severity :=
  if toAsciiUppercase s = "INFO" then some info
  else if toAsciiUppercase s = "WARNING" then some warning
  else if toAsciiUppercase s = "CRITICAL" then some critical
  else none

end Severity

/-- The severity of a position in a risk band. -/
def severityForRiskLevel : RiskLevel → Severity
  | .critical => .critical
  | .high => .warning
  | _ => .info

section Arithmetic

variable (D : RustDecimal)

/-- The severity of a whale payment by the multiple of its threshold; `none` is a panic. -/
def severityForWhaleMultiple (amount threshold : Decimal) : Option Severity :=
  if threshold = 0 then some .info
  else do
    let ratio ← D.div amount threshold
    return if 20 ≤ ratio then .critical else if 5 ≤ ratio then .warning else .info

/-- The severity of a drop that cleared its threshold; `none` is a panic. -/
def severityForDrop (dropPct thresholdPct : Decimal) : Option Severity := do
  let twice ← D.mul thresholdPct 2
  return if twice ≤ dropPct then .critical else .warning

/-- The severity of a pool's liquidity drop. -/
def severityForLiquidityDrop (dropPct thresholdPct : Decimal) : Option Severity :=
  severityForDrop D dropPct thresholdPct

/-- The severity of a token's holder drop. -/
def severityForHolderDrop (dropPct thresholdPct : Decimal) : Option Severity :=
  severityForDrop D dropPct thresholdPct

end Arithmetic

/-- An alert-worthy event that waits to be recorded. -/
structure PendingAlert where
  kind : String
  severity : Severity
  message : Text
  details : Json
  deriving DecidableEq

/-- `insert_alert`. -/
def insertAlert (time : Time) (kind : String) (severity : String) (message : Text)
    (details : Json) (db : Db) : Db :=
  { db with
    alerts := db.alerts ++ [⟨db.alertSeq, time, kind, severity, message, details, none⟩]
    alertSeq := db.alertSeq + 1 }

/-- `list_enabled_alert_channels`. -/
def listEnabledAlertChannels (db : Db) : List AlertChannelRow :=
  db.alertChannels.filter (·.enabled)

/-- The webhook settings of the configuration. -/
structure WebhookConfig where
  alertWebhookUrl : Option String
  alertMinSeverity : String
  deriving DecidableEq

/-- The environment of one call of `record`. -/
structure RecordEnv where
  now : Time
  insertAlert : Fault
  legacy : Fault
  channels : Fault
  /-- Posting to the `n`-th enabled channel. -/
  post : ℕ → Fault
  notify : Fault

/-- An environment that lets every call through. -/
def RecordEnv.clean (now : Time) : RecordEnv := ⟨now, .ok, .ok, .ok, fun _ => .ok, .ok⟩

/-- One HTTP request to a webhook. -/
def postTo (f : Fault) (p : Post) : Proc World Error Unit :=
  Proc.await f .http fun w => ((), { w with posts := w.posts ++ [p] })

/-- `[SEVERITY] message`. -/
def alertText (severity : Severity) (message : Text) : Text :=
  [.str "[", .str severity.asStr, .str "] "] ++ message

/-- The field of the body that a channel of this kind reads. -/
def payloadField (kind : String) : String := if kind = "discord" then "content" else "text"

/-- Whether an alert meets the minimum severity configured as `minSeverity`. -/
def meetsMinSeverity (severity : Severity) (minSeverity : String) : Bool :=
  ((Severity.parse minSeverity).getD .warning).rank ≤ severity.rank

def deliverLegacyWebhook (env : RecordEnv) (config : WebhookConfig) (severity : Severity)
    (message : Text) : Proc World Error Unit :=
  match config.alertWebhookUrl with
  | none => pure ()
  | some url =>
    if meetsMinSeverity severity config.alertMinSeverity then do
      let _ ← (postTo env.legacy ⟨url, "text", alertText severity message⟩).attempt
    else pure ()

def deliverToChannels (env : RecordEnv) (severity : Severity) (message : Text) :
    Proc World Error Unit := do
  match ← (fetch env.channels listEnabledAlertChannels).attempt with
  -- the channels cannot be read: nothing is delivered
  | .error _ => pure ()
  | .ok channels =>
    channels.zipIdx.foldlM (fun _ (channel, n) =>
      if meetsMinSeverity severity channel.minSeverity then do
        let _ ← (postTo (env.post n)
          ⟨channel.url, payloadField channel.kind, alertText severity message⟩).attempt
      else pure ()) ()

/-- `pg_notify` of the live event. -/
def notifyEvent (env : RecordEnv) (a : PendingAlert) : Proc World Error Unit :=
  Proc.await env.notify .db fun w =>
    ((), { w with notified := w.notified ++ [(a.kind, a.severity.asStr, a.message, env.now)] })

/-- Records an alert, then delivers it as well as it can. -/
def record (env : RecordEnv) (config : WebhookConfig) (a : PendingAlert) :
    Proc World Error Unit := do
  exec env.insertAlert (insertAlert env.now a.kind a.severity.asStr a.message a.details)
  deliverLegacyWebhook env config a.severity a.message
  deliverToChannels env a.severity a.message
  let _ ← (notifyEvent env a).attempt

end Lumina
