import Lumina.Api.AdminKey
import Lumina.Lending.Run
import Lumina.System.Keys

/-!
# What the operator configured

The validation stands in the handlers and not in the tables, which anything could be inserted into.
But the handlers are all that writes to them: in every state that the two processes reach, each
rule, channel and watchlist item is one that the validation accepts (`system_configured`).  So a
threshold in use is positive, and the minimum severity of a channel is one that `Severity::parse`
reads, so that the default of the deliveries is never used.

## Main definitions

* `Store.Configured` : the validation accepts every row.
* `AlertChannelRow.Takes` : an alert is due on a channel.
* `delivered` : the channels that get an alert.
-/

namespace Lumina

open Relation

/-- The request that makes such a rule. -/
def AlertRuleRow.body (r : AlertRuleRow) : NewAlertRule :=
  ⟨r.name, r.ruleType, r.assetCode, r.assetIssuer, r.threshold, r.enabled⟩

/-- The request that makes such a channel. -/
def AlertChannelRow.body (c : AlertChannelRow) : NewAlertChannel :=
  ⟨c.name, c.kind, c.url, c.minSeverity, c.enabled⟩

/-- The request that makes such an item. -/
def WatchlistItemRow.body (x : WatchlistItemRow) : NewWatchlistItem :=
  ⟨x.itemType, x.itemKey, x.label⟩

/-- Every rule, channel and item is one that the validation accepts. -/
structure Store.Configured (s : Store) : Prop where
  rules : ∀ r ∈ s.db.alertRules, r.body.invalid = none
  channels : ∀ c ∈ s.db.alertChannels, c.body.Valid
  items : ∀ x ∈ s.watchlistItems, x.body.Valid

variable {webhook : WebhookConfig} {s s' : Store}

/-! ### The writes -/

/-- An edit leaves a rule valid: the rest of it was validated when it was made. -/
theorem NewAlertRule.invalid_edit {body : NewAlertRule} {threshold : Decimal} {enabled : Bool}
    (h : body.invalid = none) (hpos : 0 < threshold) :
    NewAlertRule.invalid { body with threshold := threshold, enabled := enabled } = none := by
  have hthreshold : ¬ body.threshold ≤ 0 := not_le.2 (NewAlertRule.threshold_pos h)
  unfold NewAlertRule.invalid at h ⊢
  rw [if_neg (not_le.2 hpos)]
  rwa [if_neg hthreshold] at h

theorem ApiWrite.configured (h : ApiWrite s s') (hs : s.Configured) : s'.Configured := by
  cases h with
  | insertChannel body hvalid =>
    unfold insertAlertChannel
    dsimp only
    split_ifs
    · exact { hs with }
    · refine { hs with channels := fun c hc => ?_ }
      rcases List.mem_append.1 hc with hc | hc
      · exact hs.channels c hc
      · rw [List.mem_singleton.1 hc]
        exact hvalid
  | deleteChannel id =>
    exact { hs with channels := fun c hc => hs.channels c (List.mem_filter.1 hc).1 }
  | insertRule body hvalid =>
    refine { hs with rules := fun r hr => ?_ }
    rcases List.mem_append.1 hr with hr | hr
    · exact hs.rules r hr
    · rw [List.mem_singleton.1 hr]
      exact hvalid
  | updateRule id threshold enabled hpos =>
    refine { hs with rules := fun r hr => ?_ }
    obtain ⟨q, hq, rfl⟩ := List.mem_map.1 hr
    split_ifs
    · exact @NewAlertRule.invalid_edit q.body threshold enabled (hs.rules q hq) hpos
    · exact hs.rules q hq
  | deleteRule id =>
    exact { hs with rules := fun r hr => hs.rules r (List.mem_filter.1 hr).1 }
  | upsertItem now body hvalid =>
    unfold upsertWatchlistItem
    dsimp only
    split
    · refine { hs with items := fun x hx => ?_ }
      obtain ⟨y, hy, rfl⟩ := List.mem_map.1 hx
      split_ifs
      -- the conflicting row takes the new label
      · exact ⟨(hs.items y hy).itemType, (hs.items y hy).itemKey, hvalid.label⟩
      · exact hs.items y hy
    · refine { hs with items := fun x hx => ?_ }
      rcases List.mem_append.1 hx with hx | hx
      · exact hs.items x hx
      · rw [List.mem_singleton.1 hx]
        exact hvalid
  | deleteItem id =>
    exact { hs with items := fun x hx => hs.items x (List.mem_filter.1 hx).1 }
  | _ => exact { hs with }

theorem configured_empty : Store.empty.Configured := ⟨nofun, nofun, nofun⟩

/-- **What the operator configured is valid in every state reached.** -/
theorem System.Reachable.configured {s : System} (h : Reachable webhook s) :
    s.store.Configured := by
  refine @invariant _ _ (fun s => s.store.Configured) h configured_empty fun s s' hstep hs => ?_
  cases hstep with
  | ingest hwrite =>
    obtain ⟨hrules, hchannels⟩ := hwrite.config_eq
    exact ⟨fun r hr => hs.rules r (hrules ▸ hr), fun c hc => hs.channels c (hchannels ▸ hc),
      hs.items⟩
  | api hwrite => exact hwrite.configured hs
  | retention job =>
    rcases job.drop_cases s.store.db with ⟨rows, -, hdb⟩ | ⟨rows, -, hdb⟩
    · rw [retain, hdb]
      exact { hs with }
    · rw [retain, hdb]
      exact { hs with }

/-- A value in use is positive, whatever it is for. -/
theorem Store.Configured.effective_pos (h : s.Configured) (target : RuleTarget)
    {default : Decimal} (hdefault : 0 < default) :
    0 < target.effective (listAlertRules s.db) default := by
  rw [RuleTarget.effective_eq (pairwise_listAlertRules s.db)]
  cases hlast : ((listAlertRules s.db).filter fun r =>
      r.enabled && decide (target.Names r)).getLast? with
  | none =>
    rw [Option.map_none, Option.getD_none]
    cases target <;> first | exact hdefault | norm_num [RuleTarget.fallback, LtvBands.default]
  | some r =>
    have hmem := (List.mem_filter.1 (List.mem_of_getLast? hlast)).1
    rw [Option.map_some, Option.getD_some]
    exact NewAlertRule.threshold_pos (h.rules r (mem_listAlertRules.1 hmem))

/-- After any run from an empty system the configured rows are valid, and the values that a cycle
would judge by are positive. -/
theorem system_configured (P : Deployment) (es : List SystemEvent) (target : RuleTarget)
    (default : Decimal) (hdefault : 0 < default) :
    (Trace.run (System.step P) System.empty es).store.Configured ∧
      0 < target.effective
        (listAlertRules (Trace.run (System.step P) System.empty es).store.db) default :=
  have h := (System.Reachable.run (P := P) .refl es).configured
  ⟨h, h.effective_pos target hdefault⟩

/-! ### Deliveries -/

/-- An alert of the severity is due on the channel. -/
def AlertChannelRow.Takes (c : AlertChannelRow) (severity : Severity) : Prop :=
  c.enabled ∧ ∃ least, Severity.parse c.minSeverity = some least ∧ least.rank ≤ severity.rank

/-- The enabled channels whose minimum severity the alert meets and whose call goes through. -/
def delivered (env : RecordEnv) (severity : Severity) (db : Db) : List AlertChannelRow :=
  if env.channels = .ok then
    ((listEnabledAlertChannels db).zipIdx.filter fun c =>
      meetsMinSeverity severity c.1.minSeverity ∧ env.post c.2 = .ok).map (·.1)
  else []

variable {env : RecordEnv} {config : WebhookConfig} {a : PendingAlert}

theorem filterMap_channelCall (l : List (AlertChannelRow × ℕ)) :
    ((l.flatMap (channelCall env a)).filterMap fun c => if c.1 = .ok then c.2 else none) =
      (l.filter fun c => meetsMinSeverity a.severity c.1.minSeverity ∧ env.post c.2 = .ok).map
        fun c => channelPost a c.1 := by
  induction l with
  | nil => rfl
  | cons c l ih =>
    rw [List.flatMap_cons, List.filterMap_append, ih, List.filter_cons]
    unfold channelCall
    by_cases hmeets : meetsMinSeverity a.severity c.1.minSeverity = true
    · by_cases hpost : env.post c.2 = .ok <;> simp [hmeets, hpost]
    · simp [hmeets]

/-- The messages of an alert: to the webhook of the configuration, and to the channels. -/
theorem sent_dueCalls {db : Db} (h : Unstopped (dueCalls env config a db)) :
    sent (dueCalls env config a db) = sent (legacyCall env config a) ++
      (delivered env a.severity db).map (channelPost a) := by
  have hlegacy := (unstopped_append.1 h).1
  rw [sent_of_unstopped h, sent_of_unstopped hlegacy, dueCalls, List.filterMap_append,
    List.filterMap_cons]
  unfold delivered
  by_cases hchannels : env.channels = .ok
  · simp [hchannels, filterMap_channelCall, List.map_map, Function.comp_def]
  · simp [hchannels]

theorem delivered_sublist (env : RecordEnv) (severity : Severity) (db : Db) :
    (delivered env severity db).Sublist db.alertChannels := by
  unfold delivered
  split_ifs
  · have h := (List.filter_sublist (p := fun c : AlertChannelRow × ℕ =>
      meetsMinSeverity severity c.1.minSeverity ∧ env.post c.2 = .ok)
      (l := (listEnabledAlertChannels db).zipIdx)).map (·.1)
    rw [List.zipIdx_map_fst] at h
    exact h.trans List.filter_sublist
  · exact List.nil_sublist _

/-- A channel whose minimum severity was validated takes an alert as the query and the filter of
the deliveries say. -/
theorem AlertChannelRow.takes_iff {c : AlertChannelRow} (h : c.body.Valid) (severity : Severity) :
    c.Takes severity ↔ c.enabled = true ∧ meetsMinSeverity severity c.minSeverity = true := by
  obtain ⟨least, hleast⟩ := Option.ne_none_iff_exists'.1 h.minSeverity
  have hleast : Severity.parse c.minSeverity = some least := hleast
  simp [Takes, meetsMinSeverity, hleast]

theorem mem_delivered {c : AlertChannelRow} {severity : Severity} (h : s.Configured) :
    c ∈ delivered env severity s.db ↔ env.channels = .ok ∧ c.Takes severity ∧
      ∃ n, (listEnabledAlertChannels s.db)[n]? = some c ∧ env.post n = .ok := by
  unfold delivered
  split_ifs with hchannels
  · simp only [List.mem_map, List.mem_filter, Prod.exists, List.mem_zipIdx_iff_getElem?,
      decide_eq_true_eq, hchannels, true_and]
    constructor
    · rintro ⟨d, n, ⟨hget, hmeets, hpost⟩, rfl⟩
      obtain ⟨hmem, henabled⟩ := List.mem_filter.1 (List.mem_of_getElem? hget)
      exact ⟨(AlertChannelRow.takes_iff (h.channels d hmem) severity).2 ⟨henabled, hmeets⟩,
        n, hget, hpost⟩
    · rintro ⟨htakes, n, hget, hpost⟩
      have hmem := (List.mem_filter.1 (List.mem_of_getElem? hget)).1
      exact ⟨c, n, ⟨hget, ((AlertChannelRow.takes_iff (h.channels c hmem) severity).1 htakes).2,
        hpost⟩, rfl⟩
  · simp [hchannels]

/-- **Deliveries.**  In every state reached, an alert that is recorded by a process that does not
stop goes to the webhook of the configuration, where its severity is due there, and then, if the
query for the channels goes through, in the order of their ids to exactly the enabled channels from
whose minimum severity on it is and whose own call goes through: what becomes of the other calls
makes no difference to a channel. -/
theorem alert_delivered {s : System} (hreach : System.Reachable webhook s) (env : RecordEnv)
    (a : PendingAlert) (hinsert : env.insertAlert = .ok)
    (hstop : Unstopped (dueCalls env webhook a s.store.db)) :
    ∃ channels : List AlertChannelRow,
      (record env webhook a s.world).2.posts =
        s.posts ++ (sent (legacyCall env webhook a) ++ channels.map (channelPost a)) ∧
      (channels.map (·.id)).Pairwise (· < ·) ∧
      ∀ c, c ∈ channels ↔ env.channels = .ok ∧ c.Takes a.severity ∧
        ∃ n, (listEnabledAlertChannels s.store.db)[n]? = some c ∧ env.post n = .ok := by
  refine ⟨delivered env a.severity s.store.db, ?_, ?_, fun c => mem_delivered hreach.configured⟩
  · rw [record_eq hinsert]
    show s.posts ++ sent (dueCalls env webhook a s.store.db) = _
    rw [sent_dueCalls hstop]
  · have hsub := (delivered_sublist env a.severity s.store.db).map (·.id)
    exact hreach.keyed.channelIds.1.sublist hsub

end Lumina

/-! ### Two channels and a rule -/

namespace Lumina.Sample

open Lumina.Trace

/-- A request of the operator. -/
def opsRequest (path body : String) : Request :=
  ⟨.post, [path], "", [⟨"X-Admin-Key", asBytes "s3cret"⟩], asBytes body⟩

def opsDeployment : Deployment where
  codec := codec
  config := Config.default
  server := adminServer
  extract := { extractItem with
    newAlertChannel := fun req =>
      if req.body = asBytes "ops" then
        .ok ("ops", "discord", "https://ops.example/hook", some "info", none)
      else .ok ("oncall", "slack", "https://oncall.example/hook", some "critical", none)
    newAlertRule := fun _ =>
      .ok (⟨"thin pool", "liquidity_drop_pct", some "0a", none, 25, true⟩, none) }

/-- The operator makes two channels and a rule. -/
def opsEvents : List SystemEvent :=
  [.request requestEnv (opsRequest "alert-channels" "ops"),
    .request requestEnv (opsRequest "alert-rules" "thin pool"),
    .request requestEnv (opsRequest "alert-channels" "oncall")]

def opsSystem : System := run (System.step opsDeployment) System.empty opsEvents

def opsAlert : PendingAlert := ⟨"whale_payment", .info, [.str "large payment"], []⟩

/-- The rule is valid, and its threshold is the one in use. -/
theorem ops_configured : opsSystem.store.Configured ∧
    0 < RuleTarget.effective (listAlertRules opsSystem.store.db) 30 (.liquidity "0a") ∧
    RuleTarget.effective (listAlertRules opsSystem.store.db) 30 (.liquidity "0a") = 25 := by
  have h := system_configured opsDeployment opsEvents (.liquidity "0a") 30 (by norm_num)
  exact ⟨h.1, h.2, by decide +kernel⟩

def opsChannel : AlertChannelRow := ⟨1, "ops", "discord", "https://ops.example/hook", "info", true⟩

def oncallChannel : AlertChannelRow :=
  ⟨2, "oncall", "slack", "https://oncall.example/hook", "critical", true⟩

/-- The one channel takes the alert, and the other only critical ones. -/
theorem ops_delivered :
    (record (.clean 9) Config.default.webhook opsAlert opsSystem.world).2.posts =
      [channelPost opsAlert opsChannel] := by
  have hreach : System.Reachable Config.default.webhook opsSystem :=
    @System.Reachable.run opsDeployment _ .refl opsEvents
  obtain ⟨channels, hposts, hids, hmem⟩ :=
    alert_delivered hreach (.clean 9) opsAlert rfl (by decide +kernel)
  have henabled : listEnabledAlertChannels opsSystem.store.db = [opsChannel, oncallChannel] := by
    decide +kernel
  rw [henabled] at hmem
  have hops : opsChannel ∈ channels :=
    (hmem opsChannel).2 ⟨rfl, ⟨rfl, .info, by decide, le_rfl⟩, 0, rfl, rfl⟩
  have honly : ∀ c ∈ channels, c = opsChannel := by
    intro c hc
    obtain ⟨-, ⟨-, least, hleast, hrank⟩, n, hn, -⟩ := (hmem c).1 hc
    rcases List.mem_pair.1 (List.mem_of_getElem? hn) with rfl | rfl
    · rfl
    · obtain rfl : Severity.critical = least := Option.some.inj hleast
      exact absurd hrank (by decide)
  -- the ids are different, so the channel is there once
  have hchannels : channels = [opsChannel] := by
    have hnodup : channels.Nodup := List.Nodup.of_map AlertChannelRow.id (hids.imp Nat.ne_of_lt)
    exact List.perm_singleton.1 ((List.perm_ext_iff_of_nodup hnodup (List.nodup_singleton _)).2
      fun c => ⟨fun hc => List.mem_singleton.2 (honly c hc),
        fun hc => List.mem_singleton.1 hc ▸ hops⟩)
  rw [hposts, hchannels]
  decide +kernel

end Lumina.Sample
