import Lumina.Alerts.Record

/-!
# What recording an alert sends out

After its row is inserted an alert is posted to the webhook of the configuration and to every
enabled channel whose minimum severity it meets, and then published as a live event.  Each of
these calls is made whatever became of the ones before it, unless the process stops: the messages
that go out are those of the calls that go through (`record_eq`).

## Main definitions

* `dueCalls` : the calls that follow the insertion, each with the message it posts.
* `sent` : the messages that go out.
* `Notification`s of alerts: `AlertRow.event`, `PendingAlert.event`.
-/

namespace Lumina

variable {env : RecordEnv} {config : WebhookConfig} {a : PendingAlert} {w : World}

/-- A call to a webhook, or the query for the channels, which posts nothing. -/
abbrev DueCall := Fault × Option Post

/-- The call to the webhook of the configuration, where the alert is due there. -/
def legacyCall (env : RecordEnv) (config : WebhookConfig) (a : PendingAlert) : List DueCall :=
  match config.alertWebhookUrl with
  | none => []
  | some url =>
    if meetsMinSeverity a.severity config.alertMinSeverity then
      [(env.legacy, some ⟨url, "text", alertText a.severity a.message⟩)]
    else []

/-- The message of an alert to a channel. -/
def channelPost (a : PendingAlert) (channel : AlertChannelRow) : Post :=
  ⟨channel.url, payloadField channel.kind, alertText a.severity a.message⟩

/-- The call to one channel, numbered among the enabled ones, where the alert is due there. -/
def channelCall (env : RecordEnv) (a : PendingAlert) (c : AlertChannelRow × ℕ) : List DueCall :=
  if meetsMinSeverity a.severity c.1.minSeverity then [(env.post c.2, some (channelPost a c.1))]
  else []

/-- The calls that follow the insertion of an alert. -/
def dueCalls (env : RecordEnv) (config : WebhookConfig) (a : PendingAlert) (db : Db) :
    List DueCall :=
  legacyCall env config a ++ (env.channels, none) ::
    if env.channels = .ok then (listEnabledAlertChannels db).zipIdx.flatMap (channelCall env a)
    else []

/-- The process goes through all the calls: none of them stops it. -/
def Unstopped (calls : List DueCall) : Prop := ∀ c ∈ calls, c.1 ≠ .stop

instance (calls : List DueCall) : Decidable (Unstopped calls) :=
  inferInstanceAs (Decidable (∀ c ∈ calls, c.1 ≠ .stop))

@[simp] theorem unstopped_nil : Unstopped [] := nofun

@[simp] theorem unstopped_cons {c : DueCall} {calls : List DueCall} :
    Unstopped (c :: calls) ↔ c.1 ≠ .stop ∧ Unstopped calls := List.forall_mem_cons

@[simp] theorem unstopped_append {calls calls' : List DueCall} :
    Unstopped (calls ++ calls') ↔ Unstopped calls ∧ Unstopped calls' := List.forall_mem_append

/-- The messages that go out: those of the calls that go through, up to where the process stops. -/
def sent (calls : List DueCall) : List Post :=
  (calls.takeWhile (·.1 ≠ .stop)).filterMap fun c => if c.1 = .ok then c.2 else none

theorem sent_cons_stop {p : Option Post} {calls : List DueCall} :
    sent ((.stop, p) :: calls) = [] := by
  simp [sent]

theorem sent_cons_of_ne {f : Fault} (hf : f ≠ .stop) {p : Option Post} {calls : List DueCall} :
    sent ((f, p) :: calls) = (if f = .ok then p else none).toList ++ sent calls := by
  unfold sent
  rw [List.takeWhile_cons_of_pos (by simpa using hf), List.filterMap_cons]
  cases (if f = .ok then p else none) <;> rfl

theorem sent_of_unstopped {calls : List DueCall} (h : Unstopped calls) :
    sent calls = calls.filterMap fun c => if c.1 = .ok then c.2 else none := by
  unfold sent
  rw [List.takeWhile_eq_self_iff.2 fun c hc => by simpa using h c hc]

theorem sent_append (calls calls' : List DueCall) :
    sent (calls ++ calls') = sent calls ++ if Unstopped calls then sent calls' else [] := by
  induction calls with
  | nil => simp [sent]
  | cons c calls ih =>
    obtain ⟨f, p⟩ := c
    by_cases hf : f = .stop
    · subst hf
      simp [sent_cons_stop]
    · rw [List.cons_append, sent_cons_of_ne hf, sent_cons_of_ne hf, ih, List.append_assoc]
      simp [hf]

/-! ### Calls whose errors are only logged -/

/-- A process that posts the messages of some calls one after the other, whatever becomes of
them. -/
def Posts (m : Proc World Error Unit) (calls : Db → List DueCall) : Prop :=
  ∀ w, m w = (if Unstopped (calls w.db) then .ret () else .stop,
    { w with posts := w.posts ++ sent (calls w.db) })

theorem posts_pure : Posts (pure ()) fun _ => [] := by
  intro w
  simp [sent]

theorem posts_postTo (f : Fault) (p : Post) :
    Posts (do let _ ← (postTo f p).attempt) fun _ => [(f, some p)] := by
  intro w
  cases f <;> simp [sent, postTo, Proc.bind_apply, Proc.attempt_apply]

theorem Posts.bind {m m' : Proc World Error Unit} {calls calls' : Db → List DueCall}
    (h : Posts m calls) (h' : Posts m' calls') :
    Posts (m >>= fun _ => m') fun db => calls db ++ calls' db := by
  intro w
  rw [Proc.bind_apply, h w]
  by_cases hcalls : Unstopped (calls w.db)
  · simp [hcalls, h' _, sent_append]
  · simp [hcalls, sent_append]

theorem posts_deliverLegacyWebhook :
    Posts (deliverLegacyWebhook env config a.severity a.message)
      fun _ => legacyCall env config a := by
  unfold deliverLegacyWebhook legacyCall
  cases config.alertWebhookUrl with
  | none => exact posts_pure
  | some url =>
    dsimp only
    split_ifs
    · exact posts_postTo _ _
    · exact posts_pure

/-- The loop over numbered channels. -/
theorem posts_channels (l : List (AlertChannelRow × ℕ)) :
    Posts (l.foldlM (fun _ (channel, n) =>
      if meetsMinSeverity a.severity channel.minSeverity then do
        let _ ← (postTo (env.post n)
          ⟨channel.url, payloadField channel.kind, alertText a.severity a.message⟩).attempt
      else pure ()) ()) fun _ => l.flatMap (channelCall env a) := by
  induction l with
  | nil => exact posts_pure
  | cons c l ih =>
    rw [List.foldlM_cons]
    simp only [List.flatMap_cons]
    refine Posts.bind ?_ ih
    unfold channelCall
    split_ifs
    · exact posts_postTo _ _
    · exact posts_pure

theorem posts_deliverToChannels :
    Posts (deliverToChannels env a.severity a.message) fun db =>
      (env.channels, none) ::
        if env.channels = .ok then (listEnabledAlertChannels db).zipIdx.flatMap (channelCall env a)
        else [] := by
  intro w
  unfold deliverToChannels
  rw [Proc.bind_apply, Proc.attempt_apply]
  cases hc : env.channels with
  | ok =>
    have h := @posts_channels env a (listEnabledAlertChannels w.db).zipIdx w
    simpa [fetch, sent_cons_of_ne] using h
  | fail => simp [fetch, sent]
  | stop => simp [fetch, sent]

/-! ### One alert -/

/-- The live event of an alert. -/
def PendingAlert.event (a : PendingAlert) (now : Time) : String × String × Text × Time :=
  (a.kind, a.severity.asStr, a.message, now)

/-- The live event that tells a row. -/
def AlertRow.event (a : AlertRow) : String × String × Text × Time :=
  (a.kind, a.severity, a.message, a.time)

/-- Whether the live event of an alert is published. -/
def Published (env : RecordEnv) (calls : List DueCall) : Prop :=
  Unstopped calls ∧ env.notify = .ok

instance (env : RecordEnv) (calls : List DueCall) : Decidable (Published env calls) :=
  inferInstanceAs (Decidable (_ ∧ _))

/-- **What recording an alert leaves behind**, wherever calls fail or the process stops. -/
theorem record_eq (h : env.insertAlert = .ok) :
    (record env config a w).2 =
      { db := insertAlert env.now a.kind a.severity.asStr a.message a.details w.db
        posts := w.posts ++ sent (dueCalls env config a w.db)
        notified := w.notified ++
          if Published env (dueCalls env config a w.db) then [a.event env.now] else [] } := by
  have hposts : Posts (deliverLegacyWebhook env config a.severity a.message >>= fun _ =>
      deliverToChannels env a.severity a.message) (dueCalls env config a) :=
    posts_deliverLegacyWebhook.bind posts_deliverToChannels
  have hrecord : record env config a =
      exec env.insertAlert (insertAlert env.now a.kind a.severity.asStr a.message a.details) >>=
        fun _ => (deliverLegacyWebhook env config a.severity a.message >>= fun _ =>
          deliverToChannels env a.severity a.message) >>= fun _ =>
            (notifyEvent env a).attempt >>= fun _ => pure () := by
    rw [record]
    simp only [bind_assoc]
  -- the deliveries change no channel
  have hcalls : dueCalls env config a
      (insertAlert env.now a.kind a.severity.asStr a.message a.details w.db) =
        dueCalls env config a w.db := rfl
  rw [hrecord, Proc.bind_apply, exec, h, Proc.await_ok]
  dsimp only
  rw [Proc.bind_apply, hposts]
  dsimp only
  rw [hcalls]
  by_cases hstop : Unstopped (dueCalls env config a w.db)
  · cases hn : env.notify <;>
      simp [hstop, hn, Published, notifyEvent, Proc.bind_apply, Proc.attempt_apply,
        PendingAlert.event]
  · simp [hstop, Published]

/-- An alert that is not inserted leaves nothing behind. -/
theorem record_of_not_inserted (h : env.insertAlert ≠ .ok) : (record env config a w).2 = w := by
  unfold record exec
  rw [Proc.bind_apply]
  cases hf : env.insertAlert with
  | ok => exact absurd hf h
  | fail => rfl
  | stop => rfl

end Lumina
