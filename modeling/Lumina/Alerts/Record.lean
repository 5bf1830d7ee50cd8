import Lumina.Model.Ingest

/-!
# What recording an alert does to the database

`record` inserts one row into `alerts`, or fails to, and changes nothing else in the database:
the deliveries only send messages (`record_db`).  It never panics (`panicFree_record`).  The loop
over pending alerts therefore only adds to `alerts` (`within_recordAll`).
-/

namespace Lumina

/-- The database stays as it is. -/
def SameDb (w w' : World) : Prop := w'.db = w.db

instance : IsPreorder World SameDb where
  refl _ := rfl
  trans _ _ _ h h' := h'.trans h

theorem within_postTo (f : Fault) (p : Post) : Proc.Within SameDb (postTo f p) :=
  Proc.within_await fun _ => rfl

theorem within_deliverLegacyWebhook (env : RecordEnv) (config : WebhookConfig)
    (severity : Severity) (message : Text) :
    Proc.Within SameDb (deliverLegacyWebhook env config severity message) := by
  unfold deliverLegacyWebhook
  split
  · exact Proc.within_pure ()
  · split_ifs
    · exact (within_postTo _ _).attempt.bind fun _ => Proc.within_pure ()
    · exact Proc.within_pure ()

theorem within_deliverToChannels (env : RecordEnv) (severity : Severity) (message : Text) :
    Proc.Within SameDb (deliverToChannels env severity message) := by
  refine within_fetch.attempt.bind ?_
  intro r
  cases r with
  | error e => exact Proc.within_pure ()
  | ok channels =>
    refine Proc.within_foldlM (fun _ c => ?_) _ _
    obtain ⟨channel, n⟩ := c
    simp only
    split_ifs
    · exact (within_postTo _ _).attempt.bind fun _ => Proc.within_pure ()
    · exact Proc.within_pure ()

/-- **Recording an alert inserts its row, or leaves the database as it is.** -/
theorem record_db (env : RecordEnv) (config : WebhookConfig) (a : PendingAlert) (w : World) :
    (record env config a w).2.db =
      if env.insertAlert = .ok then
        insertAlert env.now a.kind a.severity.asStr a.message a.details w.db
      else w.db := by
  have hdeliver : Proc.Within SameDb (do
      deliverLegacyWebhook env config a.severity a.message
      deliverToChannels env a.severity a.message
      let _ ← (notifyEvent env a).attempt) := by
    refine (within_deliverLegacyWebhook env config a.severity a.message).bind fun _ => ?_
    refine (within_deliverToChannels env a.severity a.message).bind fun _ => ?_
    have hnotify : Proc.Within SameDb (notifyEvent env a) := Proc.within_await fun _ => rfl
    exact hnotify.attempt.bind fun _ => Proc.within_pure ()
  unfold record exec
  rw [Proc.bind_apply]
  cases h : env.insertAlert with
  | ok => exact hdeliver _
  | fail => simp
  | stop => simp

/-! ### No panic -/

theorem panicFree_deliverLegacyWebhook (env : RecordEnv) (config : WebhookConfig)
    (severity : Severity) (message : Text) :
    Proc.PanicFree (deliverLegacyWebhook env config severity message) := by
  unfold deliverLegacyWebhook
  split
  · exact Proc.panicFree_pure ()
  · split_ifs
    · exact (Proc.panicFree_await _ _ _).attempt.bind fun _ => Proc.panicFree_pure ()
    · exact Proc.panicFree_pure ()

theorem panicFree_deliverToChannels (env : RecordEnv) (severity : Severity) (message : Text) :
    Proc.PanicFree (deliverToChannels env severity message) := by
  have hfetch : Proc.PanicFree (fetch env.channels listEnabledAlertChannels) :=
    Proc.panicFree_await _ _ _
  refine hfetch.attempt.bind fun r => ?_
  cases r with
  | error e => exact Proc.panicFree_pure ()
  | ok channels =>
    refine Proc.panicFree_foldlM (fun _ c => ?_) _ _
    obtain ⟨channel, n⟩ := c
    simp only
    split_ifs
    · exact (Proc.panicFree_await _ _ _).attempt.bind fun _ => Proc.panicFree_pure ()
    · exact Proc.panicFree_pure ()

/-- Recording an alert never panics. -/
theorem panicFree_record (env : RecordEnv) (config : WebhookConfig) (a : PendingAlert) :
    Proc.PanicFree (record env config a) := by
  refine (Proc.panicFree_await _ _ _).bind fun _ => ?_
  refine (panicFree_deliverLegacyWebhook env config a.severity a.message).bind fun _ => ?_
  refine (panicFree_deliverToChannels env a.severity a.message).bind fun _ => ?_
  exact (Proc.panicFree_await _ _ _).attempt.bind fun _ => Proc.panicFree_pure ()

/-! ### New alerts -/

/-- Nothing but new alerts. -/
def AlertsGrow (w w' : World) : Prop :=
  ∃ new seq, w'.db = { w.db with alerts := w.db.alerts ++ new, alertSeq := seq }

instance : IsPreorder World AlertsGrow where
  refl w := ⟨[], w.db.alertSeq, by simp⟩
  trans w₁ w₂ w₃ := by
    rintro ⟨new, seq, h⟩ ⟨new', seq', h'⟩
    exact ⟨new ++ new', seq', by rw [h', h, List.append_assoc]⟩

theorem AlertsGrow.whaleTransactions {w w' : World} (h : AlertsGrow w w') :
    w'.db.whaleTransactions = w.db.whaleTransactions := by
  obtain ⟨new, seq, h⟩ := h
  rw [h]

theorem AlertsGrow.ingestState {w w' : World} (h : AlertsGrow w w') :
    w'.db.ingestState = w.db.ingestState := by
  obtain ⟨new, seq, h⟩ := h
  rw [h]

theorem within_record (env : RecordEnv) (config : WebhookConfig) (a : PendingAlert) :
    Proc.Within AlertsGrow (record env config a) := by
  intro w
  have hdb := record_db env config a w
  split_ifs at hdb with hok
  · exact ⟨_, _, hdb⟩
  · exact ⟨[], w.db.alertSeq, by simp [hdb]⟩

theorem within_recordAll (env : ℕ → RecordEnv) (config : WebhookConfig)
    (pending : List PendingAlert) : Proc.Within AlertsGrow (recordAll env config pending) := by
  refine Proc.within_foldlM (fun _ c => ?_) _ _
  obtain ⟨alert, i⟩ := c
  exact (within_record _ _ _).attempt.bind fun _ => Proc.within_pure ()

/-- The loop itself returns no error. -/
theorem recordAll_ne_err (env : ℕ → RecordEnv) (config : WebhookConfig)
    (pending : List PendingAlert) (w : World) (e : Error) :
    (recordAll env config pending w).1 ≠ .err e := by
  unfold recordAll
  generalize pending.zipIdx = l
  induction l generalizing w with
  | nil => simp
  | cons c l ih =>
    obtain ⟨alert, i⟩ := c
    rw [List.foldlM_cons, Proc.bind_apply]
    simp only [Proc.bind_apply, Proc.attempt_apply]
    generalize record (env i) config alert w = r
    obtain ⟨o, w₁⟩ := r
    cases o with
    | ret u => exact ih w₁
    | err e => exact ih w₁
    | stop => simp
    | panic => simp

/-! ### The alerts that the loop inserts -/

/-- What an alert says. -/
abbrev Content := String × String × Text × Json

def AlertRow.content (a : AlertRow) : Content := (a.kind, a.severity, a.message, a.details)

def PendingAlert.content (a : PendingAlert) : Content :=
  (a.kind, a.severity.asStr, a.message, a.details)

/-- The loop over numbered alerts. -/
def recordLoop (env : ℕ → RecordEnv) (config : WebhookConfig) (l : List (PendingAlert × ℕ)) :
    Proc World Error Unit :=
  l.foldlM (fun _ (alert, i) => do
    let _ ← (record (env i) config alert).attempt) ()

theorem recordAll_eq (env : ℕ → RecordEnv) (config : WebhookConfig)
    (pending : List PendingAlert) :
    recordAll env config pending = recordLoop env config pending.zipIdx := rfl

/-- Every alert of the loop is inserted: no insertion fails, and the process is not cut off
before the last one. -/
def AllRecorded (env : ℕ → RecordEnv) (config : WebhookConfig) :
    List (PendingAlert × ℕ) → World → Prop
  | [], _ => True
  | (a, i) :: l, w => (env i).insertAlert = .ok ∧ (l = [] ∨ ¬ (record (env i) config a).CutOff w) ∧
      AllRecorded env config l (record (env i) config a w).2

/-- Where every call goes through, recording an alert returns. -/
theorem returns_record_clean (now : Time) (config : WebhookConfig) (a : PendingAlert) :
    Proc.Returns (record (.clean now) config a) := by
  have hlegacy : Proc.Returns (deliverLegacyWebhook (.clean now) config a.severity a.message) := by
    unfold deliverLegacyWebhook
    split
    · exact Proc.returns_pure ()
    · split_ifs
      · exact (Proc.returns_await _ _).attempt.bind fun _ => Proc.returns_pure ()
      · exact Proc.returns_pure ()
  have hchannels : Proc.Returns (deliverToChannels (.clean now) a.severity a.message) := by
    refine (Proc.returns_await _ _).attempt.bind ?_
    intro r
    cases r with
    | error e => exact Proc.returns_pure ()
    | ok channels =>
      refine Proc.returns_foldlM (fun _ c => ?_) _ _
      obtain ⟨channel, n⟩ := c
      simp only
      split_ifs
      · exact (Proc.returns_await _ _).attempt.bind fun _ => Proc.returns_pure ()
      · exact Proc.returns_pure ()
  refine (Proc.returns_await _ _).bind fun _ => hlegacy.bind fun _ => hchannels.bind fun _ => ?_
  exact (Proc.returns_await _ _).attempt.bind fun _ => Proc.returns_pure ()

/-- Where every call goes through, every alert is inserted. -/
theorem allRecorded_clean (now : Time) (config : WebhookConfig) (l : List (PendingAlert × ℕ))
    (w : World) : AllRecorded (fun _ => .clean now) config l w := by
  induction l generalizing w with
  | nil => trivial
  | cons c l ih =>
    exact ⟨rfl, .inr ((returns_record_clean now config c.1).not_cutOff w), ih _⟩

theorem recordLoop_cons (env : ℕ → RecordEnv) (config : WebhookConfig) (a : PendingAlert) (i : ℕ)
    (l : List (PendingAlert × ℕ)) (w : World) :
    ((record (env i) config a).CutOff w ∧
        (recordLoop env config ((a, i) :: l) w).2 = (record (env i) config a w).2) ∨
      (¬ (record (env i) config a).CutOff w ∧ recordLoop env config ((a, i) :: l) w =
        recordLoop env config l (record (env i) config a w).2) := by
  unfold recordLoop Proc.CutOff
  rw [List.foldlM_cons, Proc.bind_apply]
  simp only [Proc.bind_apply, Proc.attempt_apply]
  generalize record (env i) config a w = r
  obtain ⟨o, w₁⟩ := r
  cases o with
  | ret u => exact .inr ⟨by simp, rfl⟩
  | err e => exact .inr ⟨by simp, rfl⟩
  | stop => exact .inl ⟨.inl rfl, rfl⟩
  | panic => exact .inl ⟨.inr rfl, rfl⟩

/-- The row that recording one alert adds, if it is inserted. -/
theorem record_alerts (env : RecordEnv) (config : WebhookConfig) (a : PendingAlert) (w : World) :
    ∃ new, (record env config a w).2.db.alerts = w.db.alerts ++ new ∧
      (env.insertAlert = .ok ∧ new.map (·.content) = [a.content] ∨
        env.insertAlert ≠ .ok ∧ new = []) := by
  have hdb := record_db env config a w
  split_ifs at hdb with hok
  · exact ⟨_, by rw [hdb]; rfl, .inl ⟨hok, rfl⟩⟩
  · exact ⟨[], by rw [hdb, List.append_nil], .inr ⟨hok, rfl⟩⟩

/-- **What the loop inserts**: some of its alerts in their order, and as many as there are
exactly if every insertion is reached and goes through. -/
theorem recordLoop_alerts (env : ℕ → RecordEnv) (config : WebhookConfig)
    (l : List (PendingAlert × ℕ)) (w : World) :
    ∃ new, (recordLoop env config l w).2.db.alerts = w.db.alerts ++ new ∧
      (new.map (·.content)).Sublist (l.map (·.1.content)) ∧
      (new.length = l.length ↔ AllRecorded env config l w) := by
  induction l generalizing w with
  | nil => exact ⟨[], by simp [recordLoop], by simp, by simp [AllRecorded]⟩
  | cons c l ih =>
    obtain ⟨a, i⟩ := c
    obtain ⟨head, hhead, hcases⟩ := record_alerts (env i) config a w
    have hsub : (head.map (·.content)).Sublist [a.content] := by
      rcases hcases with ⟨-, h⟩ | ⟨-, h⟩
      · rw [h]
      · rw [h]
        exact List.nil_sublist _
    have hlen : head.length ≤ 1 ∧ (head.length = 1 ↔ (env i).insertAlert = .ok) := by
      rcases hcases with ⟨hok, h⟩ | ⟨hne, h⟩
      · have hone : head.length = 1 := by simpa using congrArg List.length h
        exact ⟨hone.le, iff_of_true hone hok⟩
      · exact ⟨by simp [h], iff_of_false (by simp [h]) hne⟩
    rcases recordLoop_cons env config a i l w with ⟨hcut, hw⟩ | ⟨hcut, hw⟩
    · refine ⟨head, by rw [hw, hhead], ?_, ?_⟩
      · exact hsub.trans (List.cons_sublist_cons.2 (List.nil_sublist _))
      · -- the process ends here, so this must be the last alert
        simp only [AllRecorded, hcut, not_true, or_false, List.length_cons]
        constructor
        · intro h
          have hl : l.length = 0 := by omega
          obtain rfl := List.eq_nil_of_length_eq_zero hl
          exact ⟨hlen.2.1 (by simpa using h), rfl, trivial⟩
        · rintro ⟨hok, rfl, -⟩
          simpa using hlen.2.2 hok
    · obtain ⟨new, hnew, hsubl, hall⟩ := ih (record (env i) config a w).2
      refine ⟨head ++ new, by rw [hw, hnew, hhead, List.append_assoc], ?_, ?_⟩
      · rw [List.map_append]
        exact hsub.append hsubl
      · have hle : new.length ≤ l.length := by simpa using hsubl.length_le
        simp only [AllRecorded, hcut, not_false_eq_true, or_true, true_and, List.length_append,
          List.length_cons, ← hall, ← hlen.2]
        omega

/-- The alerts that a cycle inserts for its pending ones. -/
theorem recordAll_alerts (env : ℕ → RecordEnv) (config : WebhookConfig)
    (pending : List PendingAlert) (w : World) :
    ∃ new, (recordAll env config pending w).2.db.alerts = w.db.alerts ++ new ∧
      (new.map (·.content)).Sublist (pending.map (·.content)) ∧
      (new.map (·.content) = pending.map (·.content) ↔
        AllRecorded env config pending.zipIdx w) := by
  obtain ⟨new, hnew, hsub, hall⟩ := recordLoop_alerts env config pending.zipIdx w
  have hcontent : pending.zipIdx.map (·.1.content) = pending.map (·.content) := by
    conv_rhs => rw [← List.zipIdx_map_fst 0 pending, List.map_map]
    rfl
  rw [hcontent] at hsub
  refine ⟨new, by rw [recordAll_eq, hnew], hsub, ?_⟩
  rw [← hall, List.length_zipIdx]
  constructor
  · intro h
    simpa using congrArg List.length h
  · intro h
    exact hsub.eq_of_length (by simpa using h)

end Lumina
