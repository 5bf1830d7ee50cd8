import Lumina.Alerts.Acknowledged
import Lumina.Model.AlertsPage
import Lumina.System.LiveEvents

/-!
# The button that acknowledges everything shown

The page asks for the alerts that it saw some time ago; meanwhile the ingester and other operators
have gone on.  The request is never too large, it acknowledges exactly what the page shows as
unacknowledged, and the number of the answer is the number on the button (`ackAll_exact`), because
an alert is never removed and has an id of its own.  What was acknowledged stays so until a request
takes it back (`Acked.run`).

## Main definitions

* `AlertsPage.Listed` : the page has what the API answered in a state.
* `Acked` : some alerts are acknowledged.
* `SystemEvent.Undoes` : a request takes the acknowledgement of one of them back.
-/

namespace Lumina

open Relation Trace

namespace AlertsPage

variable {page : AlertsPage} {P : Deployment} {s : System} {a : AlertRow} {id : ℤ}

/-- The page has what the API answered in a state. -/
def Listed (P : Deployment) (s : System) (page : AlertsPage) : Prop :=
  ∃ env rows, (read.handle P.server env s.store).1 = .ret (.json (.alerts rows)) ∧
    page.data = some rows

/-! ### The list -/

/-- The page shows rows that it has. -/
theorem filtered_sublist : page.filtered.Sublist (page.data.getD []) := by
  unfold filtered
  dsimp only
  split_ifs
  all_goals
    first
    | exact List.Sublist.refl _
    | exact List.filter_sublist
    | exact List.filter_sublist.trans List.filter_sublist
    | exact List.filter_sublist.trans (List.filter_sublist.trans List.filter_sublist)

/-- What the API lists. -/
theorem Listed.rows (h : page.Listed P s) : ∃ rows visit, page.data = some rows ∧
    rows = (Sql.orderByDesc visit (·.time) s.store.db.alerts).take 200 := by
  obtain ⟨env, rows, hanswer, hdata⟩ := h
  refine ⟨rows, env.visitAlerts, hdata, ?_⟩
  have hpair : answer (Store.exec env.call fun s => (listAlerts env.visitAlerts 200
        ⟨some 200, none, none, none, none, false⟩ s.db, s)) (fun rows => .json (.alerts rows))
        s.store = (.ret (.json (.alerts rows)), (read.handle P.server env s.store).2) :=
    Prod.ext hanswer rfl
  rcases answer_exec_ret hpair with ⟨hresp, -⟩ | ⟨hresp, -⟩
  · obtain rfl : rows = _ := Body.alerts.inj (Response.mk.inj hresp).2
    simp [listAlerts, detailMatches]
  · exact absurd (Response.mk.inj hresp).1 (by decide)

/-- The rows that are shown are alerts of the state, each one once, and not too many. -/
theorem Listed.filtered (h : page.Listed P s) : page.filtered.length ≤ 200 ∧
    page.filtered.Subperm s.store.db.alerts := by
  obtain ⟨rows, visit, hdata, hrows⟩ := h.rows
  have hsub := @filtered_sublist page
  rw [hdata, Option.getD_some, hrows] at hsub
  refine ⟨hsub.length_le.trans (List.length_take_le _ _), ?_⟩
  exact (hsub.trans (List.take_sublist _ _)).subperm.trans Sql.orderByDesc_perm.subperm

/-- What is not acknowledged is counted. -/
theorem mem_unackedVisible : id ∈ page.unackedVisible ↔
    ∃ a ∈ page.filtered, a.acknowledgedAt = none ∧ (a.id : ℤ) = id := by
  unfold unackedVisible
  simp only [List.mem_map, List.mem_filter, decide_eq_true_eq, and_assoc]

theorem length_unackedVisible (h : page.Listed P s) : page.unackedVisible.length ≤ 200 := by
  rw [unackedVisible, List.length_map]
  exact (List.length_filter_le _ _).trans h.filtered.1

theorem nodup_unackedVisible (h : page.Listed P s)
    (hids : (s.store.db.alerts.map (·.id)).Nodup) : page.unackedVisible.Nodup := by
  have hint : (s.store.db.alerts.map fun a => (a.id : ℤ)).Nodup := by
    have hcast := hids.map (Nat.cast_injective (R := ℤ))
    rwa [List.map_map] at hcast
  obtain ⟨l, hperm, hsub⟩ := (List.filter_sublist.subperm.trans h.filtered.2 :
    (page.filtered.filter fun a => a.acknowledgedAt = none).Subperm s.store.db.alerts)
  exact ((hperm.map fun a => (a.id : ℤ)).nodup_iff).1 (hint.sublist (hsub.map _))

/-! ### The request -/

/-- What a bulk request does that is let through. -/
theorem acknowledgeAlertsBulk_eq {state : AppState} {env : RequestEnv} {headers : HeaderMap}
    {ids : List ℤ} {store : Store} (hguard : guard state headers = none) (hcall : env.call = .ok)
    (hlength : ids.length ≤ 1000) (hne : ids ≠ []) :
    acknowledgeAlertsBulk state env headers ids store =
      (.ret (.json (.acknowledged (acknowledgeAlerts env.now ids store).1)),
        (acknowledgeAlerts env.now ids store).2) := by
  unfold acknowledgeAlertsBulk
  rw [guarded_of_none hguard, if_neg (not_lt.2 hlength), if_neg hne, hcall]
  rfl

theorem id_of_said {a' : AlertRow} (h : a'.said = a.said) : (a'.id : ℤ) = a.id :=
  congrArg Nat.cast (AlertRow.mk.inj h).1

/-- The alerts that the page shows are there later. -/
theorem exists_later {dropped : RetainedTable → Time → Prop} {s' : System} (h : page.Listed P s)
    (hlater : s.History dropped s') (ha : a ∈ page.filtered) :
    ∃ a' ∈ s'.store.db.alerts, a'.said = a.said := by
  have hmem : a.said ∈ s.store.db.alerts.map (·.said) :=
    List.mem_map_of_mem (h.filtered.2.subset ha)
  obtain ⟨a', ha', hsaid⟩ := List.mem_map.1 (hlater.db.alerts.subset hmem)
  exact ⟨a', ha', hsaid⟩

/-- What a bulk acknowledgement does to the alerts. -/
theorem acknowledgeAlerts_eq (now : Time) (ids : List ℤ) (store : Store) :
    (acknowledgeAlerts now ids store).2 = store.withAcks fun a =>
      if (a.id : ℤ) ∈ ids then some (a.acknowledgedAt.getD now) else a.acknowledgedAt := by
  unfold acknowledgeAlerts Store.withAcks
  have hsame : ∀ a : AlertRow, (if (a.id : ℤ) ∈ ids then
        { a with acknowledgedAt := some (a.acknowledgedAt.getD now) } else a) =
      { a with acknowledgedAt :=
        if (a.id : ℤ) ∈ ids then some (a.acknowledgedAt.getD now) else a.acknowledgedAt } := by
    intro a
    split_ifs <;> rfl
  simp only [hsame]

/-- It counts what it names, where each id is there and named once. -/
theorem acknowledgeAlerts_fst {now : Time} {ids : List ℤ} {store : Store}
    (hids : (store.db.alerts.map (·.id)).Nodup) (hnodup : ids.Nodup)
    (hthere : ∀ id ∈ ids, ∃ a ∈ store.db.alerts, (a.id : ℤ) = id) :
    (acknowledgeAlerts now ids store).1 = ids.length := by
  rw [acknowledgeAlerts_count hids, Finset.filter_true_of_mem fun id hid =>
    hthere id (List.mem_toFinset.1 hid), List.toFinset_card_of_nodup hnodup]

end AlertsPage

/-! ### Later -/

/-- Each of the ids is that of an alert that is acknowledged. -/
def Acked (ids : List ℤ) (s : Store) : Prop :=
  ∀ id ∈ ids, ∃ a ∈ s.db.alerts, (a.id : ℤ) = id ∧ a.acknowledgedAt.isSome

/-- They stay acknowledged. -/
def KeepsAcked (ids : List ℤ) (s s' : Store) : Prop := Acked ids s → Acked ids s'

instance (ids : List ℤ) : IsPreorder Store (KeepsAcked ids) where
  refl _ := id
  trans _ _ _ h h' := h' ∘ h

/-- The event takes the acknowledgement of one of the ids back. -/
def SystemEvent.Undoes (P : Deployment) (ids : List ℤ) : SystemEvent → Prop
  | .cycle _ => False
  | .request _ req => ∃ id ∈ ids, parseRequest P.extract req = .write (.unacknowledgeAlert id)
  | .retention _ => False

section Later

variable {ids : List ℤ} {s s' : Store}

theorem KeepsAcked.of_grown (h : s.db.alerts <+: s'.db.alerts) : KeepsAcked ids s s' := by
  intro hs id hid
  obtain ⟨a, ha, hacked⟩ := hs id hid
  exact ⟨a, h.subset ha, hacked⟩

theorem KeepsAcked.of_eq (h : s'.db.alerts = s.db.alerts) : KeepsAcked ids s s' :=
  .of_grown (by rw [h])

/-- A change of the alerts that leaves what is acknowledged of the ids. -/
theorem KeepsAcked.of_map {f : AlertRow → AlertRow} (hid : ∀ a, (f a).id = a.id)
    (hacked : ∀ a : AlertRow, (a.id : ℤ) ∈ ids → a.acknowledgedAt.isSome →
      (f a).acknowledgedAt.isSome) (h : s'.db.alerts = s.db.alerts.map f) :
    KeepsAcked ids s s' := by
  intro hs id hid'
  obtain ⟨a, ha, rfl, hsome⟩ := hs id hid'
  exact ⟨f a, h ▸ List.mem_map_of_mem ha, by rw [hid], hacked a hid' hsome⟩

/-- A request that writes keeps them acknowledged, unless it undoes one of them. -/
theorem keepsAcked_write {state : AppState} {env : RequestEnv} {headers : HeaderMap}
    (w : WriteRequest) (h : ∀ id ∈ ids, w ≠ .unacknowledgeAlert id) :
    Proc.Within (KeepsAcked ids) (w.handle state env headers) := by
  cases w with
  | acknowledgeAlert id =>
    refine within_guarded (within_answer (within_storeExec fun s =>
      .of_map (fun a => ?_) (fun a _ hsome => ?_) rfl))
    · split_ifs <;> rfl
    · split_ifs
      · rfl
      · exact hsome
  | unacknowledgeAlert id =>
    refine within_guarded (within_answer (within_storeExec fun s =>
      .of_map (fun a => ?_) (fun a hid hsome => ?_) rfl))
    · split_ifs <;> rfl
    · rw [if_neg fun heq => h _ hid (by rw [heq])]
      exact hsome
  | acknowledgeAlertsBulk ids' =>
    refine within_guarded ?_
    split_ifs
    · exact Proc.within_pure _
    · exact Proc.within_pure _
    · refine within_answer (within_storeExec fun s =>
        .of_map (fun a => ?_) (fun a _ hsome => ?_) rfl)
      · split_ifs <;> rfl
      · split_ifs
        · rfl
        · exact hsome
  | createAlertChannel body =>
    refine within_guarded ?_
    have hinsert : Proc.Within (KeepsAcked ids) (Store.exec env.call (insertAlertChannel body.name
        body.kind body.url body.minSeverity body.enabled)) := by
      refine within_storeExec fun s => .of_eq ?_
      unfold insertAlertChannel
      dsimp only
      split_ifs <;> rfl
    split
    · exact Proc.within_pure _
    split
    · exact Proc.within_pure _
    split
    · exact Proc.within_pure _
    split
    · exact Proc.within_pure _
    refine within_answer (hinsert.bind fun row => ?_)
    cases row with
    | some row => exact Proc.within_pure _
    | none => exact Proc.within_lift _
  | deleteAlertChannel id =>
    exact within_guarded (within_answer (within_storeExec fun s => .of_eq rfl))
  | createAlertRule body =>
    refine within_guarded ?_
    split
    · exact Proc.within_pure _
    · exact within_answer (within_storeExec fun s => .of_eq rfl)
  | updateAlertRule id body =>
    refine within_guarded ?_
    split_ifs
    · exact Proc.within_pure _
    · exact within_answer (within_storeExec fun s => .of_eq rfl)
  | deleteAlertRule id =>
    exact within_guarded (within_answer (within_storeExec fun s => .of_eq rfl))
  | createWatchlistItem body =>
    refine within_guarded ?_
    split
    · exact Proc.within_pure _
    split
    · exact Proc.within_pure _
    split
    · exact Proc.within_pure _
    refine within_answer (within_storeExec fun s => .of_eq ?_)
    unfold upsertWatchlistItem
    dsimp only
    split <;> rfl
  | deleteWatchlistItem id =>
    exact within_guarded (within_answer (within_storeExec fun s => .of_eq rfl))

theorem keepsAcked_serve (P : Deployment) (env : RequestEnv) {req : Request}
    (h : ¬ (SystemEvent.request env req).Undoes P ids) :
    Proc.Within (KeepsAcked ids) (serve P.server P.extract env req) := by
  refine Proc.Within.bind ?_ fun resp => Proc.within_pure _
  unfold handleRequest
  split
  · exact fun s => .of_eq (by rw [(within_read _ _ _ s).1])
  · rename_i w hparse
    exact keepsAcked_write w fun id hid heq => h ⟨id, hid, heq ▸ hparse⟩
  · exact Proc.within_pure _

/-- **What is acknowledged stays so** until a request undoes it. -/
theorem Acked.run {P : Deployment} {s : System} {later : List SystemEvent} (hs : Acked ids s.store)
    (h : ∀ e ∈ later, ¬ e.Undoes P ids) :
    Acked ids (Trace.run (System.step P) s later).store := by
  induction later generalizing s with
  | nil => exact hs
  | cons e later ih =>
    obtain ⟨he, hlater⟩ := List.forall_mem_cons.1 h
    have hkeeps : KeepsAcked ids s.store (s.step P e).store := by
      cases e with
      | cycle env =>
        have hevents : AccountsEvents _ s.world (s.step P (.cycle env)).world :=
          events_ingestCycle env s.world
        obtain ⟨⟨new, -, halerts, -⟩, -⟩ := hevents
        exact .of_grown ⟨new, halerts.symm⟩
      | request env req => exact keepsAcked_serve P env he s.store
      | retention job =>
        have halerts : (job.drop s.store.db).alerts = s.store.db.alerts := by
          rcases job.drop_cases s.store.db with ⟨rows, -, hdb⟩ | ⟨rows, -, hdb⟩ <;> rw [hdb]
        exact .of_eq halerts
    exact ih (hkeeps hs) hlater

end Later

namespace AlertsPage

/-- A bulk acknowledgement acknowledges the alerts that are there. -/
theorem acked_acknowledgeAlerts {now : Time} {ids : List ℤ} {store : Store}
    (hthere : ∀ id ∈ ids, ∃ a ∈ store.db.alerts, (a.id : ℤ) = id) :
    Acked ids (acknowledgeAlerts now ids store).2 := by
  intro id hid
  obtain ⟨a, ha, rfl⟩ := hthere id hid
  rw [acknowledgeAlerts_eq]
  exact ⟨_, List.mem_map_of_mem ha, rfl, by simp [hid]⟩

/-- No page shows an acknowledged alert as unacknowledged. -/
theorem Listed.not_mem_unackedVisible {P : Deployment} {s : System} {page : AlertsPage}
    {ids : List ℤ} {id : ℤ} (h : page.Listed P s) (hids : (s.store.db.alerts.map (·.id)).Nodup)
    (hacked : Acked ids s.store) (hid : id ∈ ids) : id ∉ page.unackedVisible := by
  intro hshown
  -- the row that is shown is the one that is acknowledged
  obtain ⟨a, ha, hnone, rfl⟩ := mem_unackedVisible.1 hshown
  obtain ⟨a', ha', hsame, hsome⟩ := hacked _ hid
  obtain rfl : a' = a := List.inj_on_of_nodup_map hids ha'
    (h.filtered.2.subset ha) (Nat.cast_injective hsame)
  simp [hnone] at hsome

/-- **Ack all visible.**  The page was read in some state, and the button is pressed after any
writes of the ingester and of other requests.  The answer counts what the button counts; every
alert that the page shows as unacknowledged is acknowledged, the others are as they were, and until
a request takes one of these acknowledgements back no page that is read later shows one of them as
unacknowledged. -/
theorem ackAll_exact (P : Deployment) {s₀ s : System}
    (hreach : System.Reachable P.config.webhook s₀)
    (hreaches : ReflTransGen (System.Step P.config.webhook) s₀ s) {page : AlertsPage}
    (hlist : page.Listed P s₀) {req : WriteRequest} (hclick : page.acknowledgeAllVisible = some req)
    {env : RequestEnv} {headers : HeaderMap} (hguard : guard P.server.state headers = none)
    (hcall : env.call = .ok) :
    ∃ s', req.handle P.server.state env headers s.store =
        (.ret (.json (.acknowledged page.unackedVisible.length)), s') ∧
      s' = s.store.withAcks (fun a => if (a.id : ℤ) ∈ page.unackedVisible then
        some (a.acknowledgedAt.getD env.now) else a.acknowledgedAt) ∧
      (∀ row ∈ page.filtered, ∃ a ∈ s'.db.alerts, a.said = row.said ∧
        (row.acknowledgedAt = none → a.acknowledgedAt.isSome)) ∧
      ∀ later : List SystemEvent, (∀ e ∈ later, ¬ e.Undoes P page.unackedVisible) →
        ∀ page' : AlertsPage, page'.Listed P (run (System.step P) { s with store := s' } later) →
          ∀ id ∈ page.unackedVisible, id ∉ page'.unackedVisible := by
  have hkeyed := (System.Reachable.keyed (hreach.trans hreaches)).db.alertIds.nodup
  have hkeyed₀ := hreach.keyed.db.alertIds.nodup
  have hlater := System.history_of_reaches hreaches
  have hthere : ∀ id ∈ page.unackedVisible, ∃ a ∈ s.store.db.alerts, (a.id : ℤ) = id := by
    intro id hid
    obtain ⟨row, hrow, -, rfl⟩ := mem_unackedVisible.1 hid
    obtain ⟨a, ha, hsaid⟩ := exists_later hlist hlater hrow
    exact ⟨a, ha, id_of_said hsaid⟩
  have hcount : (acknowledgeAlerts env.now page.unackedVisible s.store).1 =
      page.unackedVisible.length :=
    acknowledgeAlerts_fst hkeyed (nodup_unackedVisible hlist hkeyed₀) hthere
  obtain ⟨hne, rfl⟩ : page.unackedVisible ≠ [] ∧
      .acknowledgeAlertsBulk page.unackedVisible = req := by
    unfold acknowledgeAllVisible at hclick
    split_ifs at hclick with hzero
    exact ⟨fun hnil => hzero (by rw [hnil, List.length_nil]), Option.some.inj hclick⟩
  have hsmall : page.unackedVisible.length ≤ 1000 :=
    (length_unackedVisible hlist).trans (by norm_num)
  refine ⟨(acknowledgeAlerts env.now page.unackedVisible s.store).2, ?_,
    acknowledgeAlerts_eq _ _ _, fun row hrow => ?_,
    fun later hlater' page' hlist' id hid => ?_⟩
  · rw [WriteRequest.handle, acknowledgeAlertsBulk_eq hguard hcall hsmall hne, hcount]
  · obtain ⟨a, ha, hsaid⟩ := exists_later hlist hlater hrow
    rw [acknowledgeAlerts_eq]
    refine ⟨_, List.mem_map_of_mem ha, hsaid, fun hnone => ?_⟩
    have hid : (a.id : ℤ) ∈ page.unackedVisible :=
      mem_unackedVisible.2 ⟨row, hrow, hnone, (id_of_said hsaid).symm⟩
    simp [hid]
  · have hreach' : System.Reachable P.config.webhook
        { s with store := (acknowledgeAlerts env.now page.unackedVisible s.store).2 } :=
      (hreach.trans hreaches).tail (.api (.acknowledgeAll _ _ _))
    have hkeyed' := (hreach'.run later).keyed.db.alertIds.nodup
    generalize hs' : { s with store := (acknowledgeAlerts env.now page.unackedVisible
      s.store).2 } = s' at hlist' hkeyed'
    have hacked : Acked page.unackedVisible s'.store := hs' ▸ acked_acknowledgeAlerts hthere
    exact hlist'.not_mem_unackedVisible hkeyed' (hacked.run hlater') hid

end AlertsPage

end Lumina

/-! ### One alert -/

namespace Lumina.Sample

/-- The page after an alert. -/
def alertsPage : AlertsPage := ⟨some afterAlert.store.db.alerts, "ALL", "whale_payment", true⟩

/-- A correct key. -/
def opsHeaders : HeaderMap := [⟨"X-Admin-Key", asBytes "s3cret"⟩]

theorem alertsPage_listed : alertsPage.Listed opsDeployment afterAlert :=
  ⟨requestEnv, _, rfl, rfl⟩

/-- The button says one, and so does the answer. -/
theorem alertsPage_acknowledged :
    ((WriteRequest.acknowledgeAlertsBulk [1]).handle opsDeployment.server.state requestEnv
      opsHeaders afterAlert.store).1 = .ret (.json (.acknowledged 1)) := by
  have hreach : System.Reachable opsDeployment.config.webhook afterAlert :=
    .single (.ingest (.alert (.clean 9) toldAlert _ ⟨.whale _, rfl⟩))
  have hclick : alertsPage.acknowledgeAllVisible = some (.acknowledgeAlertsBulk [1]) := rfl
  have hguard : guard opsDeployment.server.state opsHeaders = none := by decide +kernel
  have hcall : requestEnv.call = .ok := rfl
  obtain ⟨s', h, -⟩ := AlertsPage.ackAll_exact opsDeployment hreach .refl alertsPage_listed hclick
    hguard hcall
  rw [h]
  rfl

end Lumina.Sample
