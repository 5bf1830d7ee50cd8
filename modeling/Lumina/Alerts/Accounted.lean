import Lumina.System.Configured
import Mathlib.Data.List.Forall2

/-!
# Every alert has a row of its own

An alert of a whale payment or of a lending position is recorded after the row that it tells, and
once: the alerts of a kind tell different rows, in the order in which the rows were written, and a
position that is told had crossed into a higher band (`alerts_accounted`).  Nothing is alerted that
is not in its table, and nothing twice, however cycles fail and stop and whatever comes between.

The alerts of pools and tokens are not of this kind: a batch may find them and then lose its
snapshots.

## Main definitions

* `detailsOf` : the details of the alerts of one kind.
* `Accounted` : they tell rows, each its own.
* `Accounts` : what a step adds is accounted for.
* `withPreceding` : the rows of a table, each with those before it.
* `RiskOf` : the alert of a position that a cycle of the run found to have crossed.
-/

namespace Lumina

open List Trace Tx

/-! ### Lists -/

section SublistForall₂

variable {α β : Type} {R S : α → β → Prop} {l l' l₁ l₂ : List α} {m m₁ m₂ : List β}

theorem sublistForall₂_of_sublist (hsub : l' <+ l) (h : SublistForall₂ R l m) :
    SublistForall₂ R l' m := by
  obtain ⟨k, hk, hkm⟩ := sublistForall₂_iff.1 h
  obtain ⟨k', hk', hkk⟩ : ∃ k', Forall₂ R l' k' ∧ k' <+ k := by
    clear h hkm
    induction hk generalizing l' with
    | nil => exact ⟨[], by rw [sublist_nil.1 hsub]; exact .nil, .slnil⟩
    | @cons a b l k hab _ ih =>
      cases hsub with
      | cons _ hsub =>
        obtain ⟨k', hk', hkk⟩ := ih hsub
        exact ⟨k', hk', hkk.cons _⟩
      | cons_cons _ hsub =>
        obtain ⟨k', hk', hkk⟩ := ih hsub
        exact ⟨b :: k', .cons hab hk', hkk.cons_cons _⟩
  exact sublistForall₂_iff.2 ⟨k', hk', hkk.trans hkm⟩

theorem sublistForall₂_append (h₁ : SublistForall₂ R l₁ m₁) (h₂ : SublistForall₂ R l₂ m₂) :
    SublistForall₂ R (l₁ ++ l₂) (m₁ ++ m₂) := by
  obtain ⟨k₁, hk₁, hsub₁⟩ := sublistForall₂_iff.1 h₁
  obtain ⟨k₂, hk₂, hsub₂⟩ := sublistForall₂_iff.1 h₂
  exact sublistForall₂_iff.2 ⟨k₁ ++ k₂, rel_append hk₁ hk₂, hsub₁.append hsub₂⟩

theorem sublistForall₂_imp (h : SublistForall₂ R l m) (hRS : ∀ a, ∀ b ∈ m, R a b → S a b) :
    SublistForall₂ S l m := by
  induction h with
  | nil => exact .nil
  | cons hab _ ih =>
    exact .cons (hRS _ _ mem_cons_self hab) (ih fun a b hb => hRS a b (mem_cons_of_mem _ hb))
  | cons_right _ ih => exact .cons_right (ih fun a b hb => hRS a b (mem_cons_of_mem _ hb))

end SublistForall₂

section Preceding

variable {ρ : Type}

/-- The rows of a table after some others, each with all those before it. -/
def withPreceding : List ρ → List ρ → List (List ρ × ρ)
  | _, [] => []
  | before, row :: rows => (before, row) :: withPreceding (before ++ [row]) rows

theorem withPreceding_append (before rows more : List ρ) :
    withPreceding before (rows ++ more) =
      withPreceding before rows ++ withPreceding (before ++ rows) more := by
  induction rows generalizing before with
  | nil => simp [withPreceding]
  | cons row rows ih => simp [withPreceding, ih]

theorem mem_withPreceding {before rows : List ρ} {c : List ρ × ρ}
    (hc : c ∈ withPreceding before rows) : before <+: c.1 ∧ c.1 ++ [c.2] <+: before ++ rows := by
  induction rows generalizing before with
  | nil => cases hc
  | cons row rows ih =>
    rcases mem_cons.1 hc with rfl | hc
    · exact ⟨prefix_refl _, rows, by simp⟩
    · obtain ⟨hbefore, hrow⟩ := ih hc
      exact ⟨(prefix_append _ _).trans hbefore, by rwa [append_assoc] at hrow⟩

end Preceding

/-! ### Accounts -/

/-- The details of the alerts of one kind. -/
def detailsOf (kind : String) (alerts : List AlertRow) : List Json :=
  (alerts.filter fun a => a.kind = kind).map (·.details)

/-- The alerts of one kind tell rows, each its own, in the order of the rows. -/
def Accounted {ρ : Type} (kind : String) (tells : Json → ρ → Prop) (alerts : List AlertRow)
    (rows : List ρ) : Prop :=
  SublistForall₂ tells (detailsOf kind alerts) rows

/-- The alerts of one kind that `w'` has beyond `w` are accounted for by the rows that it has
beyond `w`. -/
def Accounts {ρ : Type} (kind : String) (tells : Json → ρ → Prop) (table : Db → List ρ)
    (w w' : World) : Prop :=
  ∃ new rows, w'.db.alerts = w.db.alerts ++ new ∧ table w'.db = table w.db ++ rows ∧
    Accounted kind tells new rows

section Accounts

variable {ρ : Type} {kind : String} {tells : Json → ρ → Prop} {table : Db → List ρ}
  {alerts new : List AlertRow} {rows more : List ρ} {w w' : World}

theorem detailsOf_append (alerts new : List AlertRow) :
    detailsOf kind (alerts ++ new) = detailsOf kind alerts ++ detailsOf kind new := by
  simp [detailsOf]

theorem detailsOf_map {f : AlertRow → AlertRow} (hf : ∀ a, (f a).said = a.said) :
    detailsOf kind (alerts.map f) = detailsOf kind alerts := by
  have hkind : ∀ a, (f a).kind = a.kind := fun a => (AlertRow.mk.inj (hf a)).2.2.1
  have hdetails : ∀ a, (f a).details = a.details := fun a => (AlertRow.mk.inj (hf a)).2.2.2.2.2.1
  unfold detailsOf
  rw [List.filter_map, List.map_map]
  refine (List.map_congr_left fun a _ => hdetails a).trans ?_
  congr 1
  exact List.filter_congr fun a _ => by simp [hkind]

theorem Accounted.append (h : Accounted kind tells alerts rows)
    (h' : Accounted kind tells new more) : Accounted kind tells (alerts ++ new) (rows ++ more) := by
  unfold Accounted
  rw [detailsOf_append]
  exact sublistForall₂_append h h'

theorem accounted_nil : Accounted kind tells [] rows := .nil

/-- Alerts of other kinds need no rows. -/
theorem accounted_of_ne (h : ∀ a ∈ new, a.kind ≠ kind) : Accounted kind tells new rows := by
  have hnil : detailsOf kind new = [] := by
    unfold detailsOf
    rw [List.filter_eq_nil_iff.2 fun a ha => by simpa using h a ha, List.map_nil]
  unfold Accounted
  rw [hnil]
  exact .nil

instance : IsPreorder World (Accounts kind tells table) where
  refl w := ⟨[], [], by simp, by simp, accounted_nil⟩
  trans w₁ w₂ w₃ := by
    rintro ⟨new, rows, halerts, htable, h⟩ ⟨new', rows', halerts', htable', h'⟩
    refine ⟨new ++ new', rows ++ rows', ?_, ?_, h.append h'⟩
    · rw [halerts', halerts, List.append_assoc]
    · rw [htable', htable, List.append_assoc]

/-- Rows without alerts. -/
theorem Accounts.of_rows (halerts : w'.db.alerts = w.db.alerts)
    (htable : table w.db <+: table w'.db) : Accounts kind tells table w w' := by
  obtain ⟨rows, hrows⟩ := htable
  exact ⟨[], rows, by rw [halerts, List.append_nil], hrows.symm, accounted_nil⟩

theorem Accounts.accounted (h : Accounts kind tells table w w')
    (hw : Accounted kind tells w.db.alerts (table w.db)) :
    Accounted kind tells w'.db.alerts (table w'.db) := by
  obtain ⟨new, rows, halerts, htable, hnew⟩ := h
  rw [halerts, htable]
  exact hw.append hnew

/-- Rows, and then the alerts that were found with them. -/
theorem Accounts.of_recordAll {env : ℕ → RecordEnv} {webhook : WebhookConfig}
    {pending : List PendingAlert} (halerts : w'.db.alerts = w.db.alerts)
    (htable : table w'.db = table w.db ++ rows)
    (hsame : table (recordAll env webhook pending w').2.db = table w'.db)
    (h : Forall₂ (fun a row => a.kind = kind ∧ tells a.details row) pending rows ∨
      ∀ a ∈ pending, a.kind ≠ kind) :
    Accounts kind tells table w (recordAll env webhook pending w').2 := by
  obtain ⟨new, hnew, hsub, -⟩ := recordAll_alerts env webhook pending w'
  refine ⟨new, rows, by rw [hnew, halerts], by rw [hsame, htable], ?_⟩
  rcases h with h | h
  · -- what was found is of the kind, and so is what was inserted
    have hdetails : (new.map (·.details)) <+ pending.map (·.details) := by
      have hmap := hsub.map (·.2.2.2)
      rw [List.map_map, List.map_map] at hmap
      exact hmap
    have hpending : Forall₂ tells (pending.map (·.details)) rows := by
      rw [forall₂_map_left_iff]
      exact h.imp fun _ _ hrow => hrow.2
    have hfound : SublistForall₂ tells (new.map (·.details)) rows :=
      sublistForall₂_of_sublist hdetails (sublistForall₂_iff.2 ⟨rows, hpending, .refl rows⟩)
    exact sublistForall₂_of_sublist (List.filter_sublist.map _) hfound
  · refine accounted_of_ne fun a ha => ?_
    obtain ⟨b, hb, hcontent⟩ := List.mem_map.1 (hsub.subset (List.mem_map_of_mem ha))
    exact fun hkind => h b hb ((congrArg (·.1) hcontent).trans hkind)

end Accounts

/-! ### The two tables -/

/-- The details of an alert tell a payment. -/
def TellsPayment (details : Json) (row : WhaleTransactionRow) : Prop :=
  details = (Event.whale row).details

/-- The details of an alert tell a position row, the last one of `c`: by bands such that `given` it
crossed upwards into an alertable band from the latest row of its position before it. -/
def TellsPosition (given : LtvBands → Prop) (details : Json)
    (c : List LendingPositionRow × LendingPositionRow) : Prop :=
  ∃ bands tie ltv level, given bands ∧
    escalation bands (latestLendingPosition tie "blend" c.2.poolContract c.2.account
      { Db.empty with lendingPositions := c.1 }) c.2 = some (ltv, level) ∧
    details = (Event.escalation c.2 ltv level).details

/-- The whale alerts of `w'` beyond `w`, and the rows that account for them. -/
abbrev AccountsPayments : World → World → Prop :=
  Accounts "whale_payment" TellsPayment (·.whaleTransactions)

/-- The risk alerts of `w'` beyond `w`, and the rows that account for them. -/
abbrev AccountsPositions (given : LtvBands → Prop) : World → World → Prop :=
  Accounts "liquidation_risk" (TellsPosition given) fun db => withPreceding [] db.lendingPositions

/-- Neither table changes, and no alert is added. -/
def SameEvents (w w' : World) : Prop :=
  w'.db.alerts = w.db.alerts ∧ w'.db.whaleTransactions = w.db.whaleTransactions ∧
    w'.db.lendingPositions = w.db.lendingPositions

instance : IsPreorder World SameEvents where
  refl _ := ⟨rfl, rfl, rfl⟩
  trans _ _ _ h h' := ⟨h'.1.trans h.1, h'.2.1.trans h.2.1, h'.2.2.trans h.2.2⟩

variable {D : RustDecimal} {X : Codec} {config : Config} {given : LtvBands → Prop} {w w' : World}

theorem AlertsGrow.lendingPositions (h : AlertsGrow w w') :
    w'.db.lendingPositions = w.db.lendingPositions := by
  obtain ⟨new, seq, h⟩ := h
  rw [h]

/-- The alerts of both kinds that a part of the ingester adds are accounted for. -/
def AccountsEvents (given : LtvBands → Prop) (w w' : World) : Prop :=
  AccountsPayments w w' ∧ AccountsPositions given w w'

instance : IsPreorder World (AccountsEvents given) where
  refl w := ⟨refl w, refl w⟩
  trans _ _ _ h h' := ⟨IsTrans.trans _ _ _ h.1 h'.1, IsTrans.trans _ _ _ h.2 h'.2⟩

theorem SameEvents.accounts (h : SameEvents w w') : AccountsEvents given w w' :=
  ⟨.of_rows h.1 (by rw [h.2.1]), .of_rows h.1 (by rw [h.2.2])⟩

/-! ### The snapshots -/

section Run

variable {rules : List AlertRuleRow} {pools : List LiquidityPool} {assets : List AssetRecord}

theorem sameEvents_commitBatch (env : RunEnv) :
    Proc.Within SameEvents (commitBatch D config env rules pools assets) := by
  have hpool : ∀ (row : PoolRow) (w : World),
      SameEvents w { w with db := upsertPool row w.db } := by
    intro row w
    unfold upsertPool
    split_ifs <;> exact ⟨rfl, rfl, rfl⟩
  have htoken : ∀ (row : TokenRow) (w : World),
      SameEvents w { w with db := upsertToken row w.db } := by
    intro row w
    unfold upsertToken
    split_ifs <;> exact ⟨rfl, rfl, rfl⟩
  refine within_transaction ?_
  rw [batchBody_eq]
  exact within_collectAll (within_batchRecords _ _ _ _ _ _ hpool (fun _ _ => ⟨rfl, rfl, rfl⟩)
    htoken (fun _ _ => ⟨rfl, rfl, rfl⟩) fun _ _ _ _ _ => ⟨rfl, rfl, rfl⟩) []

/-- The alerts that wait for the commit of the batch are of pools and tokens. -/
theorem kind_commitBatch {env : RunEnv} {pending : List PendingAlert}
    (h : (commitBatch D config env rules pools assets w).1 = .ret pending) :
    ∀ a ∈ pending, a.kind = "liquidity_drop" ∨ a.kind = "holder_drop" := by
  intro a ha
  rcases transaction_cases env.start env.commit .db (batchBody D config env rules pools assets) w
    with ⟨found, t, -, -, hb, ht⟩ | ⟨hne, -⟩
  · unfold commitBatch at h
    rw [ht] at h
    obtain rfl := Outcome.ret.inj h
    rw [batchBody_eq] at hb
    have hprefix := collectAll_prefix (record_batchRecords D config env rules pools assets) hb
    have hfound := hprefix.subset ha
    rcases found_of_mem_isolatedAll hfound with hnil | ⟨m, hm, w', hw'⟩
    · cases hnil
    · exact kind_of_record m hm w' a hw'
  · exact absurd h (hne pending)

/-- Recording alerts of other kinds, after a step that changes neither table. -/
theorem events_recordAll {env : ℕ → RecordEnv} {webhook : WebhookConfig}
    {pending : List PendingAlert}
    (h : ∀ a ∈ pending, a.kind ≠ "whale_payment" ∧ a.kind ≠ "liquidation_risk") :
    AccountsEvents given w (recordAll env webhook pending w).2 := by
  have hgrow := within_recordAll env webhook pending w
  exact ⟨.of_recordAll rfl (List.append_nil _).symm hgrow.whaleTransactions
      (.inr fun a ha => (h a ha).1),
    .of_recordAll rfl (List.append_nil _).symm (congrArg _ hgrow.lendingPositions)
      (.inr fun a ha => (h a ha).2)⟩

/-! ### The payments -/

/-- **The payments of a cycle**: their alerts are those of the rows that it commits. -/
theorem events_ingestPayments (env : PaymentsEnv) :
    Proc.Within (AccountsEvents given) (ingestPayments D config env rules) := by
  intro w
  have hgrow : ∀ pending w', AlertsGrow w' (recordAll env.record config.webhook pending w').2 :=
    fun pending w' => within_recordAll _ _ _ w'
  rcases commitPayments_cases D config env rules w with
    ⟨hw, hpending⟩ | ⟨newest, rest, -, -, heq⟩ | ⟨c, payments, last, rows, found, -, -, -, hreads,
      heq⟩
  · refine Proc.related_bind (by rw [hw]; exact refl w) fun pending hret => ?_
    rw [hpending pending hret]
    exact events_recordAll nofun
  · refine Proc.related_bind ?_ fun pending hret => ?_
    · rw [heq]
      exact SameEvents.accounts ⟨rfl, rfl, rfl⟩
    · rw [heq] at hret
      rw [← Outcome.ret.inj hret]
      exact events_recordAll nofun
  · have hcommit : ingestPayments D config env rules w =
        recordAll env.record config.webhook found (advance rows last.pagingToken w) := by
      unfold ingestPayments
      rw [Proc.bind_apply, heq]
    have hfound : Forall₂ (fun a row => a.kind = "whale_payment" ∧ TellsPayment a.details row)
        found rows := hreads.alerts.flip.imp fun _ _ h => rowAlert_whale h
    rw [hcommit]
    refine ⟨.of_recordAll rfl rfl (hgrow _ _).whaleTransactions (.inl hfound),
      .of_recordAll rfl (List.append_nil _).symm
        (congrArg _ (hgrow _ _).lendingPositions) (.inr ?_)⟩
    intro a ha
    obtain ⟨row, -, hrow⟩ := hreads.row_of_alert ha
    rw [rowAlert_kind hrow]
    decide

/-! ### The cycle -/

theorem events_runOnce (env : RunEnv) :
    Proc.Within (AccountsEvents given) (runOnce D config env) := by
  refine (Proc.within_lift _).bind fun pools => (Proc.within_lift _).bind fun assets => ?_
  have hload : Proc.Within (AccountsEvents given) (loadRules env.rules) := by
    refine within_fetch.attempt.bind fun r => ?_
    cases r <;> exact Proc.within_pure _
  refine hload.bind fun rules w => ?_
  refine Proc.related_bind (sameEvents_commitBatch env w).accounts fun pending hpending => ?_
  have hrecord : Proc.Within (AccountsEvents given) (ingestPayments D config env.payments rules) :=
    events_ingestPayments env.payments
  refine Proc.related_bind (events_recordAll fun a ha => ?_) fun _ _ => hrecord _
  rcases kind_commitBatch hpending a ha with hkind | hkind <;> rw [hkind] <;> decide

end Run

/-! ### The lending positions -/

/-- **One event**: the alert is that of the row that it writes, which escalated. -/
theorem events_processEvent (prices : PriceMap) {bands : LtvBands} (hbands : given bands)
    (env : EventEnv) (event : RpcEvent) :
    Proc.Within (AccountsEvents given) (processEvent D X config prices bands env event) := by
  intro w
  rcases storeEvent_cases D X prices bands env event w with
    ⟨e, row, hd, hl, hi, hr, -⟩ | ⟨hne, hw, -⟩
  · obtain ⟨hdb, -⟩ := processEvent_stored config bands hd hl hi hr
    generalize processEvent D X config prices bands env event w = r at hdb
    have hrow : ∀ new : List AlertRow, r.2.db.alerts = w.db.alerts ++ new →
        r.2.db.whaleTransactions = w.db.whaleTransactions →
        r.2.db.lendingPositions = w.db.lendingPositions ++ [row] →
        (∀ a ∈ new, a.kind ≠ "whale_payment") →
        Accounted "liquidation_risk" (TellsPosition given) new [(w.db.lendingPositions, row)] →
        AccountsEvents given w r.2 := by
      intro new halerts hwhales hpositions hkind haccounted
      refine ⟨⟨new, [], halerts, hwhales.trans (List.append_nil _).symm, accounted_of_ne hkind⟩,
        ⟨new, _, halerts, ?_, haccounted⟩⟩
      dsimp only
      rw [hpositions, withPreceding_append]
      rfl
    cases halert : (alertAfter bands env.tie row w.db).join with
    | none =>
      rw [halert] at hdb
      exact hrow [] (by rw [hdb, List.append_nil]; rfl) (by rw [hdb]; rfl) (by rw [hdb]; rfl)
        nofun accounted_nil
    | some a =>
      rw [halert] at hdb
      simp only [recordedDb] at hdb
      split_ifs at hdb
      · obtain ⟨ltv, level, hcrossed, htelling⟩ :=
          lendingAlert_some (Option.join_eq_some_iff.1 halert)
        obtain ⟨hkind, hdetails⟩ := Prod.mk.inj htelling
        refine hrow [_] (by rw [hdb]; rfl) (by rw [hdb]; rfl) (by rw [hdb]; rfl) ?_ ?_
        · intro b hb
          rw [List.mem_singleton.1 hb]
          show a.kind ≠ "whale_payment"
          rw [hkind, Event.kind]
          decide
        · have htells : SublistForall₂ (TellsPosition given) [a.details]
              [(w.db.lendingPositions, row)] :=
            .cons ⟨bands, env.tie, ltv, level, hbands, hcrossed, hdetails⟩ .nil
          exact sublistForall₂_of_sublist (List.filter_sublist.map _) htells
      · exact hrow [] (by rw [hdb, List.append_nil]; rfl) (by rw [hdb]; rfl) (by rw [hdb]; rfl)
          nofun accounted_nil
  · unfold processEvent
    refine Proc.related_bind (by rw [hw]; exact refl w) fun found hfound => ?_
    cases found with
    | none => exact refl _
    | some alert => exact absurd hfound (hne alert)

theorem events_lendingCycleUnder {rules : List AlertRuleRow}
    (hrules : given (resolveLtvBands rules)) (env : LendingEnv) (contractIds : List String) :
    Proc.Within (AccountsEvents given) (lendingCycleUnder D X config rules env contractIds) := by
  have hread : Proc.Within (AccountsEvents given) (readEvents env contractIds) := fun w => by
    rw [readEvents_world]
    exact refl w
  refine hread.bind fun c => ?_
  obtain ⟨events, next⟩ := c
  have hloop : Proc.Within (AccountsEvents given) (processEvents D X config
      (config.blendAssetPricesUsd D) (resolveLtvBands rules) env.event events) := by
    refine Proc.within_foldlM (fun _ c => ?_) _ _
    exact (events_processEvent _ hrules (env.event c.2) c.1).attempt.bind fun _ =>
      Proc.within_pure ()
  refine hloop.bind fun _ => ?_
  cases next with
  | none => exact Proc.within_pure ()
  | some c => exact within_exec fun w => SameEvents.accounts ⟨rfl, rfl, rfl⟩

/-- The bands that a lending cycle from `w` loads. -/
def LendingEnv.Loads (env : LendingEnv) (w : World) (bands : LtvBands) : Prop :=
  ∃ rules, (loadRules env.rules w).1 = .ret rules ∧ bands = resolveLtvBands rules

theorem events_ingestLendingCycle (env : LendingEnv) (contractIds : List String) (w : World) :
    AccountsEvents (env.Loads w) w (ingestLendingCycle D X config env contractIds w).2 := by
  rw [ingestLendingCycle_eq_bind]
  have hload : (loadRules env.rules w).2 = w := by
    by_cases hstop : env.rules = .stop
    · rw [hstop]
      rfl
    · rw [loadRules_of_ne_stop hstop]
  refine Proc.related_bind (by rw [hload]; exact refl w) fun rules hrules => ?_
  rw [hload]
  exact events_lendingCycleUnder ⟨rules, hrules, rfl⟩ _ _ w

/-- The first half of a cycle leaves the rules as they are. -/
theorem loads_runOnce (env : CycleEnv) (w : World) :
    env.lending.Loads (runOnce D config env.run w).2 = env.lending.Loads w := by
  have hrules : ∀ w', IngestWrites config.webhook w w' → w'.db.alertRules = w.db.alertRules := by
    intro w' h
    induction h with
    | refl => rfl
    | tail _ hwrite ih => exact hwrite.config_eq.1.trans ih
  have hload : ∀ w', w'.db.alertRules = w.db.alertRules →
      (loadRules env.lending.rules w').1 = (loadRules env.lending.rules w).1 := by
    intro w' h
    by_cases hstop : env.lending.rules = .stop
    · rw [hstop]
      rfl
    · rw [loadRules_of_ne_stop hstop, loadRules_of_ne_stop hstop, listAlertRules, listAlertRules, h]
  funext bands
  unfold LendingEnv.Loads
  rw [hload _ (hrules _ (writes_runOnce env.run w))]

/-- **What a cycle adds is accounted for**, wherever it stops. -/
theorem events_ingestCycle (env : CycleEnv) (w : World) :
    AccountsEvents (env.lending.Loads w) w (ingestCycle D X config env w).2 := by
  have hrun : AccountsEvents (env.lending.Loads w) w (runOnce D config env.run w).2 :=
    events_runOnce env.run w
  rcases ingestCycle_world D X config env w with ⟨-, hw⟩ | ⟨-, hw⟩
  · rwa [hw]
  · have hlending := @events_ingestLendingCycle D X config env.lending config.blendPoolIds
      (runOnce D config env.run w).2
    rw [loads_runOnce] at hlending
    rw [hw]
    exact IsTrans.trans _ _ _ hrun hlending

/-! ### Runs -/

/-- A write of the API changes no more of an alert than its acknowledgement. -/
theorem ApiWrite.sameEvents {s s' : Store} (h : ApiWrite s s') :
    (∃ f : AlertRow → AlertRow, (∀ a, (f a).said = a.said) ∧
      s'.db.alerts = s.db.alerts.map f) ∧
    s'.db.whaleTransactions = s.db.whaleTransactions ∧
    s'.db.lendingPositions = s.db.lendingPositions := by
  have hid : ∃ f : AlertRow → AlertRow, (∀ a, (f a).said = a.said) ∧
      s.db.alerts = s.db.alerts.map f := ⟨id, fun _ => rfl, (List.map_id _).symm⟩
  cases h with
  | acknowledge now id => exact ⟨⟨_, fun a => by split_ifs <;> rfl, rfl⟩, rfl, rfl⟩
  | unacknowledge id => exact ⟨⟨_, fun a => by split_ifs <;> rfl, rfl⟩, rfl, rfl⟩
  | acknowledgeAll now ids =>
    exact ⟨⟨_, fun a => by split_ifs <;> rfl, rfl⟩, rfl, rfl⟩
  | insertChannel body hvalid =>
    unfold insertAlertChannel
    dsimp only
    split_ifs <;> exact ⟨hid, rfl, rfl⟩
  | upsertItem now body hvalid =>
    unfold upsertWatchlistItem
    dsimp only
    split <;> exact ⟨hid, rfl, rfl⟩
  | _ => exact ⟨hid, rfl, rfl⟩

/-- The alerts of both kinds of a store are accounted for by its rows. -/
def Store.Accounted (tells : Json → List LendingPositionRow × LendingPositionRow → Prop)
    (s : Store) : Prop :=
  Lumina.Accounted "whale_payment" TellsPayment s.db.alerts s.db.whaleTransactions ∧
    Lumina.Accounted "liquidation_risk" tells s.db.alerts (withPreceding [] s.db.lendingPositions)

section Accounted

variable {tells tells' : Json → List LendingPositionRow × LendingPositionRow → Prop}
  {s s' : Store}

theorem Store.Accounted.mono (h : s.Accounted tells)
    (htells : ∀ details c, tells details c → tells' details c) : s.Accounted tells' :=
  ⟨h.1, sublistForall₂_imp h.2 fun details c _ => htells details c⟩

theorem ApiWrite.accounted (h : ApiWrite s s') (hs : s.Accounted tells) : s'.Accounted tells := by
  obtain ⟨⟨f, hf, halerts⟩, hwhales, hpositions⟩ := h.sameEvents
  unfold Store.Accounted Lumina.Accounted at hs ⊢
  rwa [halerts, detailsOf_map hf, detailsOf_map hf, hwhales, hpositions]

theorem ApiWrites.accounted (h : ApiWrites s s') (hs : s.Accounted tells) :
    s'.Accounted tells := by
  induction h with
  | refl => exact hs
  | tail _ hstep ih => exact hstep.accounted ih

theorem RetentionJob.accounted (job : RetentionJob) (hs : s.Accounted tells) :
    Store.Accounted tells { s with db := job.drop s.db } := by
  rcases job.drop_cases s.db with ⟨rows, -, hdb⟩ | ⟨rows, -, hdb⟩
  · rw [hdb]
    exact hs
  · rw [hdb]
    exact hs

end Accounted

/-- The details of an alert tell a position row of a run, the last one of `c`, which stands in the
table after the others of `c`: a cycle of the run wrote it, and by the bands that this cycle loaded
it had crossed upwards into an alertable band. -/
def RiskOf (P : Deployment) (es : List SystemEvent) (details : Json)
    (c : List LendingPositionRow × LendingPositionRow) : Prop :=
  ∃ past env, past ++ [.cycle env] <+: es ∧
    (run (System.step P) System.empty past).store.db.lendingPositions <+: c.1 ∧
    c.1 ++ [c.2] <+:
      (run (System.step P) System.empty (past ++ [.cycle env])).store.db.lendingPositions ∧
    TellsPosition (env.lending.Loads (run (System.step P) System.empty past).world) details c

theorem RiskOf.append {P : Deployment} {es more : List SystemEvent} {details : Json}
    {c : List LendingPositionRow × LendingPositionRow} (h : RiskOf P es details c) :
    RiskOf P (es ++ more) details c := by
  obtain ⟨past, env, hprefix, hrest⟩ := h
  exact ⟨past, env, hprefix.trans (prefix_append _ _), hrest⟩

/-- The alerts of a cycle tell the rows that the cycle wrote. -/
theorem accounted_cycle {P : Deployment} {es : List SystemEvent} {s : System} (env : CycleEnv)
    (hs : run (System.step P) System.empty es = s)
    (hpast : s.store.Accounted (RiskOf P (es ++ [.cycle env]))) :
    (s.step P (.cycle env)).store.Accounted (RiskOf P (es ++ [.cycle env])) := by
  have hboth : AccountsEvents (env.lending.Loads s.world) s.world
      (s.step P (.cycle env)).world := events_ingestCycle env s.world
  obtain ⟨more, hmore⟩ : s.store.db.lendingPositions <+:
      (s.step P (.cycle env)).store.db.lendingPositions :=
    (System.step_history P s (.cycle env)).db.lendingPositions
  obtain ⟨hpayments, new, rows, halerts, htable, hrows⟩ := hboth
  have hnew : rows = withPreceding s.store.db.lendingPositions more := by
    have htable : withPreceding [] (s.step P (.cycle env)).store.db.lendingPositions =
      withPreceding [] s.store.db.lendingPositions ++ rows := htable
    rw [← hmore, withPreceding_append, List.nil_append] at htable
    exact (append_cancel_left htable).symm
  have hrisks : Accounts "liquidation_risk" (RiskOf P (es ++ [.cycle env]))
      (fun db => withPreceding [] db.lendingPositions) s.world
      (s.step P (.cycle env)).world := by
    refine ⟨new, rows, halerts, htable, sublistForall₂_imp hrows fun details c hc htells => ?_⟩
    obtain ⟨hbefore, hafter⟩ := mem_withPreceding (hnew ▸ hc)
    refine ⟨es, env, prefix_refl _, by rwa [hs], ?_, by rwa [hs]⟩
    rwa [run_snoc, hs, ← hmore]
  exact ⟨hpayments.accounted hpast.1, hrisks.accounted hpast.2⟩

/-- **Every whale alert tells a payment row of its own and every risk alert a position row of its
own that had crossed into a higher band**, in the order of the rows, after any run. -/
theorem alerts_accounted (P : Deployment) (es : List SystemEvent) :
    SublistForall₂ TellsPayment
        (detailsOf "whale_payment" (run (System.step P) System.empty es).store.db.alerts)
        (run (System.step P) System.empty es).store.db.whaleTransactions ∧
      SublistForall₂ (RiskOf P es)
        (detailsOf "liquidation_risk" (run (System.step P) System.empty es).store.db.alerts)
        (withPreceding [] (run (System.step P) System.empty es).store.db.lendingPositions) := by
  suffices hinv : (run (System.step P) System.empty es).store.Accounted (RiskOf P es) from hinv
  induction es using List.reverseRecOn with
  | nil => exact ⟨.nil, .nil⟩
  | append_singleton es e ih =>
    have hpast : (run (System.step P) System.empty es).store.Accounted (RiskOf P (es ++ [e])) :=
      ih.mono fun _ _ => RiskOf.append
    rw [run_snoc]
    generalize hs : run (System.step P) System.empty es = s at hpast
    cases e with
    | cycle env => exact accounted_cycle env hs hpast
    | request env req =>
      exact (writes_serve P.server P.extract env req s.store).accounted hpast
    | retention job => exact job.accounted hpast

end Lumina
