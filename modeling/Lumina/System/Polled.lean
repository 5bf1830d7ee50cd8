import Lumina.System.Writes

/-!
# What only a poll writes

The snapshots and the prices are written by the commit of a poll, and by nothing else: not by the
alerts that follow it, the payments, the lending cycle or a request (`SamePolled`).
-/

namespace Lumina

open Tx

variable {D : RustDecimal} {X : Codec} {config : Config} {rules : List AlertRuleRow} {w w' : World}

/-- The same snapshots and prices. -/
def SamePolled (w w' : World) : Prop :=
  w'.db.poolSnapshots = w.db.poolSnapshots ∧ w'.db.tokenSnapshots = w.db.tokenSnapshots ∧
    w'.db.assetPrices = w.db.assetPrices

instance : IsPreorder World SamePolled where
  refl _ := ⟨rfl, rfl, rfl⟩
  trans _ _ _ h h' := ⟨h'.1.trans h.1, h'.2.1.trans h.2.1, h'.2.2.trans h.2.2⟩

theorem SamePolled.sameSnapshots (h : SamePolled w w') : SameSnapshots w w' := ⟨h.1, h.2.1⟩

theorem AlertsGrow.samePolled (h : AlertsGrow w w') : SamePolled w w' := by
  obtain ⟨new, seq, h⟩ := h
  unfold SamePolled
  rw [h]
  exact ⟨rfl, rfl, rfl⟩

/-! ### The payments -/

theorem samePolled_insertWhaleTransaction (row : WhaleTransactionRow) (w : World) :
    SamePolled w { w with db := (insertWhaleTransaction row w.db).2 } := by
  unfold SamePolled insertWhaleTransaction
  dsimp only
  split_ifs <;> exact ⟨rfl, rfl, rfl⟩

theorem samePolled_ingestWhalePayment (calls : WhaleEnv) (p : PaymentRecord) (threshold : F64) :
    Proc.Within (Tx.Via SamePolled) (ingestWhalePayment D calls p threshold rules) := by
  refine (Proc.within_lift _).bind fun amount => ?_
  cases amount with
  | none => exact Proc.within_pure none
  | some amount =>
    have hinsert : Proc.Within (Tx.Via SamePolled)
        (Tx.execReturning calls.insert (insertWhaleTransaction (whaleRow calls.now p amount))) :=
      Tx.within_statement (samePolled_insertWhaleTransaction _)
    refine hinsert.bind fun inserted => ?_
    cases inserted with
    | false => exact Proc.within_pure none
    | true => exact (Proc.within_lift _).bind fun _ => Proc.within_pure _

theorem samePolled_commitPayments (env : PaymentsEnv) :
    Proc.Within SamePolled (commitPayments D config env rules) := by
  refine within_fetch.bind fun cursor => ?_
  cases cursor with
  | none =>
    refine (Proc.within_lift _).bind fun latest => ?_
    cases latest.head? with
    | none => exact Proc.within_pure []
    | some newest =>
      exact (within_exec fun w => ⟨rfl, rfl, rfl⟩).bind fun _ => Proc.within_pure []
  | some cursor =>
    refine (Proc.within_lift _).bind fun payments => ?_
    split_ifs
    · exact Proc.within_pure []
    · refine within_transaction ((Proc.within_foldlM (fun found c => ?_) _ _).bind fun found => ?_)
      · refine (samePolled_ingestWhalePayment _ _ _).bind fun alert => ?_
        cases alert <;> exact Proc.within_pure _
      · exact (Tx.within_exec fun w => ⟨rfl, rfl, rfl⟩).bind fun _ => Proc.within_pure _

theorem samePolled_recordAll (env : ℕ → RecordEnv) (webhook : WebhookConfig)
    (pending : List PendingAlert) : Proc.Within SamePolled (recordAll env webhook pending) :=
  fun w => (within_recordAll env webhook pending w).samePolled

theorem samePolled_ingestPayments (env : PaymentsEnv) :
    Proc.Within SamePolled (ingestPayments D config env rules) :=
  (samePolled_commitPayments env).bind fun _ => samePolled_recordAll _ _ _

/-! ### The lending cycle -/

theorem samePolled_processEvent (prices : PriceMap) (bands : LtvBands) (env : EventEnv)
    (event : RpcEvent) :
    Proc.Within SamePolled (processEvent D X config prices bands env event) := by
  intro w
  rcases processEvent_cases D X config prices bands env event w with
    ⟨e, row, alert, -, -, -, hdb⟩ | ⟨hw, -⟩
  · unfold SamePolled
    rw [hdb]
    cases alert with
    | none => exact ⟨rfl, rfl, rfl⟩
    | some a =>
      simp only [recordedDb]
      split_ifs <;> exact ⟨rfl, rfl, rfl⟩
  · rw [hw]
    exact refl w

theorem samePolled_ingestLendingCycle (env : LendingEnv) (contractIds : List String) :
    Proc.Within SamePolled (ingestLendingCycle D X config env contractIds) := by
  intro w
  by_cases hb : ∃ r, (readBatch env contractIds w).1 = .ret r
  · obtain ⟨⟨bands, events, next⟩, hb⟩ := hb
    have hread : readBatch env contractIds w = (.ret (bands, events, next), w) :=
      Prod.ext hb (readBatch_world env contractIds w)
    rw [ingestLendingCycle_eq, hread]
    have hloop : Proc.Within SamePolled
        (processEvents D X config (config.blendAssetPricesUsd D) bands env.event events) := by
      refine Proc.within_foldlM (fun _ c => ?_) _ _
      exact (samePolled_processEvent _ _ (env.event c.2) c.1).attempt.bind fun _ =>
        Proc.within_pure ()
    refine (hloop.bind fun _ => ?_) w
    cases next with
    | none => exact Proc.within_pure ()
    | some c => exact within_exec fun w => ⟨rfl, rfl, rfl⟩
  · rw [ingestLendingCycle_of_no_batch fun r hr => hb ⟨r, hr⟩]
    exact refl w

/-! ### The commit of a poll -/

/-- The snapshots and the prices of a cycle are those of its commit. -/
theorem samePolled_commitBatch (env : RunEnv) (rules : List AlertRuleRow)
    (pools : List LiquidityPool) (assets : List AssetRecord) (w : World) :
    SamePolled (commitBatch D config env rules pools assets w).2
      ((do
        let pending ← commitBatch D config env rules pools assets
        recordAll env.record config.webhook pending
        ingestPayments D config env.payments rules) w).2 := by
  refine Proc.related_bind (refl _) fun pending _ => ?_
  exact (samePolled_recordAll _ _ _).bind (fun _ => samePolled_ingestPayments env.payments) _

/-- So they are those of the first part of a cycle. -/
theorem samePolled_runOnce (env : CycleEnv) (w : World) :
    SamePolled (runOnce D config env.run w).2 (ingestCycle D X config env w).2 := by
  rcases ingestCycle_world D X config env w with ⟨-, heq⟩ | ⟨-, heq⟩
  · rw [heq]
    exact refl (runOnce D config env.run w).2
  · rw [heq]
    exact samePolled_ingestLendingCycle _ _ _

/-! ### The API -/

theorem ApiWrite.samePolled {s s' : Store} (h : ApiWrite s s') :
    s'.db.poolSnapshots = s.db.poolSnapshots ∧ s'.db.tokenSnapshots = s.db.tokenSnapshots ∧
      s'.db.assetPrices = s.db.assetPrices := by
  cases h with
  | insertChannel body hvalid =>
    unfold insertAlertChannel
    dsimp only
    split_ifs <;> exact ⟨rfl, rfl, rfl⟩
  | upsertItem now body hvalid =>
    unfold upsertWatchlistItem
    dsimp only
    split <;> exact ⟨rfl, rfl, rfl⟩
  | _ => exact ⟨rfl, rfl, rfl⟩

theorem System.request_samePolled {P : Deployment} {s : System} (env : RequestEnv)
    (req : Request) : SamePolled s.world (s.request P env req).world := by
  have hwrites := writes_serve P.server P.extract env req s.store
  unfold System.request
  generalize (serve P.server P.extract env req s.store).2 = store at hwrites ⊢
  induction hwrites with
  | refl => exact refl s.world
  | tail _ hwrite ih => exact IsTrans.trans _ _ _ ih hwrite.samePolled

end Lumina
