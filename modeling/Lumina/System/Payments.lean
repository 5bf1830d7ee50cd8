import Lumina.Alerts.Accounted
import Lumina.Lending.Progress
import Lumina.Payments.Progress
import Lumina.Trace.Progress

/-!
# The payments of the whole system

The payments are the last part of the first half of a cycle: what comes before may fail or stop, the
lending cycle comes after, and requests come at any time.  None of these changes the whale rows or
the payments' cursor (`SamePayments`), so what one cycle does to the payments is all that the system
does to them (`step_payments`).  After any run the rows have no gaps and no duplicates, each payment
judged by the rules that its cycle loaded (`payments_gapFree`).  However the cycles that reach their
payments and fail in nothing are scattered over a run, enough of them bring the rows up to the end
of the log (`payments_catch_up`); and nothing brings them past a payment whose amount is no number
(`payments_blocked`).

## Main definitions

* `SamePayments` : the same whale rows, and the same cursor.
* `beforePayments` : a cycle up to its payments.
* `joinAlong`, `readsAlong` : where a run joins the log, and what its cycles read of it.
* `CatchesUp` : a cycle that reaches its payments, in which nothing fails.
-/

namespace Lumina

open Tx Trace

variable {D : RustDecimal} {X : Codec} {config : Config} {rules : List AlertRuleRow} {w w' : World}

/-- The same whale rows, and the same cursor of the payments. -/
def SamePayments (w w' : World) : Prop :=
  w'.db.whaleTransactions = w.db.whaleTransactions ∧
    getIngestCursor paymentsCursorKey w'.db = getIngestCursor paymentsCursorKey w.db

instance : IsPreorder World SamePayments where
  refl _ := ⟨rfl, rfl⟩
  trans _ _ _ h h' := ⟨h'.1.trans h.1, h'.2.trans h.2⟩

theorem SameIngest.samePayments (h : SameIngest w w') : SamePayments w w' :=
  ⟨h.1, congrFun h.2 _⟩

/-! ### What comes before the payments -/

/-- A cycle up to its payments, with the rules that it has loaded. -/
def beforePayments (D : RustDecimal) (config : Config) (env : RunEnv) :
    Proc World Error (List AlertRuleRow) := do
  let pools ← Proc.lift (Horizon.liquidityPools env.pools config.horizonUrl 10)
  let assets ← Proc.lift (Horizon.assets env.assets config.horizonUrl 10)
  let rules ← loadRules env.rules
  let pending ← commitBatch D config env rules pools assets
  recordAll env.record config.webhook pending
  return rules

theorem runOnce_eq (env : RunEnv) : runOnce D config env =
    beforePayments D config env >>= ingestPayments D config env.payments := by
  unfold runOnce beforePayments
  simp only [bind_assoc, pure_bind]

theorem sameIngest_beforePayments (env : RunEnv) :
    Proc.Within SameIngest (beforePayments D config env) := by
  refine (Proc.within_lift _).bind fun pools => (Proc.within_lift _).bind fun assets => ?_
  have hload : Proc.Within SameIngest (loadRules env.rules) := by
    refine within_fetch.attempt.bind fun r => ?_
    cases r <;> exact Proc.within_pure _
  refine hload.bind fun rules => (sameIngest_commitBatch env pools assets).bind fun pending => ?_
  exact Proc.Within.bind (fun w => (within_recordAll _ _ pending w).sameIngest) fun _ =>
    Proc.within_pure _

/-- The rules of a cycle are those that it loads from the state in which it begins. -/
theorem loaded_beforePayments {env : RunEnv}
    (h : beforePayments D config env w = (.ret rules, w')) :
    rules = if env.rules = .fail then [] else listAlertRules w.db := by
  have hret := congrArg Prod.fst h
  obtain ⟨pools, -, hret⟩ := Proc.bind_fst_eq_ret.1 hret
  obtain ⟨assets, -, hret⟩ := Proc.bind_fst_eq_ret.1 hret
  obtain ⟨loaded, hload, hret⟩ := Proc.bind_fst_eq_ret.1 hret
  obtain ⟨pending, -, hret⟩ := Proc.bind_fst_eq_ret.1 hret
  obtain ⟨_, -, hret⟩ := Proc.bind_fst_eq_ret.1 hret
  obtain rfl := Outcome.ret.inj hret
  have hload : (loadRules env.rules w).1 = .ret loaded := hload
  by_cases hstop : env.rules = .stop
  · rw [hstop] at hload
    cases hload
  · rw [loadRules_of_ne_stop hstop] at hload
    exact (Outcome.ret.inj hload).symm

/-! ### What comes after them -/

/-- The cursor of the lending events is another one. -/
theorem samePayments_eventsCursor (c : String) (w : World) :
    SamePayments w { w with db := setIngestCursor eventsCursorKey c w.db } := by
  have hne : paymentsCursorKey ≠ eventsCursorKey := by decide
  refine ⟨rfl, ?_⟩
  unfold getIngestCursor setIngestCursor
  exact Function.update_of_ne hne (some c) w.db.ingestState

theorem samePayments_ingestLendingCycle (env : LendingEnv) (contractIds : List String) :
    Proc.Within SamePayments (ingestLendingCycle D X config env contractIds) := by
  intro w
  by_cases hb : ∃ r, (readBatch env contractIds w).1 = .ret r
  · obtain ⟨⟨bands, events, next⟩, hb⟩ := hb
    have hread : readBatch env contractIds w = (.ret (bands, events, next), w) :=
      Prod.ext hb (readBatch_world env contractIds w)
    rw [ingestLendingCycle_eq, hread]
    have hloop : Proc.Within SamePayments
        (processEvents D X config (config.blendAssetPricesUsd D) bands env.event events) := by
      refine Proc.within_foldlM (fun _ c => Proc.Within.bind (fun w => ?_) fun _ =>
        Proc.within_pure ()) _ _
      have hevent : Proc.Within SameIngest
          (processEvent D X config (config.blendAssetPricesUsd D) bands (env.event c.2) c.1) :=
        processEvent_frame (env.event c.2) c.1
      exact (hevent.attempt w).samePayments
    refine (hloop.bind fun _ => ?_) w
    cases next with
    | none => exact Proc.within_pure ()
    | some c => exact within_exec (samePayments_eventsCursor c)
  · rw [ingestLendingCycle_of_no_batch fun r hr => hb ⟨r, hr⟩]
    exact refl w

/-! ### What comes between -/

theorem ApiWrite.sameIngest {s s' : Store} (h : ApiWrite s s') :
    s'.db.whaleTransactions = s.db.whaleTransactions ∧ s'.db.ingestState = s.db.ingestState := by
  cases h with
  | insertChannel body hvalid =>
    unfold insertAlertChannel
    dsimp only
    split_ifs <;> exact ⟨rfl, rfl⟩
  | upsertItem now body hvalid =>
    unfold upsertWatchlistItem
    dsimp only
    split <;> exact ⟨rfl, rfl⟩
  | _ => exact ⟨rfl, rfl⟩

theorem System.request_sameIngest {P : Deployment} {s : System} (env : RequestEnv)
    (req : Request) : SameIngest s.world (s.request P env req).world := by
  have hwrites := writes_serve P.server P.extract env req s.store
  unfold System.request
  generalize (serve P.server P.extract env req s.store).2 = store at hwrites ⊢
  induction hwrites with
  | refl => exact refl s.world
  | tail _ hwrite ih => exact IsTrans.trans _ _ _ ih hwrite.sameIngest

theorem System.retain_sameIngest (job : RetentionJob) (s : System) :
    SameIngest s.world (s.retain job).world := by
  unfold System.retain
  rcases job.drop_cases s.store.db with ⟨rows, -, hdb⟩ | ⟨rows, -, hdb⟩
  · rw [hdb]
    exact ⟨rfl, rfl⟩
  · rw [hdb]
    exact ⟨rfl, rfl⟩

/-! ### One step of the system -/

theorem samePayments_cycle (env : CycleEnv) (w : World) :
    SamePayments (runOnce D config env.run w).2 (ingestCycle D X config env w).2 := by
  rcases ingestCycle_world D X config env w with ⟨-, heq⟩ | ⟨-, heq⟩
  · rw [heq]
    exact refl (runOnce D config env.run w).2
  · rw [heq]
    exact samePayments_ingestLendingCycle _ _ _

variable (X) in
/-- A cycle that reaches its payments. -/
theorem cycle_of_before {env : CycleEnv} {w₁ : World}
    (h : beforePayments D config env.run w = (.ret rules, w₁)) :
    SamePayments w w₁ ∧ SamePayments (ingestPayments D config env.run.payments rules w₁).2
      (ingestCycle D X config env w).2 := by
  have hbefore := @sameIngest_beforePayments D config env.run w
  have hcycle := @samePayments_cycle D X config env w
  rw [runOnce_eq, Proc.bind_apply, h] at hcycle
  rw [h] at hbefore
  exact ⟨hbefore.samePayments, hcycle⟩

/-- A cycle does nothing to the payments, or it reaches them. -/
theorem cycle_payments (env : CycleEnv) (w : World) :
    SamePayments w (ingestCycle D X config env w).2 ∨
      ∃ rules w₁, beforePayments D config env.run w = (.ret rules, w₁) := by
  have hbefore := (@sameIngest_beforePayments D config env.run w).samePayments
  have hcycle := @samePayments_cycle D X config env w
  rw [runOnce_eq, Proc.bind_apply] at hcycle
  rcases hr : beforePayments D config env.run w with ⟨o, w₁⟩
  rw [hr] at hcycle hbefore
  cases o with
  | ret rules => exact .inr ⟨rules, w₁, rfl⟩
  | err e => exact .inl (IsTrans.trans _ _ _ hbefore hcycle)
  | stop => exact .inl (IsTrans.trans _ _ _ hbefore hcycle)
  | panic => exact .inl (IsTrans.trans _ _ _ hbefore hcycle)

/-- **One step** does nothing to the payments, or is a cycle and does just what its
`ingestPayments` does. -/
theorem step_payments (P : Deployment) (s : System) (e : SystemEvent) :
    SamePayments s.world (s.step P e).world ∨
      ∃ env rules w₁, e = .cycle env ∧
        beforePayments P.server.decimal P.config env.run s.world = (.ret rules, w₁) ∧
        SamePayments s.world w₁ ∧
        SamePayments (ingestPayments P.server.decimal P.config env.run.payments rules w₁).2
          (s.step P e).world := by
  cases e with
  | cycle env =>
    rcases @cycle_payments P.server.decimal P.codec P.config env s.world with
      hsame | ⟨rules, w₁, hbefore⟩
    · exact .inl hsame
    · exact .inr ⟨env, rules, w₁, rfl, hbefore, cycle_of_before P.codec hbefore⟩
  | request env req => exact .inl (System.request_sameIngest env req).samePayments
  | retention job => exact .inl (System.retain_sameIngest job s).samePayments

/-! ### Runs -/

/-- The rules that a cycle loads as it begins: none where the read fails. -/
def SystemEvent.rulesIn (s : System) : SystemEvent → List AlertRuleRow
  | .cycle env => if env.run.rules = .fail then [] else listAlertRules s.store.db
  | .request _ _ => []
  | .retention _ => []

section Along

variable (P : Deployment) (L : PaymentLog P.config.horizonUrl)

/-- Where the log was joined after a run from `s`: after the payment that gave the first cursor. -/
def joinAlong (join : ℕ) (s : System) : List SystemEvent → ℕ
  | [] => join
  | e :: events =>
    joinAlong (L.joinAfter s.store.db (s.step P e).store.db join) (s.step P e) events

/-- The payments that the cursor passed in a run from `s`, each with the rules of the cycle that
moved it. -/
def readsAlong (s : System) : List SystemEvent → List (PaymentRecord × List AlertRuleRow)
  | [] => []
  | e :: events =>
    (L.passed s.store.db (s.step P e).store.db).map (fun p => (p, e.rulesIn s)) ++
      readsAlong (s.step P e) events

end Along

section Log

variable {P : Deployment} {L : PaymentLog P.config.horizonUrl} {s : System} {e : SystemEvent}
  {events before later : List SystemEvent} {join : ℕ}
  {reads : List (PaymentRecord × List AlertRuleRow)}

/-- The payments of a cycle are answered from the log. -/
def SystemEvent.ServedBy {baseUrl : String} (L : PaymentLog baseUrl) : SystemEvent → Prop
  | .cycle env => L.Serves env.run.payments.server
  | .request _ _ => True
  | .retention _ => True

theorem LogInv.samePayments (h : LogInv D L join reads w.db) (hsame : SamePayments w w') :
    LogInv D L join reads w'.db := by
  obtain ⟨hpassed, hrows, hjoined, htoken⟩ := h
  rw [← hsame.2] at hpassed hjoined htoken
  rw [← hsame.1] at hrows
  exact ⟨hpassed, hrows, hjoined, htoken⟩

theorem SamePayments.position (h : SamePayments w w') : L.position w'.db = L.position w.db := by
  rw [PaymentLog.position, PaymentLog.position, h.2]

theorem SamePayments.follows (h : SamePayments w w') : L.Follows w'.db ↔ L.Follows w.db := by
  rw [PaymentLog.Follows, PaymentLog.Follows, h.2]

theorem SamePayments.joinAfter_eq {w₁ w₁' : World} (h : SamePayments w w₁)
    (h' : SamePayments w₁' w') (join : ℕ) :
    L.joinAfter w.db w'.db join = L.joinAfter w₁.db w₁'.db join := by
  rw [PaymentLog.joinAfter, PaymentLog.joinAfter, h.2, h'.2]

theorem SamePayments.passed_eq {w₁ w₁' : World} (h : SamePayments w w₁)
    (h' : SamePayments w₁' w') : L.passed w.db w'.db = L.passed w₁.db w₁'.db := by
  rw [PaymentLog.passed, PaymentLog.passed, h.2, h'.2]

/-- What does nothing to the payments joins nothing and reads nothing. -/
theorem joinAfter_self (db : Db) (join : ℕ) : L.joinAfter db db join = join := by
  unfold PaymentLog.joinAfter
  cases getIngestCursor paymentsCursorKey db <;> rfl

theorem passed_self (db : Db) : L.passed db db = [] := by
  unfold PaymentLog.passed
  cases getIngestCursor paymentsCursorKey db with
  | none => rfl
  | some c => simp [segment]

/-- **One step of the system** reads the payments that the cursor passes, under its own rules. -/
theorem LogInv.step (h : LogInv P.server.decimal L join reads s.store.db) (he : e.ServedBy L) :
    LogInv P.server.decimal L (L.joinAfter s.store.db (s.step P e).store.db join)
      (reads ++ (L.passed s.store.db (s.step P e).store.db).map fun p => (p, e.rulesIn s))
      (s.step P e).store.db := by
  rcases step_payments P s e with hsame | ⟨env, rules, w₁, rfl, hbefore, hw, hw'⟩
  · have hjoin : L.joinAfter s.store.db (s.step P e).store.db join = join :=
      ((refl s.world : SamePayments _ _).joinAfter_eq hsame join).trans (joinAfter_self _ _)
    have hpassed : L.passed s.store.db (s.step P e).store.db = [] :=
      ((refl s.world : SamePayments _ _).passed_eq hsame).trans (passed_self _)
    rw [hjoin, hpassed, List.map_nil, List.append_nil]
    exact h.samePayments hsame
  · obtain rfl : rules = (SystemEvent.cycle env).rulesIn s := loaded_beforePayments hbefore
    have hinv : LogInv P.server.decimal L join reads w₁.db := h.samePayments hw
    have hcommit := hinv.commit env.run.payments ((SystemEvent.cycle env).rulesIn s) he
    have hgrow := ingestPayments_grow P.server.decimal P.config env.run.payments
      ((SystemEvent.cycle env).rulesIn s) w₁
    have hafter := IsTrans.trans _ _ _ hgrow.sameIngest.samePayments hw'
    have hlast := hcommit.samePayments hafter
    rw [← hw.joinAfter_eq hafter, ← hw.passed_eq hafter] at hlast
    exact hlast

/-- A run reads the payments that the cursor passes, each under the rules of its cycle. -/
theorem LogInv.run (h : LogInv P.server.decimal L join reads s.store.db)
    (hserves : ∀ e ∈ events, e.ServedBy L) :
    LogInv P.server.decimal L (joinAlong P L join s events) (reads ++ readsAlong P L s events)
      (run (System.step P) s events).store.db := by
  induction events generalizing s join reads with
  | nil =>
    rw [readsAlong, List.append_nil]
    exact h
  | cons e events ih =>
    obtain ⟨he, hrest⟩ := List.forall_mem_cons.1 hserves
    rw [readsAlong, ← List.append_assoc]
    exact ih (h.step he) hrest

theorem payments_inv (hserves : ∀ e ∈ events, e.ServedBy L) :
    LogInv P.server.decimal L (joinAlong P L 0 System.empty events)
      (readsAlong P L System.empty events)
      (Trace.run (System.step P) System.empty events).store.db := by
  have hempty : LogInv P.server.decimal L 0 [] System.empty.store.db := ⟨rfl, rfl, nofun, nofun⟩
  exact hempty.run hserves

/-- **The payments of the system have no gaps and no duplicates.**  After any run the rows are those
of the payments from the first cursor to the present one that met the threshold of the rules which
their cycle loaded as it began, each with one row. -/
theorem payments_gapFree (hserves : ∀ e ∈ events, e.ServedBy L) :
    GapFree P.server.decimal L (joinAlong P L 0 System.empty events)
      (readsAlong P L System.empty events)
      (Trace.run (System.step P) System.empty events).store.db :=
  (payments_inv hserves).to_gapFree

/-! ### Progress -/

/-- **Every step** leaves a cursor that is the token of a payment, does not move it back, and does
not move it past an amount that is no number. -/
theorem step_follows (hfollows : L.Follows s.store.db) (he : e.ServedBy L) :
    L.Follows (s.step P e).store.db ∧
      L.position s.store.db ≤ L.position (s.step P e).store.db ∧
      ∀ i p, L.records[i]? = some p → Unparsed P.server.decimal p →
        L.position s.store.db ≤ i → L.position (s.step P e).store.db ≤ i := by
  rcases step_payments P s e with hsame | ⟨env, rules, w₁, rfl, -, hw, hw'⟩
  · have hpos : L.position (s.step P e).store.db = L.position s.store.db := hsame.position
    rw [hpos]
    exact ⟨hsame.follows.2 hfollows, le_rfl, fun _ _ _ _ hle => hle⟩
  · have hnext := @ingestPayments_follows P.server.decimal P.config w₁ L env.run.payments rules
      (hw.follows.2 hfollows) he
    rw [hw.position, ← hw'.position, ← hw'.follows] at hnext
    exact hnext

theorem run_follows (hfollows : L.Follows s.store.db) (hserves : ∀ e ∈ events, e.ServedBy L) :
    L.Follows (Trace.run (System.step P) s events).store.db ∧
      joinAlong P L join s events = join := by
  induction events generalizing s join with
  | nil => exact ⟨hfollows, rfl⟩
  | cons e events ih =>
    obtain ⟨he, hrest⟩ := List.forall_mem_cons.1 hserves
    have hjoin : L.joinAfter s.store.db (s.step P e).store.db join = join := by
      obtain ⟨c, hcursor, -⟩ := hfollows
      rw [PaymentLog.joinAfter, hcursor]
    rw [joinAlong, hjoin]
    exact ih (step_follows hfollows he).1 hrest

theorem joinAlong_append (s : System) (before later : List SystemEvent) :
    joinAlong P L join s (before ++ later) =
      joinAlong P L (joinAlong P L join s before) (Trace.run (System.step P) s before) later := by
  induction before generalizing s join with
  | nil => rfl
  | cons e before ih => exact ih _

/-- A cycle that reaches its payments, in which nothing fails and every payment is read. -/
def CatchesUp (P : Deployment) (L : PaymentLog P.config.horizonUrl) (s : System) :
    SystemEvent → Prop
  | .cycle env => ∃ rules w₁,
      beforePayments P.server.decimal P.config env.run s.world = (.ret rules, w₁) ∧
      env.run.payments.GoesThrough ∧ L.Answers env.run.payments.server ∧
      ∀ p ∈ L.records.drop (L.position s.store.db),
        Readable P.server.decimal P.config rules p
  | .request _ _ => False
  | .retention _ => False

/-- **Such a cycle** moves the cursor on by 5000 payments, or to the end of the log. -/
theorem CatchesUp.advances (h : CatchesUp P L s e) (hfollows : L.Follows s.store.db) :
    L.position (s.step P e).store.db =
      min (L.position s.store.db + 5000) L.records.length := by
  cases e with
  | cycle env =>
    obtain ⟨rules, w₁, hbefore, hgo, hanswers, hread⟩ := h
    obtain ⟨hw, hw'⟩ := cycle_of_before P.codec hbefore
    have hpos : L.position w₁.db = L.position s.store.db := hw.position
    rw [← hpos] at hread ⊢
    exact hw'.position.trans
      (ingestPayments_advances hgo hanswers (hw.follows.2 hfollows) hread)
  | request env req => exact h.elim
  | retention job => exact h.elim

/-- **Payments catch up.**  After any run, let cycles that reach their payments and fail in nothing
be scattered over a further one, between cycles that fail or stop anywhere, requests and jobs.  If
they are enough, the cursor comes to the end of the log: the payments that the two runs read are all
those from the first cursor on, and the rows are those of them that met the threshold of the rules
which their cycle loaded, each with one row. -/
theorem payments_catch_up {c : String} {n : ℕ}
    (hserves : ∀ e ∈ before ++ later, e.ServedBy L)
    (hs : s = Trace.run (System.step P) System.empty before)
    (hcursor : getIngestCursor paymentsCursorKey s.store.db = some c)
    (hoften : Often (System.step P) (CatchesUp P L) n s later)
    (hlong : L.records.length ≤ L.pos c + 5000 * n) :
    joinAlong P L 0 System.empty (before ++ later) ≤ L.pos c ∧
      (readsAlong P L System.empty (before ++ later)).map (·.1) =
        segment L.records (joinAlong P L 0 System.empty (before ++ later)) L.records.length ∧
      GapFree P.server.decimal L (joinAlong P L 0 System.empty (before ++ later))
        (readsAlong P L System.empty (before ++ later))
        (Trace.run (System.step P) s later).store.db := by
  obtain ⟨hbefore, hlater⟩ := List.forall_mem_append.1 hserves
  have hinv := payments_inv hserves
  subst hs
  have hfollows : L.Follows (Trace.run (System.step P) System.empty before).store.db :=
    ⟨c, hcursor, (payments_inv hbefore).token c hcursor⟩
  obtain ⟨⟨c', hcursor', -⟩, hjoin⟩ := @run_follows P L _ later
    (joinAlong P L 0 System.empty before) hfollows hlater
  have hprogress := hoften.progress hlater hfollows
    (fun s e hs he => ⟨(step_follows hs he).1, (step_follows hs he).2.1⟩)
    fun s e hs he => (he.advances hs).ge
  rw [L.position_of_cursor hcursor, L.position_of_cursor hcursor'] at hprogress
  have hend : L.pos c' = L.records.length := by
    have hle := L.pos_le c'
    omega
  rw [run_append] at hinv
  refine ⟨?_, ?_, hinv.to_gapFree⟩
  · rw [joinAlong_append, hjoin]
    exact (payments_inv hbefore).joined c hcursor
  · have hpassed := hinv.passed
    rw [hcursor'] at hpassed
    rw [← hend]
    exact hpassed

theorem run_blocked {i : ℕ} {p : PaymentRecord} (hi : L.records[i]? = some p)
    (hbad : Unparsed P.server.decimal p) (hserves : ∀ e ∈ later, e.ServedBy L)
    (hfollows : L.Follows s.store.db) (hpos : L.position s.store.db ≤ i) :
    L.Follows (run (System.step P) s later).store.db ∧
      L.position (run (System.step P) s later).store.db ≤ i := by
  induction later generalizing s with
  | nil => exact ⟨hfollows, hpos⟩
  | cons e later ih =>
    obtain ⟨he, hrest⟩ := List.forall_mem_cons.1 hserves
    obtain ⟨hnext, -, hblocked⟩ := step_follows hfollows he
    exact ih hrest hnext (hblocked i p hi hbad hpos)

/-- **An amount that is no number blocks the payments.**  Once the cursor is before such a payment,
neither it nor a payment after it is recorded, whatever comes. -/
theorem payments_blocked {i : ℕ} {p : PaymentRecord} (hi : L.records[i]? = some p)
    (hbad : Unparsed P.server.decimal p) (hserves : ∀ e ∈ before ++ later, e.ServedBy L)
    (hs : s = run (System.step P) System.empty before)
    (hfollows : L.Follows s.store.db) (hpos : L.position s.store.db ≤ i) :
    ∀ q ∈ L.records.drop i, ¬ Recorded q (run (System.step P) s later).store.db := by
  intro q hq
  obtain ⟨-, hlater⟩ := List.forall_mem_append.1 hserves
  obtain ⟨⟨c, hcursor, -⟩, hle⟩ := run_blocked hi hbad hlater hfollows hpos
  rw [L.position_of_cursor hcursor] at hle
  have hinv := payments_inv hserves
  subst hs
  rw [← run_append] at hcursor ⊢
  refine hinv.not_recorded hcursor (L.pos_le c) ?_
  rw [segment, List.take_length]
  exact List.drop_subset_drop_left _ hle hq

end Log

namespace Sample

/-- A deployment that reads the amounts of the two payments. -/
def payingDeployment : Deployment :=
  { opsDeployment with server := { adminServer with decimal := amounts } }

/-- A cycle that stops in the commit of its snapshots. -/
def cutCycle : CycleEnv :=
  { paid .ok with run := { (paid .ok).run with commit := .stop } }

theorem servedBy_paid : ∀ e ∈ [SystemEvent.cycle (paid .ok), .cycle cutCycle, .cycle (paid .ok)],
    e.ServedBy log :=
  List.forall_mem_cons.2 ⟨serves_horizon,
    List.forall_mem_cons.2 ⟨serves_horizon, List.forall_mem_singleton.2 serves_horizon⟩⟩

/-- The log is joined after the first payment, and the second one is read under no rules. -/
theorem paid_gapFree :
    joinAlong payingDeployment log 0 System.empty
        [.cycle (paid .ok), .cycle cutCycle, .cycle (paid .ok)] = 1 ∧
      readsAlong payingDeployment log System.empty
        [.cycle (paid .ok), .cycle cutCycle, .cycle (paid .ok)] = [(whalePayment, [])] ∧
      GapFree amounts log 1 [(whalePayment, [])] (run (System.step payingDeployment) System.empty
        [.cycle (paid .ok), .cycle cutCycle, .cycle (paid .ok)]).store.db := by
  have hjoin : joinAlong payingDeployment log 0 System.empty
      [.cycle (paid .ok), .cycle cutCycle, .cycle (paid .ok)] = 1 := by
    decide +kernel
  have hreads : readsAlong payingDeployment log System.empty
      [.cycle (paid .ok), .cycle cutCycle, .cycle (paid .ok)] = [(whalePayment, [])] := by
    decide +kernel
  have h := @payments_gapFree payingDeployment log _ servedBy_paid
  rw [hjoin, hreads] at h
  exact ⟨hjoin, hreads, h⟩

/-- The state after the cycle that seeds the cursor. -/
def seededSystem (P : Deployment) : System :=
  run (System.step P) System.empty [.cycle (paid .ok)]

theorem paid_catchesUp :
    CatchesUp payingDeployment log
      ((seededSystem payingDeployment).step payingDeployment (.cycle cutCycle))
      (.cycle (paid .ok)) := by
  refine ⟨[], _, Prod.ext (by decide +kernel) rfl, paymentsEnv_goesThrough, answers_horizon,
    fun p hp => ?_⟩
  have hmem : p ∈ log.records.drop (log.position
      ((seededSystem payingDeployment).step payingDeployment (.cycle cutCycle)).store.db) := hp
  have hpos : log.records.drop (log.position
      ((seededSystem payingDeployment).step payingDeployment (.cycle cutCycle)).store.db) =
        [whalePayment] := by
    decide +kernel
  rw [hpos, List.mem_singleton] at hmem
  rw [hmem]
  exact whalePayment_readable

/-- A cycle that is cut off delays the row and no more. -/
theorem paid_caught_up :
    (readsAlong payingDeployment log System.empty
        ([.cycle (paid .ok)] ++ [.cycle cutCycle, .cycle (paid .ok)])).map (·.1) =
        [whalePayment] ∧
      GapFree amounts log 1 [(whalePayment, [])] (run (System.step payingDeployment)
        (seededSystem payingDeployment) [.cycle cutCycle, .cycle (paid .ok)]).store.db ∧
      (run (System.step payingDeployment) (seededSystem payingDeployment)
        [.cycle cutCycle, .cycle (paid .ok)]).store.db.whaleTransactions = [paidRow] := by
  have hcursor : getIngestCursor paymentsCursorKey (seededSystem payingDeployment).store.db =
      some "231000000000001" := by
    decide +kernel
  have hoften : Often (System.step payingDeployment) (CatchesUp payingDeployment log) 1
      (seededSystem payingDeployment) [.cycle cutCycle, .cycle (paid .ok)] :=
    .wait (.hit paid_catchesUp .done)
  obtain ⟨-, hread, hgap⟩ := payments_catch_up
    (show ∀ e ∈ [SystemEvent.cycle (paid .ok)] ++ [.cycle cutCycle, .cycle (paid .ok)],
      e.ServedBy log from servedBy_paid) rfl hcursor hoften (by decide +kernel)
  have hjoin : joinAlong payingDeployment log 0 System.empty
      ([.cycle (paid .ok)] ++ [.cycle cutCycle, .cycle (paid .ok)]) = 1 := by
    decide +kernel
  have hreads : readsAlong payingDeployment log System.empty
      ([.cycle (paid .ok)] ++ [.cycle cutCycle, .cycle (paid .ok)]) = [(whalePayment, [])] := by
    decide +kernel
  rw [hjoin] at hread hgap
  rw [hreads] at hgap
  exact ⟨hread, hgap, by decide +kernel⟩

/-- Where no amount is read, the second payment is never recorded. -/
theorem paid_blocked : ¬ Recorded whalePayment (run (System.step opsDeployment)
    (seededSystem opsDeployment) [.cycle cutCycle, .cycle (paid .ok)]).store.db := by
  have hfollows : log.Follows (seededSystem opsDeployment).store.db :=
    ⟨"231000000000001", by decide +kernel, smallPayment, List.mem_cons_self, rfl⟩
  exact @payments_blocked opsDeployment log _ [.cycle (paid .ok)] _ 1 whalePayment rfl
    ⟨"25000.0000000", rfl, rfl⟩ servedBy_paid rfl hfollows (by decide +kernel) whalePayment
    (List.mem_singleton_self _)

end Sample

end Lumina
