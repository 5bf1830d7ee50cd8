import Lumina.Model.Ingest

/-!
# One payment, and the loop over payments

In a transaction without a failed statement, a payment that meets its threshold adds its row
unless a row with its operation id and the clock's time is there already
(`ingestWhalePayment_ret`).  The loop adds such a row for every payment that is not yet recorded
(`ingestWhalePayments_ret`).

## Main definitions

* `qualifies` : the amount of a payment that meets its threshold.
* `Recorded` : a row has the payment's operation id.
* `timeless` : a row without its time, which is the clock's and not the payment's.
-/

namespace Lumina

variable {D : RustDecimal} {threshold : F64} {rules : List AlertRuleRow} {p : PaymentRecord}
  {w w' : World}

/-- The amount of a payment that parses and meets its threshold. -/
def qualifies (D : RustDecimal) (threshold : F64) (rules : List AlertRuleRow)
    (p : PaymentRecord) : Option Decimal :=
  match paymentWhaleAmount D threshold rules p with
  | .ret amount => amount
  | _ => none

/-- A row has the payment's operation id. -/
def Recorded (p : PaymentRecord) (db : Db) : Prop := ∃ row ∈ db.whaleTransactions, row.opId = p.id

/-- A row has the payment's operation id and the given time: the insertion would conflict. -/
def Conflicts (time : Time) (p : PaymentRecord) (db : Db) : Prop :=
  ∃ row ∈ db.whaleTransactions, row.opId = p.id ∧ row.time = time

theorem Conflicts.recorded {time : Time} {db : Db} (h : Conflicts time p db) : Recorded p db := by
  obtain ⟨row, hr, hid, -⟩ := h
  exact ⟨row, hr, hid⟩

/-- A row without its time. -/
def WhaleTransactionRow.timeless (row : WhaleTransactionRow) : WhaleTransactionRow :=
  { row with time := 0 }

@[simp] theorem whaleRow_opId (time : Time) (amount : Decimal) :
    (whaleRow time p amount).opId = p.id := rfl

@[simp] theorem whaleRow_time (time : Time) (amount : Decimal) :
    (whaleRow time p amount).time = time := rfl

@[simp] theorem whaleRow_timeless (time : Time) (amount : Decimal) :
    (whaleRow time p amount).timeless = whaleRow 0 p amount := rfl

/-- The database with more whale rows. -/
def addWhales (rows : List WhaleTransactionRow) (w : World) : World :=
  { w with db := { w.db with whaleTransactions := w.db.whaleTransactions ++ rows } }

@[simp] theorem addWhales_nil : addWhales [] w = w := by simp [addWhales]

theorem addWhales_append (rows more : List WhaleTransactionRow) :
    addWhales more (addWhales rows w) = addWhales (rows ++ more) w := by
  simp [addWhales, List.append_assoc]

/-- The alert of a whale row, under the threshold of its asset. -/
def rowAlert (D : RustDecimal) (threshold : F64) (rules : List AlertRuleRow)
    (row : WhaleTransactionRow) : Option PendingAlert :=
  whaleAlert D row (resolveWhaleThreshold rules row.assetCode row.assetIssuer
    ((D.tryFromF64 threshold).getD 0))

theorem insertWhaleTransaction_conflict {time : Time} {amount : Decimal} {db : Db}
    (h : Conflicts time p db) :
    insertWhaleTransaction (whaleRow time p amount) db = (false, db) := by
  obtain ⟨row, hr, hid, ht⟩ := h
  rw [insertWhaleTransaction, if_pos]
  rw [List.any_eq_true]
  exact ⟨row, hr, by simp [hid, ht]⟩

theorem insertWhaleTransaction_new {time : Time} {amount : Decimal} {db : Db}
    (h : ¬ Conflicts time p db) :
    insertWhaleTransaction (whaleRow time p amount) db =
      (true,
        { db with whaleTransactions := db.whaleTransactions ++ [whaleRow time p amount] }) := by
  rw [insertWhaleTransaction, if_neg]
  rw [List.any_eq_true]
  rintro ⟨row, hr, hrow⟩
  rw [Bool.and_eq_true, decide_eq_true_eq, decide_eq_true_eq] at hrow
  exact h ⟨row, hr, hrow⟩

/-- A payment that qualifies and conflicts with no row adds its row. -/
theorem ingestWhalePayment_new {env : WhaleEnv} {amount : Decimal} {a : PendingAlert}
    (hq : paymentWhaleAmount D threshold rules p = .ret (some amount)) (hi : env.insert = .ok)
    (hc : ¬ Conflicts env.now p w.db)
    (ha : rowAlert D threshold rules (whaleRow env.now p amount) = some a) :
    ingestWhalePayment D env p threshold rules ⟨w, false⟩ =
      (.ret (some a), ⟨addWhales [whaleRow env.now p amount] w, false⟩) := by
  have ha' : whaleAlert D (whaleRow env.now p amount) (whaleThreshold D threshold rules p) =
      some a := ha
  simp only [ingestWhalePayment, Proc.bind_apply, Proc.lift_apply, hq, Tx.execReturning, hi,
    Tx.statement_ok, insertWhaleTransaction_new hc]
  simp [ha', Proc.bind_apply, addWhales]

/-- A payment that conflicts with a row does nothing. -/
theorem ingestWhalePayment_conflict {env : WhaleEnv} {amount : Decimal}
    (hq : paymentWhaleAmount D threshold rules p = .ret (some amount)) (hi : env.insert = .ok)
    (hc : Conflicts env.now p w.db) :
    ingestWhalePayment D env p threshold rules ⟨w, false⟩ = (.ret none, ⟨w, false⟩) := by
  simp only [ingestWhalePayment, Proc.bind_apply, Proc.lift_apply, hq, Tx.execReturning, hi,
    Tx.statement_ok, insertWhaleTransaction_conflict hc]
  rfl

/-- **One payment that goes through.**  It does not qualify and nothing happens; or it conflicts
with a row and nothing happens; or its row is added and its alert returned. -/
theorem ingestWhalePayment_ret {env : WhaleEnv} {alert : Option PendingAlert} {t : Tx World}
    (h : ingestWhalePayment D env p threshold rules ⟨w, false⟩ = (.ret alert, t)) :
    (paymentWhaleAmount D threshold rules p = .ret none ∧ alert = none ∧ t = ⟨w, false⟩) ∨
    ∃ amount, paymentWhaleAmount D threshold rules p = .ret (some amount) ∧
      (Conflicts env.now p w.db ∧ alert = none ∧ t = ⟨w, false⟩ ∨
        ¬ Conflicts env.now p w.db ∧
          (∃ a, alert = some a ∧
            rowAlert D threshold rules (whaleRow env.now p amount) = some a) ∧
          t = ⟨addWhales [whaleRow env.now p amount] w, false⟩) := by
  unfold ingestWhalePayment at h
  rw [Proc.bind_apply, Proc.lift_apply] at h
  cases hq : paymentWhaleAmount D threshold rules p with
  | ret q =>
    rw [hq] at h
    cases q with
    | none =>
      obtain ⟨rfl, rfl⟩ : none = alert ∧ (⟨w, false⟩ : Tx World) = t := by simpa using h
      exact .inl ⟨rfl, rfl, rfl⟩
    | some amount =>
      refine .inr ⟨amount, rfl, ?_⟩
      simp only [Proc.bind_apply, Tx.execReturning] at h
      cases hi : env.insert with
      | ok =>
        by_cases hc : Conflicts env.now p w.db
        · simp only [hi, Tx.statement_ok, insertWhaleTransaction_conflict hc] at h
          obtain ⟨rfl, rfl⟩ : none = alert ∧ (⟨w, false⟩ : Tx World) = t := by simpa using h
          exact .inl ⟨hc, rfl, rfl⟩
        · simp only [hi, Tx.statement_ok, insertWhaleTransaction_new hc] at h
          refine .inr ⟨hc, ?_⟩
          cases ha : whaleAlert D (whaleRow env.now p amount)
            (whaleThreshold D threshold rules p) with
          | none => simp [ha, Proc.bind_apply] at h
          | some a =>
            obtain ⟨rfl, rfl⟩ : some a = alert ∧
                (⟨addWhales [whaleRow env.now p amount] w, false⟩ : Tx World) = t := by
              simpa [ha, addWhales, Proc.bind_apply] using h
            exact ⟨⟨a, rfl, ha⟩, rfl⟩
      | fail => simp [hi] at h
      | stop => simp [hi] at h
  | err e => simp [hq] at h
  | stop => simp [hq] at h
  | panic => simp [hq] at h

/-! ### The loop -/

/-- The rows, without their times, of the payments that qualify. -/
def whaleRows (D : RustDecimal) (threshold : F64) (rules : List AlertRuleRow)
    (payments : List PaymentRecord) : List WhaleTransactionRow :=
  payments.filterMap fun p => (qualifies D threshold rules p).map (whaleRow 0 p)

variable {config : Config} {env : PaymentsEnv}

/-- The loop over numbered payments. -/
def whaleLoop (D : RustDecimal) (config : Config) (env : PaymentsEnv) (rules : List AlertRuleRow)
    (l : List (PaymentRecord × ℕ)) (s : List PendingAlert × String) :
    Proc (Tx World) Error (List PendingAlert × String) :=
  l.foldlM (fun (pending, _) (p, i) => do
    match ← ingestWhalePayment D (env.whale i) p config.whaleThreshold rules with
    | some alert => return (pending ++ [alert], p.pagingToken)
    | none => return (pending, p.pagingToken)) s

theorem ingestWhalePayments_eq (payments : List PaymentRecord) (cursor : String) :
    ingestWhalePayments D config env rules payments cursor =
      whaleLoop D config env rules payments.zipIdx ([], cursor) := rfl

/-- One round of a loop that goes through. -/
theorem whaleLoop_cons {i : ℕ} {l : List (PaymentRecord × ℕ)} {s : List PendingAlert × String}
    {r : List PendingAlert × String} {t t' : Tx World}
    (h : whaleLoop D config env rules ((p, i) :: l) s t = (.ret r, t')) :
    ∃ alert t₁, ingestWhalePayment D (env.whale i) p config.whaleThreshold rules t =
        (.ret alert, t₁) ∧
      whaleLoop D config env rules l (s.1 ++ alert.toList, p.pagingToken) t₁ = (.ret r, t') := by
  rw [whaleLoop, List.foldlM_cons, Proc.bind_apply] at h
  simp only [Proc.bind_apply] at h
  generalize ingestWhalePayment D (env.whale i) p config.whaleThreshold rules t = q at h
  obtain ⟨o, t₁⟩ := q
  cases o with
  | ret alert =>
    refine ⟨alert, t₁, rfl, ?_⟩
    cases alert with
    | none => simpa [whaleLoop] using h
    | some a => simpa [whaleLoop] using h
  | err e => simp at h
  | stop => simp at h
  | panic => simp at h

theorem recorded_addWhales {rows : List WhaleTransactionRow} :
    Recorded p (addWhales rows w).db ↔ Recorded p w.db ∨ ∃ row ∈ rows, row.opId = p.id := by
  simp only [Recorded, addWhales, List.mem_append]
  constructor
  · rintro ⟨row, hr | hr, hid⟩
    · exact .inl ⟨row, hr, hid⟩
    · exact .inr ⟨row, hr, hid⟩
  · rintro (⟨row, hr, hid⟩ | ⟨row, hr, hid⟩)
    · exact ⟨row, .inl hr, hid⟩
    · exact ⟨row, .inr hr, hid⟩

theorem qualifies_of_ret {amount : Option Decimal}
    (h : paymentWhaleAmount D threshold rules p = .ret amount) :
    qualifies D threshold rules p = amount := by
  rw [qualifies, h]

/-- **The loop, where it goes through.**  It adds rows and collects their alerts; where no
payment is recorded yet and none comes twice, these are the rows of all payments that qualify. -/
theorem whaleLoop_ret {l : List (PaymentRecord × ℕ)} {s r : List PendingAlert × String}
    {t : Tx World} (h : whaleLoop D config env rules l s ⟨w, false⟩ = (.ret r, t)) :
    ∃ rows alerts, t = ⟨addWhales rows w, false⟩ ∧ r.1 = s.1 ++ alerts ∧
      r.2 = (l.getLast?.map (·.1.pagingToken)).getD s.2 ∧
      List.Forall₂ (fun row a => rowAlert D config.whaleThreshold rules row = some a) rows alerts ∧
      ((l.map (·.1.id)).Nodup → (∀ q ∈ l, ¬ Recorded q.1 w.db) →
        rows.map (·.timeless) = whaleRows D config.whaleThreshold rules (l.map (·.1))) := by
  induction l generalizing s w with
  | nil =>
    obtain ⟨rfl, rfl⟩ : s = r ∧ (⟨w, false⟩ : Tx World) = t := by simpa [whaleLoop] using h
    exact ⟨[], [], by simp, by simp, rfl, .nil, fun _ _ => rfl⟩
  | cons q l ih =>
    obtain ⟨p, i⟩ := q
    obtain ⟨alert, t₁, hp, hl⟩ := whaleLoop_cons h
    have hlast : ((((p, i) :: l).getLast?).map (·.1.pagingToken)).getD s.2 =
        ((l.getLast?).map (·.1.pagingToken)).getD p.pagingToken := by
      cases l with
      | nil => rfl
      | cons q l => simp [List.getLast?_cons]
    rcases ingestWhalePayment_ret hp with ⟨hq, rfl, rfl⟩ | ⟨amount, hq, hcases⟩
    · -- the payment does not qualify
      obtain ⟨rows, alerts, rfl, hr, hr', hfor, hrows⟩ := ih hl
      refine ⟨rows, alerts, rfl, by simpa using hr, hr'.trans hlast.symm, hfor,
        fun hids hnew => ?_⟩
      rw [hrows (List.nodup_cons.1 hids).2 fun q hq => hnew q (List.mem_cons_of_mem _ hq)]
      simp [whaleRows, qualifies_of_ret hq]
    · rcases hcases with ⟨hc, rfl, rfl⟩ | ⟨hc, ⟨a, rfl, ha⟩, rfl⟩
      · -- it conflicts, so it was recorded before
        obtain ⟨rows, alerts, rfl, hr, hr', hfor, -⟩ := ih hl
        exact ⟨rows, alerts, rfl, by simpa using hr, hr'.trans hlast.symm, hfor,
          fun _ hnew => absurd hc.recorded (hnew (p, i) (by simp))⟩
      · -- its row is added, and the later payments have other ids
        obtain ⟨rows, alerts, rfl, hr, hr', hfor, hrows⟩ := ih hl
        refine ⟨whaleRow (env.whale i).now p amount :: rows, a :: alerts, ?_, by simpa using hr,
          hr'.trans hlast.symm, hfor.cons ha, fun hids hnew => ?_⟩
        · rw [addWhales_append]
          rfl
        · rw [List.map_cons, List.nodup_cons] at hids
          have hrest := hrows hids.2 fun q hq => ?_
          · rw [List.map_cons, hrest]
            simp [whaleRows, qualifies_of_ret hq]
          · rw [recorded_addWhales]
            rintro (hrec | ⟨row, hrow, hid⟩)
            · exact hnew q (List.mem_cons_of_mem _ hq) hrec
            · obtain rfl := List.mem_singleton.1 hrow
              exact hids.1 (List.mem_map.2 ⟨q, hq, hid.symm⟩)

/-- What a batch of payments adds: rows, with an alert for each of them, and all the rows of the
payments that qualify where no payment is recorded yet and none comes twice. -/
structure Reads (D : RustDecimal) (config : Config) (rules : List AlertRuleRow)
    (payments : List PaymentRecord) (rows : List WhaleTransactionRow)
    (pending : List PendingAlert) (w : World) : Prop where
  alerts : List.Forall₂ (fun row a => rowAlert D config.whaleThreshold rules row = some a) rows
    pending
  rows : (payments.map (·.id)).Nodup → (∀ p ∈ payments, ¬ Recorded p w.db) →
    rows.map (·.timeless) = whaleRows D config.whaleThreshold rules payments

theorem exists_of_forall₂ {α β : Type} {R : α → β → Prop} {l : List α} {l' : List β}
    (h : List.Forall₂ R l l') {a : α} (ha : a ∈ l) : ∃ b ∈ l', R a b := by
  induction h with
  | nil => simp at ha
  | @cons c d _ _ hcd _ ih =>
    rcases List.mem_cons.1 ha with rfl | ha
    · exact ⟨d, by simp, hcd⟩
    · obtain ⟨b, hb, hab⟩ := ih ha
      exact ⟨b, List.mem_cons_of_mem _ hb, hab⟩

theorem Reads.row_of_alert {payments : List PaymentRecord} {rows : List WhaleTransactionRow}
    {pending : List PendingAlert} (h : Reads D config rules payments rows pending w)
    {a : PendingAlert} (ha : a ∈ pending) :
    ∃ row ∈ rows, rowAlert D config.whaleThreshold rules row = some a :=
  exists_of_forall₂ h.alerts.flip ha

/-- The loop over a batch of payments, where it goes through. -/
theorem ingestWhalePayments_ret {payments : List PaymentRecord} {cursor last : String}
    {pending : List PendingAlert} {t : Tx World}
    (h : ingestWhalePayments D config env rules payments cursor ⟨w, false⟩ =
      (.ret (pending, last), t)) :
    ∃ rows, t = ⟨addWhales rows w, false⟩ ∧
      last = ((payments.getLast?).map (·.pagingToken)).getD cursor ∧
      Reads D config rules payments rows pending w := by
  rw [ingestWhalePayments_eq] at h
  obtain ⟨rows, alerts, ht, hr, hr', hfor, hrows⟩ := whaleLoop_ret h
  have hfst : payments.zipIdx.map (·.1) = payments := List.zipIdx_map_fst 0 _
  have hids : payments.zipIdx.map (·.1.id) = payments.map (·.id) := by
    conv_rhs => rw [← hfst, List.map_map]
    rfl
  obtain rfl : pending = alerts := by simpa using hr
  refine ⟨rows, ht, ?_, hfor, ?_⟩
  · simpa [Option.map_map, Function.comp_def] using hr'
  · intro hnodup hnew
    rw [hids, hfst] at hrows
    exact hrows hnodup fun q hq => hnew q.1 (List.fst_mem_of_mem_zipIdx hq)

end Lumina

/-! ### Sample payments -/

namespace Lumina.Sample

/-- The exact arithmetic, with the amounts of the sample payments. -/
def amounts : RustDecimal := .exact fun text =>
  if text = "25000.0000000" then some 25000 else if text = "12.5000000" then some (25 / 2)
  else none

/-- A payment of XLM as Horizon reports it. -/
def payment (token amount : String) : PaymentRecord where
  id := token
  pagingToken := token
  opType := "payment"
  transactionHash := "5ebd5c0af4385500b53dd63b0ef5f6e8feef1a7e1c86989be3cdcce825f3c0cc"
  fromAccount := some "GAAQCAIBAEAQCAIBAEAQCAIBAEAQCAIBAEAQCAIBAEAQCAIBAEAQDZ7H"
  toAccount := some "GAAQCAIBAEAQCAIBAEAQCAIBAEAQCAIBAEAQCAIBAEAQCAIBAEAQDZ7H"
  sourceAccount := some "GAAQCAIBAEAQCAIBAEAQCAIBAEAQCAIBAEAQCAIBAEAQCAIBAEAQDZ7H"
  assetType := some "native"
  assetCode := none
  assetIssuer := none
  amount := some amount

/-- A payment below the default threshold, and one above it. -/
def smallPayment : PaymentRecord := payment "231000000000001" "12.5000000"

def whalePayment : PaymentRecord := payment "231000000000002" "25000.0000000"

end Lumina.Sample
