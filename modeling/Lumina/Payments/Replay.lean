import Lumina.Payments.Whale

/-!
# Payments that come again

The row of a payment is kept apart from the others by its operation id together with the time
read from the clock when it is inserted.  A payment that is already recorded and comes again is
therefore recorded once more, with another alert, unless it does not meet its threshold any more
or the clock shows the time of one of its rows (`Calls.idempotent_iff`).

## Main definitions

* `Call` : a call of `ingestWhalePayment` that was committed, with the worlds around it.
* `Calls` : sequences of calls.
* `Idempotent` : no call repeats a row or an alert.
-/

namespace Lumina

variable {D : RustDecimal} {threshold : F64} {w w' : World}

/-- A call of `ingestWhalePayment`, its result, and the worlds before and after it. -/
structure Call where
  env : WhaleEnv
  payment : PaymentRecord
  rules : List AlertRuleRow
  before : World
  result : Option PendingAlert
  after : World

/-- The call goes through. -/
def Call.Goes (D : RustDecimal) (threshold : F64) (c : Call) : Prop :=
  ingestWhalePayment D c.env c.payment threshold c.rules ⟨c.before, false⟩ =
    (.ret c.result, ⟨c.after, false⟩)

/-- Sequences of calls that were committed, by any ingesters, from `w`. -/
inductive Calls (D : RustDecimal) (threshold : F64) (w : World) : List Call → World → Prop
  | nil : Calls D threshold w [] w
  | snoc {calls : List Call} {c : Call} :
      Calls D threshold w calls c.before → c.Goes D threshold →
      Calls D threshold w (calls ++ [c]) c.after

/-- The payment of the call is recorded already. -/
def Call.Repeated (c : Call) : Prop := Recorded c.payment c.before.db

/-- The call inserts no row and returns no alert. -/
def Call.Silent (c : Call) : Prop :=
  c.result = none ∧ c.after.db.whaleTransactions = c.before.db.whaleTransactions

/-- No repeated call inserts a row or returns an alert, no two rows have the same operation id,
and no payment is alerted twice. -/
structure Idempotent (calls : List Call) (w' : World) : Prop where
  silent : ∀ c ∈ calls, c.Repeated → c.Silent
  once : (w'.db.whaleTransactions.map (·.opId)).Nodup
  alerted : ((calls.filter (·.result.isSome)).map (·.payment.id)).Nodup

/-- A repeated call does not meet its threshold, or its clock shows the time of a row. -/
def Call.Harmless (D : RustDecimal) (threshold : F64) (c : Call) : Prop :=
  qualifies D threshold c.rules c.payment = none ∨ Conflicts c.env.now c.payment c.before.db

variable {calls : List Call} {c : Call}

/-- One call: it is silent, or it inserts the row of a payment that qualifies and conflicts with
no row, and returns its alert. -/
theorem Call.Goes.cases (h : c.Goes D threshold) :
    c.Silent ∧ c.Harmless D threshold ∧ c.after = c.before ∨
    ∃ amount, qualifies D threshold c.rules c.payment = some amount ∧
      ¬ Conflicts c.env.now c.payment c.before.db ∧ c.result.isSome ∧
      c.after = addWhales [whaleRow c.env.now c.payment amount] c.before := by
  rcases ingestWhalePayment_ret h with ⟨hq, hr, ht⟩ | ⟨amount, hq, ⟨hc, hr, ht⟩ | ⟨hc, ha, ht⟩⟩
  · have hw : c.after = c.before := congrArg Tx.view ht
    exact .inl ⟨⟨hr, by rw [hw]⟩, .inl (qualifies_of_ret hq), hw⟩
  · have hw : c.after = c.before := congrArg Tx.view ht
    exact .inl ⟨⟨hr, by rw [hw]⟩, .inr hc, hw⟩
  · obtain ⟨a, ha, -⟩ := ha
    exact .inr ⟨amount, qualifies_of_ret hq, hc, by simp [ha], congrArg Tx.view ht⟩

/-- A call that goes through is silent exactly if it is harmless. -/
theorem Call.Goes.silent_iff (h : c.Goes D threshold) : c.Silent ↔ c.Harmless D threshold := by
  rcases h.cases with ⟨hs, hh, -⟩ | ⟨amount, hq, hc, hr, -⟩
  · exact iff_of_true hs hh
  · refine iff_of_false (fun hs => ?_) ?_
    · rw [hs.1] at hr
      simp at hr
    · rintro (hnone | hconflict)
      · rw [hq] at hnone
        simp at hnone
      · exact hc hconflict

theorem Calls.goes (h : Calls D threshold w calls w') : ∀ c ∈ calls, c.Goes D threshold := by
  induction h with
  | nil => simp
  | snoc _ hgo ih =>
    intro c hc
    rcases List.mem_append.1 hc with hc | hc
    · exact ih c hc
    · obtain rfl := List.mem_singleton.1 hc
      exact hgo

/-- What an alert or an earlier row leaves behind: the payment stays recorded. -/
theorem Calls.recorded (h : Calls D threshold w calls w') {p : PaymentRecord}
    (hp : Recorded p w.db ∨ ∃ c ∈ calls, c.result.isSome ∧ c.payment.id = p.id) :
    Recorded p w'.db := by
  induction h with
  | nil => simpa using hp
  | @snoc calls c _ hgo ih =>
    have hbefore : Recorded p c.before.db → Recorded p c.after.db := by
      intro hr
      rcases hgo.cases with ⟨-, -, hw⟩ | ⟨amount, -, -, -, hw⟩
      · rwa [hw]
      · rw [hw, recorded_addWhales]
        exact .inl hr
    -- recorded before the run, or by one of its calls
    rcases hp with hp | ⟨c', hc', hs, hid⟩
    · exact hbefore (ih (.inl hp))
    · rcases List.mem_append.1 hc' with hc' | hc'
      · exact hbefore (ih (.inr ⟨c', hc', hs, hid⟩))
      · obtain rfl := List.mem_singleton.1 hc'
        rcases hgo.cases with ⟨hsilent, -, -⟩ | ⟨amount, -, -, -, hw⟩
        · rw [hsilent.1] at hs
          simp at hs
        · rw [hw, recorded_addWhales]
          exact .inr ⟨_, List.mem_singleton_self _, hid⟩

/-- Silent repetitions leave one row and at most one alert for each payment. -/
theorem Calls.idempotent (h : Calls D threshold w calls w')
    (hw : (w.db.whaleTransactions.map (·.opId)).Nodup)
    (hs : ∀ c ∈ calls, c.Repeated → c.Silent) : Idempotent calls w' := by
  refine ⟨hs, ?_, ?_⟩
  · induction h with
    | nil => exact hw
    | @snoc calls c _ hgo ih =>
      have hbefore := ih fun c' hc' => hs c' (List.mem_append_left _ hc')
      rcases hgo.cases with ⟨-, -, heq⟩ | ⟨amount, -, -, hr, heq⟩
      · rwa [heq]
      · -- the call is not silent, so its payment was not recorded before
        have hnew : ¬ c.Repeated := fun hrep => by
          rw [(hs c (by simp) hrep).1] at hr
          simp at hr
        rw [heq]
        simp only [addWhales, List.map_append, List.map_cons, List.map_nil, whaleRow_opId]
        refine List.nodup_append.2 ⟨hbefore, List.nodup_singleton _, ?_⟩
        rintro id hid _ hid' rfl
        obtain ⟨row, hrow, hrid⟩ := List.mem_map.1 hid
        obtain rfl := List.mem_singleton.1 hid'
        exact hnew ⟨row, hrow, hrid⟩
  · induction h with
    | nil => simp
    | @snoc calls c hcalls hgo ih =>
      have hbefore := ih fun c' hc' => hs c' (List.mem_append_left _ hc')
      rw [List.filter_append, List.map_append]
      by_cases hr : c.result.isSome
      · have hnew : ¬ c.Repeated := fun hrep => by
          rw [(hs c (by simp) hrep).1] at hr
          simp at hr
        rw [List.filter_singleton, hr, cond_true]
        refine List.nodup_append.2 ⟨hbefore, List.nodup_singleton _, ?_⟩
        rintro id hid _ hid' rfl
        obtain ⟨c', hc', hcid⟩ := List.mem_map.1 hid
        obtain rfl := List.mem_singleton.1 hid'
        rw [List.mem_filter] at hc'
        exact hnew (hcalls.recorded (.inr ⟨c', hc'.1, hc'.2, hcid⟩))
      · rw [Bool.not_eq_true] at hr
        rw [List.filter_singleton, hr, cond_false]
        simpa using hbefore

/-- **Replays are idempotent exactly if every repeated call is harmless.** -/
theorem Calls.idempotent_iff (h : Calls D threshold w calls w')
    (hw : (w.db.whaleTransactions.map (·.opId)).Nodup) :
    Idempotent calls w' ↔ ∀ c ∈ calls, c.Repeated → c.Harmless D threshold := by
  constructor
  · intro hi c hc hrep
    exact (h.goes c hc).silent_iff.1 (hi.silent c hc hrep)
  · intro hh
    exact h.idempotent hw fun c hc hrep => (h.goes c hc).silent_iff.2 (hh c hc hrep)

end Lumina

/-! ### A payment that comes twice -/

namespace Lumina.Sample

/-- The call for the whale payment at a clock reading, in a world. -/
def callAt (now : Time) (w : World) : Call where
  env := ⟨now, .ok⟩
  payment := whalePayment
  rules := []
  before := w
  result := rowAlert amounts (.finite 10000) [] (whaleRow now whalePayment 25000)
  after := addWhales [whaleRow now whalePayment 25000] w

theorem callAt_goes {now : Time} {w : World} (h : ¬ Conflicts now whalePayment w.db) :
    (callAt now w).Goes amounts (.finite 10000) := by
  obtain ⟨a, ha⟩ : ∃ a, rowAlert amounts (.finite 10000) [] (whaleRow now whalePayment 25000) =
      some a := ⟨_, rfl⟩
  have hq : paymentWhaleAmount amounts (.finite 10000) [] whalePayment = .ret (some 25000) := by
    decide +kernel
  have hnew : ingestWhalePayment amounts ⟨now, .ok⟩ whalePayment (.finite 10000) [] ⟨w, false⟩ =
      (.ret (some a), ⟨addWhales [whaleRow now whalePayment 25000] w, false⟩) :=
    ingestWhalePayment_new hq rfl h ha
  rw [← ha] at hnew
  exact hnew

/-- The payment at midnight, again at the same reading of the clock, and again five seconds
later. -/
def first : Call := callAt 1767225600000000 World.empty

def again : Call := callAt 1767225605000000 first.after

def atOnce : Call := { first with before := first.after, result := none }

theorem calls_first : Calls amounts (.finite 10000) World.empty [first] first.after :=
  Calls.nil.snoc (callAt_goes fun ⟨_, hr, _⟩ => by simp [Db.empty] at hr)

theorem calls_again : Calls amounts (.finite 10000) World.empty [first, again] again.after := by
  refine calls_first.snoc (callAt_goes ?_)
  rintro ⟨row, hr, -, ht⟩
  obtain rfl : row = whaleRow 1767225600000000 whalePayment 25000 := by
    simpa [first, callAt, addWhales, World.empty, Db.empty] using hr
  simp at ht

/-- A replay at a later reading of the clock adds a second row for the same operation, and a
second alert. -/
theorem again_repeats :
    Calls amounts (.finite 10000) World.empty [first, again] again.after ∧
      again.Repeated ∧ again.result.isSome ∧
      again.after.db.whaleTransactions.map (·.opId) = ["231000000000002", "231000000000002"] ∧
      ¬ Idempotent [first, again] again.after := by
  have hids : again.after.db.whaleTransactions.map (·.opId) =
      ["231000000000002", "231000000000002"] := by decide +kernel
  refine ⟨calls_again, ⟨whaleRow 1767225600000000 whalePayment 25000, ?_, rfl⟩, by decide +kernel,
    hids, fun h => ?_⟩
  · simp [again, callAt, first, addWhales]
  · have honce := h.once
    rw [hids] at honce
    exact absurd honce (by decide)

theorem calls_atOnce : Calls amounts (.finite 10000) World.empty [first, atOnce] first.after := by
  have hq : paymentWhaleAmount amounts (.finite 10000) [] whalePayment = .ret (some 25000) := by
    decide +kernel
  have hc : Conflicts 1767225600000000 whalePayment first.after.db :=
    ⟨whaleRow 1767225600000000 whalePayment 25000, by simp [first, callAt, addWhales], rfl, rfl⟩
  exact calls_first.snoc (c := atOnce) (ingestWhalePayment_conflict hq rfl hc)

/-- A replay at the same reading of the clock does nothing. -/
theorem atOnce_idempotent : Idempotent [first, atOnce] first.after := by
  refine (calls_atOnce.idempotent_iff List.nodup_nil).2 ?_
  intro c hc hrep
  rcases List.mem_cons.1 hc with rfl | hc
  · obtain ⟨row, hr, -⟩ := hrep
    simp [first, callAt, World.empty, Db.empty] at hr
  · obtain rfl := List.mem_singleton.1 hc
    exact .inr ⟨whaleRow 1767225600000000 whalePayment 25000,
      by simp [atOnce, first, callAt, addWhales], rfl, rfl⟩

end Lumina.Sample
