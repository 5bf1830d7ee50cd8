import Lumina.Api.AdminKey
import Lumina.Number.Rounding
import Lumina.Payments.Whale
import Lumina.Rules.MostRecent

/-!
# The whale threshold

The whale threshold of the configuration and the least amount that a client asks for are floating
point numbers, which the program converts to decimals.  Where the conversion fails it falls back on
zero, and a threshold that no decimal can hold lets every payment through.  Payments below half of
the threshold are kept out exactly if a decimal can hold it, and it is not so small that the
conversion may lose half of it (`whale_threshold_iff`).

## Main definitions

* `RustDecimal.ConvertsF64` : when the conversion fails, and how exact it is.
* `RecordsNoLess`, `ReturnsNoLess` : the ingester records, and the API returns, no payment below
  half of the threshold.
* `Enforceable` : the thresholds for which they do so.
-/

namespace Lumina

/-- A positive number, or infinity. -/
def F64.Positive : F64 → Prop
  | finite t => 0 < t
  | infinite negative => negative = false
  | nan => False

/-- The amount is less than half of the threshold. -/
def BelowHalf (amount : Decimal) : F64 → Prop
  | .finite t => amount < t / 2
  | .infinite negative => negative = false
  | .nan => False

/-- The conversion fails beyond the greatest decimal and on what is no number, and otherwise has a
small relative or absolute error. -/
structure RustDecimal.ConvertsF64 (D : RustDecimal) : Prop where
  fails : ∀ x, D.tryFromF64 x = none ↔ ∀ t, x = .finite t → maxDecimal < |t|
  near : ∀ t d, D.tryFromF64 (.finite t) = some d →
    |d - t| ≤ |t| * (1 / 10 ^ 10) ∨ |d - t| ≤ 1 / 10 ^ 27

/-- No enabled rule overrides the threshold of the payment's asset. -/
def NoOverride (rules : List AlertRuleRow) (p : PaymentRecord) : Prop :=
  ∀ r ∈ rules, r.enabled = true →
    ¬ (RuleTarget.whale (resolvePaymentAsset p.assetType p.assetCode p.assetIssuer).1
      (resolvePaymentAsset p.assetType p.assetCode p.assetIssuer).2).Names r

/-- A payment whose threshold no rule overrides adds no row below half of the default. -/
def RecordsNoLess (D : RustDecimal) (T : F64) : Prop :=
  ∀ (env : WhaleEnv) (p : PaymentRecord) (rules : List AlertRuleRow) (s : Tx World),
    NoOverride rules p →
    ∃ added, (ingestWhalePayment D env p T rules s).2.view.db.whaleTransactions =
        s.view.db.whaleTransactions ++ added ∧
      ∀ row ∈ added, ¬ BelowHalf row.amount T

/-- A request for payments of at least that amount returns none below half of it. -/
def ReturnsNoLess (D : RustDecimal) (env : RequestEnv) (T : F64) : Prop :=
  ∀ (q : WhaleQuery) (s s' : Store) (rows : List WhaleTransactionUsd), q.minAmount = some T →
    whaleTransactionsHandler D env q s = (.ret (.json (.whaleTransactions rows)), s') →
    ∀ row ∈ rows, ¬ BelowHalf row.amount T

/-- The threshold is finite and no more than the greatest decimal, and where it is smaller than
what the conversion resolves, the conversion keeps half of it. -/
def Enforceable (D : RustDecimal) : F64 → Prop
  | .finite t => t ≤ maxDecimal ∧
      (2 / 10 ^ 27 ≤ t ∨ ∃ d ∈ D.tryFromF64 (.finite t), t / 2 ≤ d)
  | _ => False

variable {D : RustDecimal} {T : F64} {env : WhaleEnv} {p : PaymentRecord}
  {rules : List AlertRuleRow} {s : Tx World}

theorem BelowHalf.mono {amount amount' : Decimal} (h : BelowHalf amount T)
    (hle : amount' ≤ amount) : BelowHalf amount' T := by
  cases T with
  | finite t => exact hle.trans_lt h
  | infinite negative => exact h
  | nan => exact h

/-! ### The conversion -/

/-- A number that the conversion resolves keeps half of its size. -/
theorem RustDecimal.ConvertsF64.half_le (hD : D.ConvertsF64) {t : ℚ} {d : Decimal}
    (ht : 2 / 10 ^ 27 ≤ t) (h : D.tryFromF64 (.finite t) = some d) : t / 2 ≤ d := by
  have hpos : 0 < t := lt_of_lt_of_le (by norm_num) ht
  rcases hD.near t d h with hrel | habs
  · rw [abs_of_pos hpos] at hrel
    have := (abs_le.1 hrel).1
    linarith
  · have := (abs_le.1 habs).1
    linarith

/-- **The threshold in use is at least half of the one that was asked for** exactly if that one is
enforceable. -/
theorem not_belowHalf_iff (hD : D.ConvertsF64) (hT : T.Positive) :
    ¬ BelowHalf ((D.tryFromF64 T).getD 0) T ↔ Enforceable D T := by
  cases T with
  | finite t =>
    have hpos : 0 < t := hT
    simp only [BelowHalf, Enforceable, not_lt]
    cases hd : D.tryFromF64 (.finite t) with
    | none =>
      have hlarge := (hD.fails _).1 hd t rfl
      rw [abs_of_pos hpos] at hlarge
      refine iff_of_false ?_ fun h => absurd h.1 (not_le.2 hlarge)
      rw [Option.getD_none]
      linarith
    | some d =>
      have hfits : t ≤ maxDecimal := by
        by_contra hlarge
        have hnone := (hD.fails (.finite t)).2 fun t' h => by
          rw [← F64.finite.inj h, abs_of_pos hpos]
          exact not_le.1 hlarge
        simp [hnone] at hd
      rw [Option.getD_some]
      constructor
      · exact fun h => ⟨hfits, .inr ⟨d, rfl, h⟩⟩
      · rintro ⟨-, ht | ⟨d', hd', h⟩⟩
        · exact hD.half_le ht hd
        · rwa [Option.mem_some_iff.1 hd']
  | infinite negative => exact iff_of_false (fun h => h hT) id
  | nan => exact absurd hT id

/-! ### The ingester -/

/-- Without an override the threshold is the default. -/
theorem NoOverride.whaleThreshold_eq (h : NoOverride rules p) :
    whaleThreshold D T rules p = (D.tryFromF64 T).getD 0 := by
  have hnone : (rules.filter fun r => r.enabled && r.ruleType = "whale_threshold").filter
      (fun r => r.assetCode = some (resolvePaymentAsset p.assetType p.assetCode p.assetIssuer).1 &&
        r.assetIssuer = (resolvePaymentAsset p.assetType p.assetCode p.assetIssuer).2) = [] := by
    rw [List.filter_filter, List.filter_eq_nil_iff]
    intro r hr hmatch
    simp only [Bool.and_eq_true, decide_eq_true_eq] at hmatch
    exact h r hr hmatch.2.1 ⟨hmatch.2.2, hmatch.1.1, hmatch.1.2⟩
  unfold whaleThreshold resolveWhaleThreshold resolveRule
  dsimp only
  rw [hnone]
  rfl

/-- An amount that qualifies meets the threshold. -/
theorem le_of_paymentWhaleAmount {amount : Decimal}
    (h : paymentWhaleAmount D T rules p = .ret (some amount)) :
    whaleThreshold D T rules p ≤ amount := by
  unfold paymentWhaleAmount at h
  split at h
  · exact absurd h (by simp)
  · obtain ⟨raw, -, h⟩ := Outcome.bind_eq_ret.1 h
    have h : whaleAmount p.opType (some raw) (whaleThreshold D T rules p) = some amount :=
      Outcome.ret.inj h
    unfold whaleAmount at h
    split_ifs at h
    rw [Option.bind_some] at h
    split_ifs at h with hlt
    rw [← Option.some.inj h]
    exact not_lt.1 hlt

/-- **What one payment adds**: nothing, or a row that meets its threshold. -/
theorem ingestWhalePayment_added :
    ∃ added, (ingestWhalePayment D env p T rules s).2.view.db.whaleTransactions =
        s.view.db.whaleTransactions ++ added ∧
      ∀ row ∈ added, whaleThreshold D T rules p ≤ row.amount := by
  have hnothing : ∀ t : Tx World, t.view = s.view →
      ∃ added, t.view.db.whaleTransactions = s.view.db.whaleTransactions ++ added ∧
        ∀ row ∈ added, whaleThreshold D T rules p ≤ row.amount :=
    fun t ht => ⟨[], by simp [ht], by simp⟩
  unfold ingestWhalePayment
  rw [Proc.bind_apply, Proc.lift_apply]
  cases hq : paymentWhaleAmount D T rules p with
  | ret q =>
    cases q with
    | none => exact hnothing s rfl
    | some amount =>
      obtain ⟨w, aborted⟩ := s
      simp only [Proc.bind_apply, Tx.execReturning]
      cases hi : env.insert with
      | ok =>
        cases aborted with
        | true => exact hnothing _ rfl
        | false =>
          rw [Tx.statement_ok]
          by_cases hc : Conflicts env.now p w.db
          · simp only [insertWhaleTransaction_conflict hc]
            exact hnothing _ rfl
          · -- the row stays in the transaction, whether the alert is graded or not
            simp only [insertWhaleTransaction_new hc]
            refine ⟨[whaleRow env.now p amount], ?_, ?_⟩
            · cases whaleAlert D (whaleRow env.now p amount) (whaleThreshold D T rules p) <;>
                simp [Proc.bind_apply]
            · intro row hrow
              rw [List.mem_singleton.1 hrow]
              exact le_of_paymentWhaleAmount hq
      | fail => exact hnothing _ rfl
      | stop => exact hnothing _ rfl
  | err e => exact hnothing s rfl
  | stop => exact hnothing s rfl
  | panic => exact hnothing s rfl

/-- **The ingester keeps payments below half of the threshold out** exactly if no payment of the
default amount would be one. -/
theorem recordsNoLess_iff (htext : ∃ text, D.fromStr text = some ((D.tryFromF64 T).getD 0)) :
    RecordsNoLess D T ↔ ¬ BelowHalf ((D.tryFromF64 T).getD 0) T := by
  constructor
  · intro hrecords
    obtain ⟨text, htext⟩ := htext
    -- a payment of just the threshold
    let p : PaymentRecord := ⟨"1", "1", "payment", "", none, none, none, some "native", none, none,
      some text⟩
    have hthreshold : whaleThreshold D T [] p = (D.tryFromF64 T).getD 0 :=
      NoOverride.whaleThreshold_eq (by simp [NoOverride])
    have hq : paymentWhaleAmount D T [] p = .ret (some ((D.tryFromF64 T).getD 0)) := by
      have hp : paymentWhaleAmount D T [] p = (Outcome.ofOption .decimal (D.fromStr text) >>=
        fun amount => .ret (whaleAmount "payment" (some amount) (whaleThreshold D T [] p))) := rfl
      rw [hp, htext, hthreshold]
      simp [whaleAmount]
    obtain ⟨added, hadded, hall⟩ := hrecords ⟨0, .ok⟩ p [] ⟨World.empty, false⟩
      (by simp [NoOverride])
    have hnew : ¬ Conflicts 0 p World.empty.db := by
      rintro ⟨row, hrow, -⟩
      exact absurd hrow (by simp [World.empty, Db.empty])
    have hrow :
        (ingestWhalePayment D ⟨0, .ok⟩ p T [] ⟨World.empty, false⟩).2.view.db.whaleTransactions =
          [whaleRow 0 p ((D.tryFromF64 T).getD 0)] := by
      unfold ingestWhalePayment
      simp only [Proc.bind_apply, Proc.lift_apply, hq, Tx.execReturning, Tx.statement_ok,
        insertWhaleTransaction_new hnew]
      cases whaleAlert D (whaleRow 0 p ((D.tryFromF64 T).getD 0)) (whaleThreshold D T [] p) <;>
        simp [Proc.bind_apply, World.empty, Db.empty]
    rw [hrow] at hadded
    have hmem : whaleRow 0 p ((D.tryFromF64 T).getD 0) ∈ added := by
      have : added = [whaleRow 0 p ((D.tryFromF64 T).getD 0)] := by
        simpa [World.empty, Db.empty] using hadded.symm
      rw [this]
      exact List.mem_singleton_self _
    exact hall _ hmem
  · intro hhalf env p rules s hno
    obtain ⟨added, hadded, hall⟩ := @ingestWhalePayment_added D T env p rules s
    refine ⟨added, hadded, fun row hrow hbelow => hhalf ?_⟩
    have hle := hall row hrow
    rw [hno.whaleThreshold_eq] at hle
    exact hbelow.mono hle

/-! ### The API -/

variable {request : RequestEnv}

/-- The rows of the answer. -/
theorem whaleTransactionsHandler_ret {q : WhaleQuery} {s s' : Store}
    {rows : List WhaleTransactionUsd}
    (h : whaleTransactionsHandler D request q s = (.ret (.json (.whaleTransactions rows)), s')) :
    rows = listWhaleTransactions request.visitWhales request.tieWhales
      ((D.tryFromF64 (q.minAmount.getD (.finite 10000))).getD 0) (clampLimit 100 1000 q.limit)
      q.account s.db := by
  have hexec : ∀ (f : Fault) (read : Store → List WhaleTransactionUsd),
      Store.fetch f read = Store.exec f fun s => (read s, s) := fun _ _ => rfl
  unfold whaleTransactionsHandler at h
  rw [hexec] at h
  rcases answer_exec_ret h with ⟨hresp, -⟩ | ⟨hresp, -⟩
  · simpa [Response.json] using hresp
  · simp [Response.json, err] at hresp

/-- **The API returns no payment below half of the threshold** exactly if a payment of the amount
that it compares with would not be one. -/
theorem returnsNoLess_iff (hcall : request.call = .ok) :
    ReturnsNoLess D request T ↔ ¬ BelowHalf ((D.tryFromF64 T).getD 0) T := by
  constructor
  · intro hreturns
    -- a table of one payment of just the threshold
    let row : WhaleTransactionRow :=
      ⟨0, "1", "", "", none, "XLM", none, (D.tryFromF64 T).getD 0⟩
    let s : Store := { Store.empty with db := { Db.empty with whaleTransactions := [row] } }
    have hmem : ∃ found ∈ listWhaleTransactions request.visitWhales request.tieWhales
        ((D.tryFromF64 T).getD 0) (clampLimit 100 1000 none) none s.db,
        found.amount = (D.tryFromF64 T).getD 0 := by
      have hlimit : (clampLimit 100 1000 none).toNat = 100 := by decide
      unfold listWhaleTransactions
      rw [hlimit]
      simp only [s, row, List.filter_cons, List.filter_nil, le_refl, decide_true, Bool.true_and,
        Bool.true_or, if_true, List.map_cons, List.map_nil]
      rw [List.perm_singleton.1 Sql.orderByDesc_perm]
      exact ⟨_, List.mem_cons_self, rfl⟩
    obtain ⟨found, hfound, hamount⟩ := hmem
    rw [← hamount]
    refine hreturns ⟨some T, none, none⟩ s s _ rfl ?_ found hfound
    simp only [whaleTransactionsHandler, answer, Store.fetch, hcall, Proc.bind_apply,
      Proc.attempt_apply, Proc.await_ok, Proc.pure_apply]
    rfl
  · intro hhalf q s s' rows hmin h row hrow hbelow
    rw [whaleTransactionsHandler_ret h, hmin, Option.getD_some] at hrow
    obtain ⟨wt, hwt, rfl⟩ := List.mem_map.1
      ((Sql.orderByDesc_perm).mem_iff.1 (List.mem_of_mem_take hrow))
    have hle : (D.tryFromF64 T).getD 0 ≤ wt.amount := by
      have := (List.mem_filter.1 hwt).2
      rw [Bool.and_eq_true, decide_eq_true_eq] at this
      exact this.1
    exact hhalf (BelowHalf.mono hbelow hle)

/-- **The whale threshold is enforced** by the ingester, and by the API, exactly if it is
enforceable. -/
theorem whale_threshold_iff (hD : D.ConvertsF64) (hT : T.Positive)
    (htext : ∃ text, D.fromStr text = some ((D.tryFromF64 T).getD 0))
    (hcall : request.call = .ok) :
    (RecordsNoLess D T ↔ Enforceable D T) ∧ (ReturnsNoLess D request T ↔ Enforceable D T) := by
  rw [← not_belowHalf_iff hD hT]
  exact ⟨recordsNoLess_iff htext, returnsNoLess_iff hcall⟩

end Lumina

/-! ### A threshold of ten thousand, and an infinite one -/

namespace Lumina.Sample

/-- The conversion without its rounding, and the amounts that are needed here. -/
def converting : RustDecimal where
  round := amounts.round
  fromI128WithScale := amounts.fromI128WithScale
  fromStr text :=
    if text = "10000" then some 10000 else if text = "0" then some 0 else amounts.fromStr text
  tryFromF64
    | .finite t => if |t| ≤ maxDecimal then some t else none
    | _ => none

theorem converting_convertsF64 : converting.ConvertsF64 where
  fails x := by
    cases x with
    | finite t =>
      simp only [converting]
      split_ifs with h
      · simpa using h
      · simpa using h
    | infinite negative => simp [converting]
    | nan => simp [converting]
  near t d h := by
    simp only [converting] at h
    split_ifs at h with hfits
    obtain rfl := Option.some.inj h
    exact .inr (by norm_num)

/-- The default threshold is enforced. -/
theorem default_threshold_enforced : RecordsNoLess converting (.finite 10000) ∧
    ReturnsNoLess converting requestEnv (.finite 10000) := by
  have henforceable : Enforceable converting (.finite 10000) :=
    ⟨by norm_num [maxDecimal], .inl (by norm_num)⟩
  obtain ⟨hrecords, hreturns⟩ := @whale_threshold_iff converting (.finite 10000)
    requestEnv converting_convertsF64 (show (F64.finite 10000).Positive by norm_num [F64.Positive])
    ⟨"10000", by decide +kernel⟩ rfl
  exact ⟨hrecords.2 henforceable, hreturns.2 henforceable⟩

/-- **An infinite threshold lets every payment through**, in the ingester and in the API. -/
theorem infinite_threshold_not_enforced : ¬ ∀ (D : RustDecimal) (request : RequestEnv) (T : F64),
    D.ConvertsF64 → T.Positive → (∃ text, D.fromStr text = some ((D.tryFromF64 T).getD 0)) →
    request.call = .ok → RecordsNoLess D T ∨ ReturnsNoLess D request T := by
  intro hall
  have hbelow : BelowHalf ((converting.tryFromF64 (.infinite false)).getD 0) (.infinite false) :=
    rfl
  rcases hall converting requestEnv (.infinite false) converting_convertsF64 rfl
    ⟨"0", by decide +kernel⟩ rfl with h | h
  · exact (recordsNoLess_iff ⟨"0", by decide +kernel⟩).1 h hbelow
  · exact (returnsNoLess_iff rfl).1 h hbelow

end Lumina.Sample
