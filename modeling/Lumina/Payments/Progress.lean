import Lumina.Payments.GapFree
import Lumina.Snapshots.Crawl

/-!
# How far a cycle moves the payments' cursor

A cycle in which nothing fails moves the cursor on by as many payments as its 25 pages hold, if it
can read them all (`ingestPayments_advances`).  The rows and the cursor are written in one
transaction, and a payment whose amount is no number makes it fail: no cycle moves the cursor past
such a payment (`ingestPayments_follows`).

## Main definitions

* `Readable`, `Unparsed` : a payment that the loop can take, and one that it never can.
* `PaymentsEnv.GoesThrough`, `PaymentLog.Answers` : a cycle in which nothing fails.
* `PaymentLog.position` : how many payments the cursor has passed.
-/

namespace Lumina

variable {D : RustDecimal} {config : Config} {env : PaymentsEnv} {rules : List AlertRuleRow}
  {w w' : World} {p : PaymentRecord}

/-- The loop can take the payment: it has no amount, or one that is read, and the severity of its
alert is computed. -/
def Readable (D : RustDecimal) (config : Config) (rules : List AlertRuleRow)
    (p : PaymentRecord) : Prop :=
  ∃ amount, paymentWhaleAmount D config.whaleThreshold rules p = .ret amount ∧
    ∀ a, amount = some a →
      ∃ alert, rowAlert D config.whaleThreshold rules (whaleRow 0 p a) = some alert

/-- The amount is no number. -/
def Unparsed (D : RustDecimal) (p : PaymentRecord) : Prop :=
  ∃ raw, p.amount = some raw ∧ D.fromStr raw = none

/-- Every call of the transaction goes through. -/
structure PaymentsEnv.GoesThrough (env : PaymentsEnv) : Prop where
  getCursor : env.getCursor = .ok
  start : env.start = .ok
  whale : ∀ i, (env.whale i).insert = .ok
  setCursor : env.setCursor = .ok
  commit : env.commit = .ok

/-! ### One payment -/

theorem Unparsed.paymentWhaleAmount (h : Unparsed D p) (threshold : F64) :
    paymentWhaleAmount D threshold rules p = .err .decimal := by
  obtain ⟨raw, hraw, hnone⟩ := h
  unfold Lumina.paymentWhaleAmount
  rw [hraw]
  dsimp only
  rw [hnone]
  rfl

/-- A payment that can be taken is. -/
theorem Readable.goes (h : Readable D config rules p) {calls : WhaleEnv} (hok : calls.insert = .ok)
    (w : World) :
    ∃ alert rows, ingestWhalePayment D calls p config.whaleThreshold rules ⟨w, false⟩ =
      (.ret alert, ⟨addWhales rows w, false⟩) := by
  obtain ⟨amount, hamount, halert⟩ := h
  cases amount with
  | none =>
    refine ⟨none, [], ?_⟩
    rw [addWhales_nil, ingestWhalePayment, Proc.bind_apply, Proc.lift_apply, hamount]
    rfl
  | some a =>
    by_cases hc : Conflicts calls.now p w.db
    · refine ⟨none, [], ?_⟩
      rw [addWhales_nil, ingestWhalePayment_conflict hamount hok hc]
    · -- the time of the row does not matter to its alert
      obtain ⟨alert, ha⟩ := halert a rfl
      exact ⟨some alert, _, ingestWhalePayment_new hamount hok hc ha⟩

/-! ### The loop -/

theorem whaleLoop_of_ret {i : ℕ} {l : List (PaymentRecord × ℕ)} {s : List PendingAlert × String}
    {alert : Option PendingAlert} {t t' : Tx World}
    (h : ingestWhalePayment D (env.whale i) p config.whaleThreshold rules t = (.ret alert, t')) :
    whaleLoop D config env rules ((p, i) :: l) s t =
      whaleLoop D config env rules l (s.1 ++ alert.toList, p.pagingToken) t' := by
  rw [whaleLoop, List.foldlM_cons, Proc.bind_apply]
  simp only [Proc.bind_apply, h]
  cases alert with
  | none =>
    rw [Option.toList_none, List.append_nil]
    rfl
  | some a => rfl

theorem whaleLoop_readable {l : List (PaymentRecord × ℕ)}
    (h : ∀ q ∈ l, Readable D config rules q.1) (hok : ∀ i, (env.whale i).insert = .ok)
    (s : List PendingAlert × String) (w : World) :
    ∃ r rows, whaleLoop D config env rules l s ⟨w, false⟩ =
      (.ret r, ⟨addWhales rows w, false⟩) := by
  induction l generalizing s w with
  | nil => exact ⟨s, [], by rw [addWhales_nil]; rfl⟩
  | cons q l ih =>
    obtain ⟨p, i⟩ := q
    obtain ⟨hp, hl⟩ := List.forall_mem_cons.1 h
    obtain ⟨alert, rows, hgoes⟩ := hp.goes (hok i) w
    obtain ⟨r, more, hrest⟩ := ih hl (s.1 ++ alert.toList, p.pagingToken) (addWhales rows w)
    refine ⟨r, rows ++ more, ?_⟩
    rw [whaleLoop_of_ret hgoes, hrest, addWhales_append]

/-- The loop does not get through with an amount that is no number. -/
theorem whaleLoop_not_unparsed {l : List (PaymentRecord × ℕ)} {s r : List PendingAlert × String}
    {t : Tx World} (h : whaleLoop D config env rules l s ⟨w, false⟩ = (.ret r, t)) :
    ∀ q ∈ l, ¬ Unparsed D q.1 := by
  induction l generalizing s w with
  | nil => simp
  | cons q l ih =>
    obtain ⟨p, i⟩ := q
    obtain ⟨alert, t₁, hp, hl⟩ := whaleLoop_cons h
    refine List.forall_mem_cons.2 ⟨fun hbad => ?_, ?_⟩
    · have hamount := @Unparsed.paymentWhaleAmount D rules p hbad config.whaleThreshold
      rcases ingestWhalePayment_ret hp with ⟨hq, -, -⟩ | ⟨amount, hq, -⟩
      · rw [hamount] at hq
        cases hq
      · rw [hamount] at hq
        cases hq
    · rcases ingestWhalePayment_ret hp with ⟨-, -, rfl⟩ | ⟨amount, -, ⟨-, -, rfl⟩ | ⟨-, -, rfl⟩⟩
      · exact ih hl
      · exact ih hl
      · exact ih hl

/-! ### One cycle -/

theorem transaction_ok {α : Type} {body : Proc (Tx World) Error α} {a : α}
    (h : body ⟨w, false⟩ = (.ret a, ⟨w', false⟩)) :
    transaction .ok .ok Error.db body w = (.ret a, w') := by
  rw [transaction, h]
  rfl

theorem paymentsBody_readable {payments : List PaymentRecord} (hgo : env.GoesThrough)
    (h : ∀ p ∈ payments, Readable D config rules p) (cursor : String) (w : World) :
    ∃ pending rows, paymentsBody D config env rules payments cursor ⟨w, false⟩ =
      (.ret pending,
        ⟨advance rows ((payments.getLast?.map (·.pagingToken)).getD cursor) w, false⟩) := by
  have hread : ∀ q ∈ payments.zipIdx, Readable D config rules q.1 := fun q hq =>
    h q.1 (List.fst_mem_of_mem_zipIdx hq)
  obtain ⟨r, rows, hloop⟩ := whaleLoop_readable hread hgo.whale ([], cursor) w
  have hbody : ∃ t, paymentsBody D config env rules payments cursor ⟨w, false⟩ = (.ret r.1, t) := by
    refine ⟨⟨advance rows r.2 w, false⟩, ?_⟩
    rw [paymentsBody, Proc.bind_apply, ingestWhalePayments_eq, hloop]
    simp only [Proc.bind_apply, Tx.exec, Tx.execReturning, hgo.setCursor, Tx.statement_ok]
    rfl
  obtain ⟨t, ht⟩ := hbody
  obtain ⟨rows, rfl, -⟩ := paymentsBody_ret ht
  exact ⟨r.1, rows, ht⟩

/-- What follows the commit leaves the cursor alone. -/
theorem cursor_ingestPayments (D : RustDecimal) (config : Config) (env : PaymentsEnv)
    (rules : List AlertRuleRow) (w : World) :
    getIngestCursor paymentsCursorKey (ingestPayments D config env rules w).2.db =
      getIngestCursor paymentsCursorKey (commitPayments D config env rules w).2.db := by
  rw [getIngestCursor, getIngestCursor, (ingestPayments_grow D config env rules w).ingestState]

/-- The body of the transaction, where it goes through: every amount is a number. -/
theorem paymentsBody_not_unparsed {payments : List PaymentRecord} {cursor : String}
    {pending : List PendingAlert} {t : Tx World}
    (h : paymentsBody D config env rules payments cursor ⟨w, false⟩ = (.ret pending, t)) :
    ∀ p ∈ payments, ¬ Unparsed D p := by
  unfold paymentsBody at h
  rw [Proc.bind_apply, ingestWhalePayments_eq] at h
  rcases hl : whaleLoop D config env rules payments.zipIdx ([], cursor) ⟨w, false⟩ with ⟨o, t₁⟩
  rw [hl] at h
  cases o with
  | ret r =>
    intro p hp
    obtain ⟨i, hi, rfl⟩ := List.getElem_of_mem hp
    have hmem : (payments[i], i) ∈ payments.zipIdx :=
      List.mem_zipIdx_iff_getElem?.2 (by simp [hi])
    exact whaleLoop_not_unparsed hl _ hmem
  | err e => simp at h
  | stop => simp at h
  | panic => simp at h

/-- **What a cycle does to a cursor**, whatever fails: it stays, or it moves on to the last of the
payments that were read, each with an amount that is a number, if any. -/
theorem cursor_cases (D : RustDecimal) (config : Config) (env : PaymentsEnv)
    (rules : List AlertRuleRow) {c : String}
    (hcursor : getIngestCursor paymentsCursorKey w.db = some c) :
    getIngestCursor paymentsCursorKey (ingestPayments D config env rules w).2.db = some c ∨
      ∃ payments last, Horizon.paymentsSince env.server config.horizonUrl (some c)
          maxPagesPerCycle = .ret payments ∧ payments.getLast? = some last ∧
        (∀ p ∈ payments, ¬ Unparsed D p) ∧
        getIngestCursor paymentsCursorKey (ingestPayments D config env rules w).2.db =
          some last.pagingToken := by
  rw [cursor_ingestPayments, commitPayments, Proc.bind_apply]
  cases hg : env.getCursor with
  | fail => exact .inl hcursor
  | stop => exact .inl hcursor
  | ok =>
    simp only [fetch, Proc.await_ok, hcursor, Proc.bind_apply, Proc.lift_apply]
    cases hp : Horizon.paymentsSince env.server config.horizonUrl (some c) maxPagesPerCycle with
    | err e => exact .inl hcursor
    | stop => exact .inl hcursor
    | panic => exact .inl hcursor
    | ret payments =>
      dsimp only
      by_cases hnil : payments = []
      · rw [if_pos hnil]
        exact .inl hcursor
      · rw [if_neg hnil]
        rcases transaction_cases env.start env.commit .db
          (paymentsBody D config env rules payments c) w with ⟨pending, t, -, -, hb, ht⟩ | ⟨-, hw⟩
        · obtain ⟨rows, rfl, -⟩ := paymentsBody_ret hb
          obtain ⟨last, hlast⟩ := Option.ne_none_iff_exists'.1
            (mt List.getLast?_eq_none_iff.1 hnil)
          refine .inr ⟨payments, last, rfl, hlast, paymentsBody_not_unparsed hb, ?_⟩
          rw [ht, hlast]
          exact getIngestCursor_advance rows last.pagingToken w
        · rw [hw]
          exact .inl hcursor

section Log

variable {L : PaymentLog config.horizonUrl} {c : String} {server : Server PaymentRecord} {db : Db}

/-- A cursor that is the token of a payment. -/
def PaymentLog.IsToken {baseUrl : String} (L : PaymentLog baseUrl) (c : String) : Prop :=
  ∃ p ∈ L.records, p.pagingToken = c

/-- There is a cursor, and it is the token of a payment. -/
def PaymentLog.Follows {baseUrl : String} (L : PaymentLog baseUrl) (db : Db) : Prop :=
  ∃ c, getIngestCursor paymentsCursorKey db = some c ∧ L.IsToken c

/-- How many payments the cursor has passed. -/
def PaymentLog.position {baseUrl : String} (L : PaymentLog baseUrl) (db : Db) : ℕ :=
  match getIngestCursor paymentsCursorKey db with
  | none => 0
  | some c => L.pos c

theorem PaymentLog.position_of_cursor {baseUrl : String} (L : PaymentLog baseUrl)
    (h : getIngestCursor paymentsCursorKey db = some c) : L.position db = L.pos c := by
  rw [PaymentLog.position, h]

/-- A Horizon that answers every request for the payments after a cursor. -/
structure PaymentLog.Answers {baseUrl : String} (L : PaymentLog baseUrl)
    (server : Server PaymentRecord) : Prop where
  lists : ∀ c, L.IsToken c → ∃ url,
    url 0 = Horizon.buildUrl baseUrl "/payments" (Horizon.paymentsQuery (some c)) ∧
      Horizon.Lists server (L.records.drop (L.pos c)) 200 url ∧
      ∀ n < maxPagesPerCycle, Horizon.Fetched (server n (url n))

theorem PaymentLog.pos_le {baseUrl : String} (L : PaymentLog baseUrl) (c : String) :
    L.pos c ≤ L.records.length := List.countP_le_length

/-- The payments that a cycle reads. -/
theorem PaymentLog.Answers.paymentsSince (h : L.Answers server) (hc : L.IsToken c) :
    Horizon.paymentsSince server config.horizonUrl (some c) maxPagesPerCycle =
      .ret ((L.records.drop (L.pos c)).take 5000) := by
  obtain ⟨url, hurl, hlists, hfetched⟩ := h.lists c hc
  exact hlists.getAllPages_of_fetched (by decide) hurl hfetched

/-- **A cycle in which nothing fails** moves the cursor on by as many payments as its pages hold, or
to the end of the log. -/
theorem ingestPayments_advances (hgo : env.GoesThrough) (hserver : L.Answers env.server)
    (hfollows : L.Follows w.db)
    (hread : ∀ p ∈ L.records.drop (L.position w.db), Readable D config rules p) :
    L.position (ingestPayments D config env rules w).2.db =
      min (L.position w.db + 5000) L.records.length := by
  obtain ⟨c, hcursor, hc⟩ := hfollows
  rw [L.position_of_cursor hcursor] at hread ⊢
  have hpos := L.pos_le c
  have hsame : L.position (ingestPayments D config env rules w).2.db =
      L.position (commitPayments D config env rules w).2.db := by
    rw [PaymentLog.position, PaymentLog.position, cursor_ingestPayments]
  rw [hsame, commitPayments, Proc.bind_apply, fetch, hgo.getCursor, Proc.await_ok]
  simp only [hcursor, Proc.bind_apply, Proc.lift_apply, hserver.paymentsSince hc]
  by_cases hnil : (L.records.drop (L.pos c)).take 5000 = []
  · -- the cursor is at the end already
    rw [if_pos hnil]
    rw [List.take_eq_nil_iff, List.drop_eq_nil_iff] at hnil
    refine (L.position_of_cursor hcursor).trans ?_
    omega
  · rw [if_neg hnil]
    obtain ⟨last, hlast⟩ := Option.ne_none_iff_exists'.1 (mt List.getLast?_eq_none_iff.1 hnil)
    have hbatch : ∀ p ∈ (L.records.drop (L.pos c)).take 5000, Readable D config rules p :=
      fun p hp => hread p (List.mem_of_mem_take hp)
    obtain ⟨pending, rows, hbody⟩ := paymentsBody_readable hgo hbatch c w
    rw [hlast, Option.map_some, Option.getD_some] at hbody
    rw [hgo.start, hgo.commit, transaction_ok hbody]
    refine (L.position_of_cursor (getIngestCursor_advance _ _ _)).trans ?_
    rw [PaymentLog.pos_getLast hlast, List.length_take, List.length_drop]
    omega

/-- **Every cycle** leaves a cursor that is the token of a payment, does not move it back, and does
not move it past an amount that is no number. -/
theorem ingestPayments_follows (env : PaymentsEnv) (rules : List AlertRuleRow)
    (hfollows : L.Follows w.db) (hserve : L.Serves env.server) :
    L.Follows (ingestPayments D config env rules w).2.db ∧
      L.position w.db ≤ L.position (ingestPayments D config env rules w).2.db ∧
      ∀ i p, L.records[i]? = some p → Unparsed D p → L.position w.db ≤ i →
        L.position (ingestPayments D config env rules w).2.db ≤ i := by
  obtain ⟨c, hcursor, hc⟩ := hfollows
  rw [L.position_of_cursor hcursor]
  rcases cursor_cases D config env rules hcursor with
    hnext | ⟨payments, last, hpayments, hlast, hread, hnext⟩
  · rw [L.position_of_cursor hnext]
    exact ⟨⟨c, hnext, hc⟩, le_rfl, fun _ _ _ _ hle => hle⟩
  · -- the payments read are those after the cursor
    obtain ⟨q, hq, rfl⟩ := hc
    have hseg := hserve.walkPages (L.asks_since q hq) hpayments
    rw [hseg] at hlast
    have hlastPos := PaymentLog.pos_getLast hlast
    rw [← hseg] at hlastPos
    rw [L.position_of_cursor hnext, hlastPos]
    refine ⟨⟨last.pagingToken, hnext, last, ?_, rfl⟩, Nat.le_add_right _ _, ?_⟩
    · exact List.mem_of_mem_drop (List.mem_of_mem_take (List.mem_of_getLast? hlast))
    · intro i p hi hbad hle
      by_contra hpast
      have hmem : p ∈ payments := by
        rw [hseg, List.mem_iff_getElem?]
        refine ⟨i - L.pos q.pagingToken, ?_⟩
        rw [List.getElem?_take, if_pos (by omega), List.getElem?_drop, Nat.add_sub_cancel' hle]
        exact hi
      exact hread p hmem hbad

end Log

namespace Sample

theorem horizon_small (n attempt : ℕ) : horizon n (since "231000000000001") attempt =
    .success (some ⟨[whalePayment], some (since "231000000000002")⟩) := by
  rw [horizon, if_neg (by decide +kernel), if_pos rfl]

theorem horizon_whale (n attempt : ℕ) : horizon n (since "231000000000002") attempt =
    .success (some ⟨[], none⟩) := by
  rw [horizon, if_neg (by decide +kernel), if_neg (by decide +kernel), if_pos rfl]

theorem after_small : log.records.drop (log.pos "231000000000001") = [whalePayment] := by
  decide +kernel

theorem after_whale : log.records.drop (log.pos "231000000000002") = [] := by
  decide +kernel

/-- The addresses of the pages after the small payment. -/
def sinceSmall : ℕ → String
  | 0 => since "231000000000001"
  | _ + 1 => since "231000000000002"

theorem fetched_of_success {T : Type} {answers : ℕ → Attempt T} {page : Page T}
    (h : answers 1 = .success (some page)) : Horizon.Fetched answers :=
  ⟨1, le_rfl, by decide, ⟨page, h⟩, fun j hj hlt => by omega⟩

theorem lists_small : Horizon.Lists horizon [whalePayment] 200 sinceSmall where
  records n attempt page h := by
    cases n with
    | zero =>
      rw [sinceSmall, horizon_small] at h
      cases h
      rfl
    | succ n =>
      rw [sinceSmall, horizon_whale] at h
      cases h
      rw [List.drop_eq_nil_of_le (by simp only [List.length_singleton]; omega), List.take_nil]
  next n attempt page h hne := by
    cases n with
    | zero =>
      rw [sinceSmall, horizon_small] at h
      cases h
      rfl
    | succ n =>
      rw [sinceSmall, horizon_whale] at h
      cases h
      exact absurd rfl hne

theorem lists_whale : Horizon.Lists horizon [] 200 fun _ => since "231000000000002" where
  records n attempt page h := by
    rw [horizon_whale] at h
    cases h
    rw [List.drop_nil, List.take_nil]
  next n attempt page h hne := by
    rw [horizon_whale] at h
    cases h
    exact absurd rfl hne

theorem answers_horizon : log.Answers horizon where
  lists := by
    rintro c ⟨p, hp, rfl⟩
    simp only [log, List.mem_cons, List.not_mem_nil, or_false] at hp
    rcases hp with rfl | rfl
    · refine ⟨sinceSmall, rfl, ?_, fun n _ => ?_⟩
      · have hpos : log.records.drop (log.pos smallPayment.pagingToken) = [whalePayment] :=
          after_small
        exact hpos ▸ lists_small
      · cases n with
        | zero => exact fetched_of_success (horizon_small 0 1)
        | succ n => exact fetched_of_success (horizon_whale (n + 1) 1)
    · refine ⟨fun _ => since "231000000000002", rfl, ?_, fun n _ => ?_⟩
      · have hpos : log.records.drop (log.pos whalePayment.pagingToken) = [] := after_whale
        exact hpos ▸ lists_whale
      · exact fetched_of_success (horizon_whale n 1)

theorem paymentsEnv_goesThrough : paymentsEnv.GoesThrough :=
  ⟨rfl, rfl, fun _ => rfl, rfl, rfl⟩

theorem whalePayment_readable : Readable amounts Config.default [] whalePayment := by
  refine ⟨some 25000, by decide +kernel, fun a ha => ?_⟩
  obtain rfl : 25000 = a := Option.some.inj ha
  exact Option.isSome_iff_exists.1 (by decide +kernel)

end Sample

end Lumina
