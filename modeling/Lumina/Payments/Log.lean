import Lumina.Feed.Segment
import Lumina.Model.Horizon

/-!
# The log of payments

Horizon's payments are a log in the order of their paging tokens.  A page after a cursor holds
the next records after it, and the link to the next page asks for the records after the last
one.  The walk along the pages after a cursor then reads a segment of the log that begins at the
cursor (`PaymentLog.Serves.walkPages`), wherever it stops.

## Main definitions

* `PaymentLog` : the records ever appended, and what cursors and addresses mean.
* `PaymentLog.pos` : how many records a cursor is after.
* `PaymentLog.Serves` : a server that answers from the log.
-/

namespace Lumina

/-- The payments in the order of their tokens, each with an id of its own. -/
structure PaymentLog (baseUrl : String) where
  records : List PaymentRecord
  /-- The number that a paging token stands for. -/
  token : String → ℕ
  /-- The cursor after which an address asks for payments. -/
  asks : String → Option String
  increasing : records.Pairwise fun p q => token p.pagingToken < token q.pagingToken
  ids : (records.map (·.id)).Nodup
  asks_since : ∀ p ∈ records, asks (Horizon.buildUrl baseUrl "/payments"
    (Horizon.paymentsQuery (some p.pagingToken))) = some p.pagingToken

namespace PaymentLog

variable {baseUrl : String} {L : PaymentLog baseUrl} {server : Server PaymentRecord}

/-- How many records a cursor is after. -/
def pos (L : PaymentLog baseUrl) (c : String) : ℕ :=
  L.records.countP fun p => L.token p.pagingToken ≤ L.token c

/-- The position after a record is that after its token. -/
theorem pos_token {i : ℕ} {p : PaymentRecord} (h : L.records[i]? = some p) :
    L.pos p.pagingToken = i + 1 := by
  obtain ⟨hi, hp⟩ := List.getElem?_eq_some_iff.1 h
  have hlt := List.pairwise_iff_getElem.1 L.increasing
  -- the tokens increase, so exactly the records up to `i` are counted
  have hbefore : (L.records.take (i + 1)).countP
      (fun q => L.token q.pagingToken ≤ L.token p.pagingToken) = i + 1 := by
    rw [List.countP_eq_length.2, List.length_take, Nat.min_eq_left hi]
    intro q hq
    obtain ⟨j, hj, rfl⟩ := List.getElem_of_mem hq
    rw [List.length_take] at hj
    rw [List.getElem_take, decide_eq_true_eq, ← hp]
    rcases Nat.lt_or_ge j i with hji | hij
    · exact (hlt j i (by omega) hi hji).le
    · obtain rfl : j = i := by omega
      exact le_rfl
  have hafter : (L.records.drop (i + 1)).countP
      (fun q => L.token q.pagingToken ≤ L.token p.pagingToken) = 0 := by
    rw [List.countP_eq_zero]
    intro q hq
    obtain ⟨j, hj, rfl⟩ := List.getElem_of_mem hq
    rw [List.length_drop] at hj
    rw [List.getElem_drop, decide_eq_true_eq, not_le, ← hp]
    exact hlt i (i + 1 + j) hi (by omega) (by omega)
  calc L.pos p.pagingToken
      = (L.records.take (i + 1) ++ L.records.drop (i + 1)).countP
          (fun q => L.token q.pagingToken ≤ L.token p.pagingToken) := by
        rw [List.take_append_drop, pos]
    _ = i + 1 := by rw [List.countP_append, hbefore, hafter]

/-- A server that answers from the log: a page after a cursor holds the next records after it,
at most 200 of them, its link asks for those after its last record, and the newest page holds
the newest of the records appended so far. -/
structure Serves (L : PaymentLog baseUrl) (server : Server PaymentRecord) : Prop where
  page : ∀ n url attempt page c, server n url attempt = .success (some page) →
    L.asks url = some c → page.records.length ≤ 200 ∧
      page.records = (L.records.drop (L.pos c)).take page.records.length
  link : ∀ n url attempt page next p, server n url attempt = .success (some page) →
    page.next = some next → page.records.getLast? = some p → L.asks next = some p.pagingToken
  newest : ∀ attempt page, server 0 (Horizon.latestPaymentsUrl baseUrl 1) attempt =
    .success (some page) → ∃ n, page.records = (L.records.take n).reverse.take 1

end PaymentLog

namespace Horizon

variable {T : Type}

/-- A page that is fetched is the answer to one of the attempts. -/
theorem getPageFrom_ret {answers : ℕ → Attempt T} {left attempt : ℕ} {page : Page T}
    (h : getPageFrom answers left attempt = .ret page) :
    ∃ attempt, answers attempt = .success (some page) := by
  induction left generalizing attempt with
  | zero =>
    unfold getPageFrom at h
    cases ha : answers attempt with
    | success p =>
      cases p with
      | none => simp [ha] at h
      | some p =>
        obtain rfl : p = page := by simpa [ha] using h
        exact ⟨attempt, ha⟩
    | status code => simp [ha] at h
    | error retryable => simp [ha] at h
    | stop => simp [ha] at h
  | succ left ih =>
    unfold getPageFrom at h
    cases ha : answers attempt with
    | success p =>
      cases p with
      | none => simp [ha] at h
      | some p =>
        obtain rfl : p = page := by simpa [ha] using h
        exact ⟨attempt, ha⟩
    | status code =>
      simp only [ha] at h
      split_ifs at h
      exact ih h
    | error retryable =>
      simp only [ha] at h
      split_ifs at h
      exact ih h
    | stop => simp [ha] at h

/-- One page of the walk: it is the last, or the walk goes on along its link. -/
theorem walkPages_succ {server : Server T} {maxPages n : ℕ} {url : String} {records : List T}
    (h : walkPages server (maxPages + 1) n url = .ret records) :
    ∃ attempt page, server n url attempt = .success (some page) ∧
      (records = page.records ∨
        ∃ next rest, page.next = some next ∧ page.records ≠ [] ∧
          walkPages server maxPages (n + 1) next = .ret rest ∧ records = page.records ++ rest) := by
  unfold walkPages at h
  obtain ⟨page, hp, h⟩ := Outcome.bind_eq_ret.1 h
  obtain ⟨attempt, ha⟩ := getPageFrom_ret hp
  refine ⟨attempt, page, ha, ?_⟩
  cases hn : page.next with
  | none =>
    obtain rfl : page.records = records := by simpa [hn] using h
    exact .inl rfl
  | some next =>
    simp only [hn] at h
    split_ifs at h with hpos
    · obtain ⟨rest, hr, h⟩ := Outcome.bind_eq_ret.1 h
      obtain rfl : page.records ++ rest = records := by simpa using h
      exact .inr ⟨next, rest, rfl, List.ne_nil_of_length_pos hpos, hr, rfl⟩
    · obtain rfl : page.records = records := by simpa using h
      exact .inl rfl

end Horizon

namespace PaymentLog

variable {baseUrl : String} {L : PaymentLog baseUrl} {server : Server PaymentRecord}

/-- What follows a cursor: the last of the next `k` records is just before the position `k`
further on. -/
theorem pos_getLast {c : String} {k : ℕ} {p : PaymentRecord}
    (h : ((L.records.drop (L.pos c)).take k).getLast? = some p) :
    L.pos p.pagingToken = L.pos c + ((L.records.drop (L.pos c)).take k).length := by
  rw [List.getLast?_eq_getElem?, List.getElem?_take, List.getElem?_drop] at h
  split_ifs at h with hlt
  have hne : ((L.records.drop (L.pos c)).take k).length ≠ 0 := by
    intro hzero
    rw [hzero] at hlt h
    simp only [List.length_take, List.length_drop] at hzero
    have hlen := (List.getElem?_eq_some_iff.1 h).1
    omega
  rw [pos_token h]
  omega

/-- **The walk along the pages after a cursor reads the records after it, without a gap.** -/
theorem Serves.walkPages (hS : L.Serves server) {maxPages n : ℕ} {url c : String}
    {payments : List PaymentRecord} (hu : L.asks url = some c)
    (h : Horizon.walkPages server maxPages n url = .ret payments) :
    payments = (L.records.drop (L.pos c)).take payments.length := by
  induction maxPages generalizing n url c payments with
  | zero =>
    obtain rfl : [] = payments := by simpa [Horizon.walkPages] using h
    simp
  | succ maxPages ih =>
    obtain ⟨attempt, page, ha, hcases⟩ := Horizon.walkPages_succ h
    obtain ⟨-, hpage⟩ := hS.page n url attempt page c ha hu
    rcases hcases with rfl | ⟨next, rest, hn, hne, hrest, rfl⟩
    · exact hpage
    · obtain ⟨p, hp⟩ := Option.ne_none_iff_exists'.1 (mt List.getLast?_eq_none_iff.1 hne)
      have hnext := ih (hS.link n url attempt page next p ha hn hp) hrest
      have hpos : L.pos p.pagingToken = L.pos c + page.records.length := by
        rw [hpage] at hp ⊢
        exact pos_getLast hp
      rw [hpos] at hnext
      rw [List.length_append, List.take_add, ← hpage, List.drop_drop, ← hnext]

end PaymentLog

end Lumina
