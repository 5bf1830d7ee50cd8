import Lumina.Alerts.Record
import Lumina.Payments.Log
import Lumina.Payments.Whale

/-!
# Payments without gaps or duplicates

A cycle reads the payments after its cursor, page by page, and writes the whale rows and the new
cursor in one transaction.  So the rows are at every moment those of the payments between the
first cursor and the present one, each judged by the rules of the cycle that read it, and each
recorded once (`PaymentRun.gapFree`).  A cycle that fails before its commit leaves everything as
it was (`ingestPayments_unchanged`).

## Main definitions

* `advance` : the effect of a committed cycle.
* `PaymentRun` : runs of cycles, with the first cursor and the payments that the cycles read.
* `GapFree` : the rows are those of the payments read, which are those up to the cursor.
-/

namespace Lumina

variable {D : RustDecimal} {config : Config} {env : PaymentsEnv} {rules : List AlertRuleRow}
  {w w' : World}

/-! ### One cycle -/

/-- New rows, and the cursor after the last payment read. -/
def advance (rows : List WhaleTransactionRow) (cursor : String) (w : World) : World :=
  { addWhales rows w with db := setIngestCursor paymentsCursorKey cursor (addWhales rows w).db }

theorem paymentsBody_ret {payments : List PaymentRecord} {cursor : String}
    {pending : List PendingAlert} {t : Tx World}
    (h : paymentsBody D config env rules payments cursor ⟨w, false⟩ = (.ret pending, t)) :
    ∃ rows, t = ⟨advance rows (((payments.getLast?).map (·.pagingToken)).getD cursor) w, false⟩ ∧
      Reads D config rules payments rows pending w := by
  unfold paymentsBody at h
  rw [Proc.bind_apply] at h
  rcases hl : ingestWhalePayments D config env rules payments cursor ⟨w, false⟩ with ⟨o, t₁⟩
  rw [hl] at h
  cases o with
  | ret r =>
    obtain ⟨pending', last⟩ := r
    obtain ⟨rows, rfl, rfl, hreads⟩ := ingestWhalePayments_ret hl
    simp only [Proc.bind_apply, Tx.exec, Tx.execReturning] at h
    cases hs : env.setCursor with
    | ok =>
      simp only [hs, Tx.statement_ok, Proc.pure_apply, Prod.mk.injEq, Outcome.ret.injEq] at h
      obtain ⟨rfl, rfl⟩ := h
      exact ⟨rows, rfl, hreads⟩
    | fail => simp [hs] at h
    | stop => simp [hs] at h
  | err e => simp at h
  | stop => simp at h
  | panic => simp at h

/-- **One cycle up to its commit.**  It changes nothing; or it writes the first cursor, the
token of the newest payment; or it reads the payments after the cursor. -/
theorem commitPayments_cases (D : RustDecimal) (config : Config) (env : PaymentsEnv)
    (rules : List AlertRuleRow) (w : World) :
    ((commitPayments D config env rules w).2 = w ∧
      ∀ pending, (commitPayments D config env rules w).1 = .ret pending → pending = []) ∨
    (∃ newest rest, getIngestCursor paymentsCursorKey w.db = none ∧
      Horizon.latestPaymentsPage env.server config.horizonUrl 1 = .ret (newest :: rest) ∧
      commitPayments D config env rules w =
        (.ret [], { w with db := setIngestCursor paymentsCursorKey newest.pagingToken w.db })) ∨
    ∃ cursor payments last rows pending, getIngestCursor paymentsCursorKey w.db = some cursor ∧
      Horizon.paymentsSince env.server config.horizonUrl (some cursor) maxPagesPerCycle =
        .ret payments ∧
      payments.getLast? = some last ∧ Reads D config rules payments rows pending w ∧
      commitPayments D config env rules w = (.ret pending, advance rows last.pagingToken w) := by
  unfold commitPayments
  rw [Proc.bind_apply]
  cases hg : env.getCursor with
  | fail => exact .inl (by simp [fetch])
  | stop => exact .inl (by simp [fetch])
  | ok =>
    simp only [fetch, Proc.await_ok]
    cases hc : getIngestCursor paymentsCursorKey w.db with
    | none =>
      simp only [Proc.bind_apply, Proc.lift_apply]
      cases hl : Horizon.latestPaymentsPage env.server config.horizonUrl 1 with
      | ret latest =>
        cases latest with
        | nil => exact .inl (by simp)
        | cons newest rest =>
          cases hs : env.seed with
          | ok =>
            exact .inr (.inl ⟨newest, rest, by simp, by simp, by simp [exec, Proc.bind_apply]⟩)
          | fail => exact .inl (by simp [exec, Proc.bind_apply])
          | stop => exact .inl (by simp [exec, Proc.bind_apply])
      | err e => exact .inl (by simp)
      | stop => exact .inl (by simp)
      | panic => exact .inl (by simp)
    | some cursor =>
      simp only [Proc.bind_apply, Proc.lift_apply]
      cases hp : Horizon.paymentsSince env.server config.horizonUrl (some cursor)
        maxPagesPerCycle with
      | ret payments =>
        simp only
        by_cases hnil : payments = []
        · exact .inl (by simp [hnil])
        · rw [if_neg hnil]
          rcases transaction_cases env.start env.commit .db
            (paymentsBody D config env rules payments cursor) w with
            ⟨pending, t, -, -, hb, ht⟩ | ⟨hne, hw⟩
          · obtain ⟨rows, rfl, hreads⟩ := paymentsBody_ret hb
            obtain ⟨last, hlast⟩ := Option.ne_none_iff_exists'.1
              (mt List.getLast?_eq_none_iff.1 hnil)
            refine .inr (.inr ⟨cursor, payments, last, rows, pending, by simp, hp, hlast,
              hreads, ?_⟩)
            rw [ht, hlast]
            rfl
          · exact .inl ⟨hw, fun pending h => absurd h (hne pending)⟩
      | err e => exact .inl (by simp)
      | stop => exact .inl (by simp)
      | panic => exact .inl (by simp)

/-- What follows the commit adds to the alerts and changes nothing else. -/
theorem ingestPayments_grow (D : RustDecimal) (config : Config) (env : PaymentsEnv)
    (rules : List AlertRuleRow) (w : World) :
    AlertsGrow (commitPayments D config env rules w).2 (ingestPayments D config env rules w).2 := by
  unfold ingestPayments
  refine Proc.related_bind (refl _) fun pending _ => ?_
  exact within_recordAll env.record config.webhook pending _

/-- **A cycle that returns an error leaves everything as it was.** -/
theorem ingestPayments_unchanged {e : Error}
    (h : (ingestPayments D config env rules w).1 = .err e) :
    (ingestPayments D config env rules w).2 = w := by
  unfold ingestPayments at h ⊢
  rw [Proc.bind_apply] at h ⊢
  rcases commitPayments_cases D config env rules w with
    ⟨hw, -⟩ | ⟨newest, rest, -, -, heq⟩ | ⟨c, payments, last, rows, pending, -, -, -, -, heq⟩
  · generalize commitPayments D config env rules w = r at h hw
    obtain ⟨o, w₁⟩ := r
    cases o with
    | ret pending => exact absurd h (recordAll_ne_err _ _ _ _ _)
    | err e => exact hw
    | stop => exact hw
    | panic => exact hw
  · rw [heq] at h
    exact absurd h (recordAll_ne_err _ _ _ _ _)
  · rw [heq] at h
    exact absurd h (recordAll_ne_err _ _ _ _ _)

/-! ### Runs of cycles -/

variable {L : PaymentLog config.horizonUrl}

/-- Where the log was joined: after the payment that gave the first cursor. -/
def PaymentLog.joinAfter (L : PaymentLog config.horizonUrl) (before after : Db) (join : ℕ) : ℕ :=
  match getIngestCursor paymentsCursorKey before, getIngestCursor paymentsCursorKey after with
  | none, some c => L.pos c
  | _, _ => join

/-- The payments that the cursor passed between two states. -/
def PaymentLog.passed (L : PaymentLog config.horizonUrl) (before after : Db) :
    List PaymentRecord :=
  match getIngestCursor paymentsCursorKey before, getIngestCursor paymentsCursorKey after with
  | some c, some c' => segment L.records (L.pos c) (L.pos c')
  | _, _ => []

/-- Runs of cycles of one ingester from `w₀`, each with rules of its own and a Horizon that
answers from the log.  A run has the position at which the log was joined, and the payments that
its cycles read, each with the rules of the cycle. -/
inductive PaymentRun (D : RustDecimal) (config : Config) (L : PaymentLog config.horizonUrl)
    (w₀ : World) : ℕ → List (PaymentRecord × List AlertRuleRow) → World → Prop
  | nil : PaymentRun D config L w₀ 0 [] w₀
  | snoc {join : ℕ} {reads : List (PaymentRecord × List AlertRuleRow)} {w w' : World}
      {env : PaymentsEnv} {rules : List AlertRuleRow} :
      PaymentRun D config L w₀ join reads w → L.Serves env.server →
      (ingestPayments D config env rules w).2 = w' →
      PaymentRun D config L w₀ (L.joinAfter w.db w'.db join)
        (reads ++ (L.passed w.db w'.db).map fun p => (p, rules)) w'

/-- The rows, without their times, of payments that were each read under some rules. -/
def readRows (D : RustDecimal) (config : Config)
    (reads : List (PaymentRecord × List AlertRuleRow)) : List WhaleTransactionRow :=
  reads.filterMap fun r => (qualifies D config.whaleThreshold r.2 r.1).map (whaleRow 0 r.1)

/-- The payments read are those between the first cursor and the present one, the rows are those
of the payments read that met the threshold of their cycle, and each has one row. -/
structure GapFree (D : RustDecimal) (L : PaymentLog config.horizonUrl) (join : ℕ)
    (reads : List (PaymentRecord × List AlertRuleRow)) (db : Db) : Prop where
  passed : reads.map (·.1) = match getIngestCursor paymentsCursorKey db with
    | none => []
    | some c => segment L.records join (L.pos c)
  rows : db.whaleTransactions.map (·.timeless) = readRows D config reads
  once : (db.whaleTransactions.map (·.opId)).Nodup

/-- The invariant of the runs. -/
structure LogInv (D : RustDecimal) (L : PaymentLog config.horizonUrl) (join : ℕ)
    (reads : List (PaymentRecord × List AlertRuleRow)) (db : Db) : Prop where
  passed : reads.map (·.1) = match getIngestCursor paymentsCursorKey db with
    | none => []
    | some c => segment L.records join (L.pos c)
  rows : db.whaleTransactions.map (·.timeless) = readRows D config reads
  joined : ∀ c, getIngestCursor paymentsCursorKey db = some c → join ≤ L.pos c
  token : ∀ c, getIngestCursor paymentsCursorKey db = some c →
    ∃ p ∈ L.records, p.pagingToken = c

variable {join : ℕ} {reads : List (PaymentRecord × List AlertRuleRow)} {db db' : Db}

theorem PaymentLog.nodup_segment (a b : ℕ) : ((segment L.records a b).map (·.id)).Nodup :=
  L.ids.sublist (((List.drop_sublist _ _).trans (List.take_sublist _ _)).map _)

theorem readRows_append (payments : List PaymentRecord) :
    readRows D config (reads ++ payments.map fun p => (p, rules)) =
      readRows D config reads ++ whaleRows D config.whaleThreshold rules payments := by
  rw [readRows, readRows, whaleRows, List.filterMap_append, List.filterMap_map]
  rfl

theorem opIds_sublist (reads : List (PaymentRecord × List AlertRuleRow)) :
    ((readRows D config reads).map (·.opId)).Sublist (reads.map (·.1.id)) := by
  induction reads with
  | nil => exact List.Sublist.slnil
  | cons r reads ih =>
    rw [readRows, List.filterMap_cons]
    cases hq : qualifies D config.whaleThreshold r.2 r.1 with
    | none => exact ih.cons r.1.id
    | some amount => exact ih.cons_cons r.1.id

/-- The operation id of a row is that of a payment that was read. -/
theorem LogInv.mem_reads (h : LogInv D L join reads db) {row : WhaleTransactionRow}
    (hr : row ∈ db.whaleTransactions) : ∃ p ∈ reads.map (·.1), p.id = row.opId := by
  have hmem : row.timeless ∈ readRows D config reads := by
    rw [← h.rows]
    exact List.mem_map_of_mem hr
  obtain ⟨r, hr', hrow⟩ := List.mem_filterMap.1 hmem
  obtain ⟨amount, -, hrow⟩ := Option.map_eq_some_iff.1 hrow
  exact ⟨r.1, List.mem_map_of_mem hr', congrArg WhaleTransactionRow.opId hrow⟩

/-- A payment after the cursor is not recorded yet. -/
theorem LogInv.not_recorded (h : LogInv D L join reads db) {c : String} {b : ℕ}
    (hc : getIngestCursor paymentsCursorKey db = some c) (hb : L.pos c ≤ b) {p : PaymentRecord}
    (hp : p ∈ segment L.records (L.pos c) b) : ¬ Recorded p db := by
  rintro ⟨row, hr, hid⟩
  obtain ⟨q, hq, hqid⟩ := h.mem_reads hr
  have hpassed := h.passed
  rw [hc] at hpassed
  rw [hpassed] at hq
  have hnodup := L.nodup_segment join b
  rw [← segment_append (h.joined c hc) hb, List.map_append, List.nodup_append] at hnodup
  exact hnodup.2.2 _ (List.mem_map_of_mem hq) _ (List.mem_map_of_mem hp) (hqid.trans hid)

/-- No operation id comes twice. -/
theorem LogInv.once (h : LogInv D L join reads db) :
    (db.whaleTransactions.map (·.opId)).Nodup := by
  have hids : (reads.map (·.1.id)).Nodup := by
    have hpassed := congrArg (List.map (·.id)) h.passed
    rw [List.map_map] at hpassed
    change reads.map (·.1.id) = _ at hpassed
    rw [hpassed]
    split
    · exact List.nodup_nil
    · exact L.nodup_segment _ _
  have hopIds : db.whaleTransactions.map (·.opId) = (readRows D config reads).map (·.opId) := by
    rw [← h.rows, List.map_map]
    rfl
  rw [hopIds]
  exact hids.sublist (opIds_sublist reads)

theorem LogInv.to_gapFree (h : LogInv D L join reads db) : GapFree D L join reads db :=
  ⟨h.passed, h.rows, h.once⟩

theorem LogInv.congr (h : LogInv D L join reads db)
    (hrows : db'.whaleTransactions = db.whaleTransactions)
    (hstate : db'.ingestState = db.ingestState) : LogInv D L join reads db' := by
  have hc : getIngestCursor paymentsCursorKey db' = getIngestCursor paymentsCursorKey db := by
    rw [getIngestCursor, getIngestCursor, hstate]
  obtain ⟨hpassed, hr, hj, ht⟩ := h
  rw [← hc] at hpassed hj ht
  rw [← hrows] at hr
  exact ⟨hpassed, hr, hj, ht⟩

/-- The walk of a cycle reads the payments after its cursor. -/
theorem LogInv.paymentsSince (h : LogInv D L join reads db) {c : String}
    (hc : getIngestCursor paymentsCursorKey db = some c) {server : Server PaymentRecord}
    (hS : L.Serves server) {maxPages : ℕ} {payments : List PaymentRecord}
    (hp : Horizon.paymentsSince server config.horizonUrl (some c) maxPages = .ret payments) :
    payments = (L.records.drop (L.pos c)).take payments.length := by
  obtain ⟨p, hmem, rfl⟩ := h.token c hc
  exact hS.walkPages (L.asks_since p hmem) hp

/-- The newest payment that seeds the cursor is in the log. -/
theorem PaymentLog.Serves.newest_mem {server : Server PaymentRecord} (hS : L.Serves server)
    {newest : PaymentRecord} {rest : List PaymentRecord}
    (h : Horizon.latestPaymentsPage server config.horizonUrl 1 = .ret (newest :: rest)) :
    newest ∈ L.records := by
  obtain ⟨page, hp, h⟩ := Outcome.bind_eq_ret.1 h
  obtain ⟨attempt, ha⟩ := Horizon.getPageFrom_ret hp
  obtain ⟨n, hn⟩ := hS.newest attempt page ha
  have hpage : page.records = newest :: rest := by simpa using h
  have hmem : newest ∈ (L.records.take n).reverse.take 1 := by
    rw [← hn, hpage]
    exact List.mem_cons_self
  exact List.mem_of_mem_take (List.mem_reverse.1 (List.mem_of_mem_take hmem))

theorem getIngestCursor_advance (rows : List WhaleTransactionRow) (c : String) (w : World) :
    getIngestCursor paymentsCursorKey (advance rows c w).db = some c := by
  simp [getIngestCursor, advance, setIngestCursor]

variable (env rules) in
/-- A cycle up to its commit keeps the invariant. -/
theorem LogInv.commit (h : LogInv D L join reads w.db) (hS : L.Serves env.server) :
    LogInv D L (L.joinAfter w.db (commitPayments D config env rules w).2.db join)
      (reads ++ (L.passed w.db (commitPayments D config env rules w).2.db).map fun p => (p, rules))
      (commitPayments D config env rules w).2.db := by
  rcases commitPayments_cases D config env rules w with
    ⟨hw, -⟩ | ⟨newest, rest, hc, hl, heq⟩ |
    ⟨c, payments, last, rows, pending, hc, hp, hlast, hreads, heq⟩
  · -- nothing happened
    rw [hw]
    unfold PaymentLog.joinAfter PaymentLog.passed
    cases hc : getIngestCursor paymentsCursorKey w.db with
    | none => simpa [hc] using h
    | some c => simpa [hc] using h
  · -- the cursor was seeded
    have hnew : getIngestCursor paymentsCursorKey
        (setIngestCursor paymentsCursorKey newest.pagingToken w.db) =
          some newest.pagingToken := by
      simp [getIngestCursor, setIngestCursor]
    have hnil : reads = [] := by
      have hpassed := h.passed
      rw [hc] at hpassed
      exact List.map_eq_nil_iff.1 hpassed
    rw [heq]
    simp only [PaymentLog.joinAfter, PaymentLog.passed, hc, hnew]
    refine ⟨?_, ?_, ?_, ?_⟩
    · simp [hnew, hnil]
    · rw [List.map_nil, List.append_nil]
      exact h.rows
    · intro c hc'
      obtain rfl : newest.pagingToken = c := by simpa [hnew] using hc'
      exact le_rfl
    · intro c hc'
      obtain rfl : newest.pagingToken = c := by simpa [hnew] using hc'
      exact ⟨newest, hS.newest_mem hl, rfl⟩
  · -- payments were read
    have hseg := h.paymentsSince hc hS hp
    have hpos : L.pos last.pagingToken = L.pos c + payments.length := by
      rw [hseg] at hlast ⊢
      rw [PaymentLog.pos_getLast hlast]
    rw [take_drop_eq_segment, ← hpos] at hseg
    have hle : L.pos c ≤ L.pos last.pagingToken := by omega
    have hfresh : ∀ p ∈ payments, ¬ Recorded p w.db := fun p hp =>
      h.not_recorded hc hle (hseg ▸ hp)
    have hnodup : (payments.map (·.id)).Nodup := by
      rw [hseg]
      exact L.nodup_segment _ _
    rw [heq]
    simp only [PaymentLog.joinAfter, PaymentLog.passed, hc, getIngestCursor_advance]
    rw [← hseg]
    refine ⟨?_, ?_, ?_, ?_⟩
    · have hpassed := h.passed
      rw [hc] at hpassed
      simp only [getIngestCursor_advance]
      rw [List.map_append, hpassed, ← segment_append (h.joined c hc) hle, ← hseg, List.map_map]
      simp [Function.comp_def]
    · rw [readRows_append, ← h.rows, ← hreads.rows hnodup hfresh]
      exact List.map_append
    · intro c' hc'
      obtain rfl : last.pagingToken = c' := by simpa [getIngestCursor_advance] using hc'
      exact (h.joined c hc).trans hle
    · intro c' hc'
      obtain rfl : last.pagingToken = c' := by simpa [getIngestCursor_advance] using hc'
      have hmem : last ∈ segment L.records (L.pos c) (L.pos last.pagingToken) :=
        hseg ▸ List.mem_of_getLast? hlast
      exact ⟨last, List.mem_of_mem_take (List.mem_of_mem_drop hmem), rfl⟩

theorem PaymentRun.inv {w₀ : World} (h : PaymentRun D config L w₀ join reads w)
    (hrows : w₀.db.whaleTransactions = [])
    (hcursor : getIngestCursor paymentsCursorKey w₀.db = none) :
    LogInv D L join reads w.db := by
  induction h with
  | nil =>
    exact ⟨by simp [hcursor], by simp [hrows, readRows], by simp [hcursor], by simp [hcursor]⟩
  | @snoc join reads w w' env rules _ hS hw ih =>
    have hcommit := ih.commit env rules hS
    have hgrow := ingestPayments_grow D config env rules w
    rw [hw] at hgrow
    have hstate := hgrow.ingestState
    have hc : getIngestCursor paymentsCursorKey w'.db =
        getIngestCursor paymentsCursorKey (commitPayments D config env rules w).2.db := by
      rw [getIngestCursor, getIngestCursor, hstate]
    have hinv := hcommit.congr hgrow.whaleTransactions hstate
    unfold PaymentLog.joinAfter PaymentLog.passed at hinv ⊢
    rw [hc]
    exact hinv

/-- **Payment ingestion has no gaps and no duplicates.**  After every run, the rows are those of
the payments between the first cursor and the present one that met the threshold of the cycle
that read them, each with one row; and a further cycle that returns an error changes nothing. -/
theorem PaymentRun.gapFree {w₀ : World} (h : PaymentRun D config L w₀ join reads w)
    (hrows : w₀.db.whaleTransactions = [])
    (hcursor : getIngestCursor paymentsCursorKey w₀.db = none) :
    GapFree D L join reads w.db ∧
      ∀ env rules e, (ingestPayments D config env rules w).1 = .err e →
        (ingestPayments D config env rules w).2 = w :=
  ⟨(h.inv hrows hcursor).to_gapFree, fun _ _ _ he => ingestPayments_unchanged he⟩

end Lumina

/-! ### A log of two payments -/

namespace Lumina.Sample

/-- The address of the payments after a cursor. -/
def since (cursor : String) : String :=
  Horizon.buildUrl Config.default.horizonUrl "/payments" (Horizon.paymentsQuery (some cursor))

def log : PaymentLog Config.default.horizonUrl where
  records := [smallPayment, whalePayment]
  token text := if text = "231000000000001" then 231000000000001
    else if text = "231000000000002" then 231000000000002 else 0
  asks url :=
    if url = since "231000000000001" then some "231000000000001"
    else if url = since "231000000000002" then some "231000000000002" else none
  increasing := by decide +kernel
  ids := by decide +kernel
  asks_since := by
    intro p hp
    simp only [List.mem_cons, List.not_mem_nil, or_false] at hp
    rcases hp with rfl | rfl <;> decide +kernel

/-- A Horizon whose newest payment is the small one when it is asked for the newest. -/
def horizon : Server PaymentRecord := fun _ url _ =>
  if url = Horizon.latestPaymentsUrl Config.default.horizonUrl 1 then
    .success (some ⟨[smallPayment], none⟩)
  else if url = since "231000000000001" then
    .success (some ⟨[whalePayment], some (since "231000000000002")⟩)
  else if url = since "231000000000002" then .success (some ⟨[], none⟩)
  else .status 404

theorem serves_horizon : log.Serves horizon where
  page n url attempt page c h hc := by
    unfold horizon at h
    split_ifs at h with hlatest h₁ h₂
    · have hnone : log.asks (Horizon.latestPaymentsUrl Config.default.horizonUrl 1) = none := by
        decide +kernel
      rw [hlatest, hnone] at hc
      simp at hc
    · obtain rfl : _ = page := Option.some.inj (Attempt.success.inj h)
      subst h₁
      obtain rfl : "231000000000001" = c := Option.some.inj hc
      decide +kernel
    · obtain rfl : _ = page := Option.some.inj (Attempt.success.inj h)
      simp
  link n url attempt page next p h hn hp := by
    unfold horizon at h
    split_ifs at h
    · obtain rfl : _ = page := Option.some.inj (Attempt.success.inj h)
      simp at hn
    · obtain rfl : _ = page := Option.some.inj (Attempt.success.inj h)
      obtain rfl : since "231000000000002" = next := Option.some.inj hn
      obtain rfl : whalePayment = p := by simpa using hp
      decide +kernel
    · obtain rfl : _ = page := Option.some.inj (Attempt.success.inj h)
      simp at hp
  newest attempt page h := by
    obtain rfl : _ = page := Option.some.inj (Attempt.success.inj h)
    exact ⟨1, rfl⟩

/-- A cycle in which every call goes through. -/
def paymentsEnv : PaymentsEnv where
  getCursor := .ok
  server := horizon
  seed := .ok
  start := .ok
  whale _ := ⟨1767225600000000, .ok⟩
  setCursor := .ok
  commit := .ok
  record _ := .clean 1767225600000000

/-- The world after one cycle, and after two. -/
def seeded : World := (ingestPayments amounts Config.default paymentsEnv [] World.empty).2

def followed : World := (ingestPayments amounts Config.default paymentsEnv [] seeded).2

/-- The first cycle seeds the cursor and the second one records the whale payment after it. -/
theorem followed_gapFree :
    ∃ join reads, GapFree amounts log join reads followed.db ∧
      getIngestCursor paymentsCursorKey followed.db = some "231000000000002" ∧
      followed.db.whaleTransactions.map (·.opId) = ["231000000000002"] :=
  ⟨_, _, (((PaymentRun.nil.snoc serves_horizon rfl).snoc serves_horizon rfl :
    PaymentRun amounts Config.default log World.empty _ _ followed).gapFree rfl rfl).1,
    by decide +kernel, by decide +kernel⟩

end Lumina.Sample
