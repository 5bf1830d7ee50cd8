import Lumina.Feed.Segment
import Lumina.Lending.Cycle
import Lumina.Lending.UpToDate

/-!
# Exactly-once ingestion of the events

The rows of a position are running totals, each written on its own, and the cursor is written
after all of them in a statement of its own.  So a position holds the fold of its events up to
the cursor, each applied once, as long as every cycle does all of its work or none of it: it
writes the rows of exactly the position events that the new cursor passes, or it writes no row
and leaves the cursor (`Cycles.exactlyOnce`).  A failed insertion that the loop skips, or a
process that ends between the first row and the cursor, breaks this for good.

## Main definitions

* `EventFeed`, `EventFeed.Serves` : the stream of events, and an RPC that serves it in order.
* `Cycles` : runs of cycles, with the position in the stream that the first cursor started from.
* `AllOrNothing` : what one cycle has to do.
* `ExactlyOnce` : every position holds the fold of its events up to the cursor.
-/

namespace Lumina

variable {D : RustDecimal} {X : Codec} {config : Config} {prices : PriceMap} {bands : LtvBands}
  {env : ℕ → EventEnv} {events : List RpcEvent} {w w' : World}

/-! ### The loop -/

theorem processAll_append (l l' : List (RpcEvent × ℕ)) (w : World) :
    processAll D X config prices bands env (l ++ l') w =
      match processAll D X config prices bands env l w with
      | (.ret _, w₁) => processAll D X config prices bands env l' w₁
      | (.err e, w₁) => (.err e, w₁)
      | (.stop, w₁) => (.stop, w₁)
      | (.panic, w₁) => (.panic, w₁) := by
  induction l generalizing w with
  | nil => rfl
  | cons p l ih =>
    obtain ⟨event, i⟩ := p
    rw [List.cons_append, processAll_cons, processAll_cons]
    generalize processEvent D X config prices bands (env i) event w = r
    obtain ⟨o, w₁⟩ := r
    cases o with
    | ret a => exact ih w₁
    | err e => exact ih w₁
    | stop => rfl
    | panic => rfl

theorem processAll_append_of_cutOff {l : List (RpcEvent × ℕ)} (l' : List (RpcEvent × ℕ))
    (h : (processAll D X config prices bands env l).CutOff w) :
    processAll D X config prices bands env (l ++ l') w =
      processAll D X config prices bands env l w := by
  rw [processAll_append]
  unfold Proc.CutOff at h
  generalize processAll D X config prices bands env l w = r at h
  obtain ⟨o, w₁⟩ := r
  cases o with
  | ret a => simp at h
  | err e => simp at h
  | stop => rfl
  | panic => rfl

/-- The loop itself returns no error. -/
theorem processAll_ret {l : List (RpcEvent × ℕ)}
    (h : ¬ (processAll D X config prices bands env l).CutOff w) :
    (processAll D X config prices bands env l w).1 = .ret () := by
  induction l generalizing w with
  | nil => rfl
  | cons p l ih =>
    obtain ⟨event, i⟩ := p
    obtain ⟨-, heq⟩ := processAll_cons_of_not_cutOff h
    unfold Proc.CutOff at h ih
    rw [heq] at h ⊢
    exact ih h

/-- A loop in which every position event writes its row applies them all. -/
theorem Applied.processAll {l : List (RpcEvent × ℕ)} (h : Applied D X events w.db)
    (ho : Ordered D X (events ++ l.map (·.1)))
    (hg : ∀ p ∈ l, ∀ e, decodeEvent D X p.1 = .ret (some e) → Goes (env p.2))
    (hcut : ¬ (processAll D X config prices bands env l).CutOff w) :
    Applied D X (events ++ l.map (·.1)) (processAll D X config prices bands env l w).2.db := by
  induction l generalizing events w with
  | nil =>
    rw [List.map_nil, List.append_nil]
    exact h
  | cons p l ih =>
    obtain ⟨event, i⟩ := p
    obtain ⟨huncut, heq⟩ := processAll_cons_of_not_cutOff hcut
    have hassoc : events ++ ((event, i) :: l).map (·.1) = (events ++ [event]) ++ l.map (·.1) := by
      simp
    rw [hassoc] at ho ⊢
    have hcut' : ¬ (processAll D X config prices bands env l).CutOff
        (processEvent D X config prices bands (env i) event w).2 := by
      unfold Proc.CutOff at hcut ⊢
      rwa [heq] at hcut
    rw [heq]
    refine ih ?_ ho (fun p hp => hg p (List.mem_cons_of_mem _ hp)) hcut'
    have ho' : Ordered D X (events ++ [event]) := (List.pairwise_append.1 ho).1
    rcases processEvent_cases D X config prices bands (env i) event w with
      ⟨e, row, alert, hd, -, hr, hdb⟩ | ⟨hw, hgoes⟩
    · refine h.store ho' hd hr ?_
      rw [hdb, recordedDb_lendingPositions]
      rfl
    · rw [hw]
      exact h.skip fun e hd => huncut (hgoes e hd (hg (event, i) (by simp) e hd))

/-- A loop in which no position event writes its row changes nothing. -/
theorem processAll_untouched {l : List (RpcEvent × ℕ)}
    (hg : ∀ p ∈ l, ∀ e, decodeEvent D X p.1 = .ret (some e) → Goes (env p.2) →
      rowAfter D prices (env p.2).tie p.1.contractId e w.db = none) :
    (processAll D X config prices bands env l w).2 = w := by
  induction l with
  | nil => rfl
  | cons p l ih =>
    obtain ⟨event, i⟩ := p
    have hw : (processEvent D X config prices bands (env i) event w).2 = w := by
      rcases processEvent_cases D X config prices bands (env i) event w with
        ⟨e, row, alert, hd, hgo, hr, -⟩ | ⟨hw, -⟩
      · rw [hg (event, i) (by simp) e hd hgo] at hr
        simp at hr
      · exact hw
    have hrest := ih fun p hp => hg p (List.mem_cons_of_mem _ hp)
    rw [processAll_cons]
    generalize processEvent D X config prices bands (env i) event w = r at hw
    obtain ⟨o, w₁⟩ := r
    obtain rfl : w₁ = w := hw
    cases o with
    | ret a => exact hrest
    | err e => exact hrest
    | stop => rfl
    | panic => rfl

/-- A loop in which the position events among the first `k` write their rows, and the others do
not, applies the first `k` events. -/
theorem Applied.processEvents {k : ℕ} {before : List RpcEvent} (h : Applied D X before w.db)
    (hk : k ≤ events.length) (ho : Ordered D X (before ++ events.take k))
    (hg : ∀ i event e, events[i]? = some event → decodeEvent D X event = .ret (some e) →
      (Goes (env i) ↔ i < k))
    (hcut : ¬ (processEvents D X config prices bands env events).CutOff w) :
    Applied D X (before ++ events.take k)
      (processEvents D X config prices bands env events w).2.db := by
  -- the first `k` events are all applied, and the others change nothing
  have hsplit : events.zipIdx = (events.take k).zipIdx ++ (events.drop k).zipIdx k := by
    conv_lhs => rw [← List.take_append_drop k events]
    rw [List.zipIdx_append, List.length_take, Nat.min_eq_left hk, Nat.zero_add]
  rw [processEvents_eq, hsplit] at hcut ⊢
  have hcut' : ¬ (Lumina.processAll D X config prices bands env (events.take k).zipIdx).CutOff w :=
    fun hcut' => by
      unfold Proc.CutOff at hcut hcut'
      rw [processAll_append_of_cutOff _ hcut'] at hcut
      exact hcut hcut'
  have hfst : ((events.take k).zipIdx).map (·.1) = events.take k := List.zipIdx_map_fst 0 _
  have happlied := h.processAll (by rwa [hfst]) (fun p hp e hd => ?_) hcut'
  · have huntouched : ∀ p ∈ (events.drop k).zipIdx k, ∀ e, decodeEvent D X p.1 = .ret (some e) →
        ¬ Goes (env p.2) := by
      intro p hp e hd hgo
      have hle := List.le_snd_of_mem_zipIdx hp
      rw [List.mem_zipIdx_iff_le_and_getElem?_sub, List.getElem?_drop,
        Nat.add_sub_cancel' hle] at hp
      have hlt := (hg p.2 p.1 e hp.2 hd).1 hgo
      omega
    rw [hfst] at happlied
    rw [processAll_append]
    have hret := processAll_ret hcut'
    generalize Lumina.processAll D X config prices bands env (events.take k).zipIdx w = r
      at happlied hret
    obtain ⟨o, w₁⟩ := r
    obtain rfl : o = .ret () := hret
    have hrest : (Lumina.processAll D X config prices bands env ((events.drop k).zipIdx k) w₁).2 =
        w₁ := processAll_untouched fun p hp e hd hgo => absurd hgo (huntouched p hp e hd)
    simp only
    rw [hrest]
    exact happlied
  · rw [List.mem_zipIdx_iff_getElem?, List.getElem?_take] at hp
    split_ifs at hp with hi
    exact (hg p.2 p.1 e hp hd).2 hi

/-! ### The stream -/

/-- The stream of events, and what cursors and ledgers mean in it. -/
structure EventFeed (D : RustDecimal) (X : Codec) where
  stream : List RpcEvent
  /-- How many events a cursor is after. -/
  pos : String → ℕ
  /-- How many events come before a ledger. -/
  start : ℕ → ℕ
  ordered : Ordered D X stream

variable {F : EventFeed D X}

/-- Where in the stream a request begins. -/
def EventFeed.resume (F : EventFeed D X) (startLedger : Option ℕ) : Option String → ℕ
  | some c => F.pos c
  | none => (startLedger.map F.start).getD 0

/-- The RPC answers with the next events of the stream, and a cursor after the last of them. -/
structure EventFeed.Serves (F : EventFeed D X) (rpc : EventsRpc) : Prop where
  events : ∀ n req res, rpc n req = .ret res →
    res.events = (F.stream.drop (F.resume req.startLedger req.cursor)).take res.events.length
  cursor : ∀ n req res c, rpc n req = .ret res → res.cursor = some c →
    F.pos c = F.resume req.startLedger req.cursor + res.events.length

/-- The walk along the pages reads a segment of the stream, and its cursor is within it. -/
theorem EventFeed.Serves.getEventsFrom {rpc : EventsRpc} (hF : F.Serves rpc)
    {startLedger : Option ℕ} {contractIds : List String} {maxPages n : ℕ}
    {cursor next : Option String}
    (h : getEventsFrom rpc startLedger contractIds maxPages n cursor = .ret (events, next)) :
    events = (F.stream.drop (F.resume startLedger cursor)).take events.length ∧
      ∀ c, next = some c → F.resume startLedger cursor ≤ F.pos c ∧
        F.pos c ≤ F.resume startLedger cursor + events.length := by
  induction maxPages generalizing n cursor events with
  | zero =>
    obtain ⟨rfl, rfl⟩ : [] = events ∧ cursor = next := by simpa [Lumina.getEventsFrom] using h
    refine ⟨by simp, ?_⟩
    intro c hc
    subst hc
    exact ⟨le_rfl, by simp [EventFeed.resume]⟩
  | succ maxPages ih =>
    obtain ⟨start, page, hpage, hstart, hcases⟩ := getEventsFrom_succ h
    have hresume : F.resume start cursor = F.resume startLedger cursor := by
      cases cursor with
      | none => rw [hstart rfl]
      | some c => rfl
    have hevents := hF.events n _ page hpage
    have hcursor := fun c => hF.cursor n _ page c hpage
    simp only [hresume] at hevents hcursor
    rcases hcases with ⟨-, rfl, rfl⟩ | ⟨rfl, rfl⟩ | ⟨c, rest, hc, rfl, hrest⟩
    · -- a page without a cursor: the cursor is still the one before it
      refine ⟨hevents, ?_⟩
      intro c hc
      subst hc
      exact ⟨le_rfl, by simp [EventFeed.resume]⟩
    · refine ⟨hevents, ?_⟩
      intro c hc
      have hpos := hcursor c hc
      omega
    · obtain ⟨hrest', hpos'⟩ := ih hrest
      have hpos := hcursor c hc
      have hnext : F.resume startLedger (some c) =
          F.resume startLedger cursor + page.events.length := hpos
      rw [hnext] at hrest' hpos'
      refine ⟨?_, ?_⟩
      · rw [List.length_append, List.take_add, ← hevents, List.drop_drop, ← hrest']
      · intro c' hc'
        have hbounds := hpos' c' hc'
        rw [List.length_append]
        omega

/-! ### One cycle -/

/-- Where in the stream a cycle begins: at the cursor, or at its start ledger without one. -/
def EventFeed.startOf (F : EventFeed D X) (env : LendingEnv) (db : Db) : ℕ :=
  match getIngestCursor eventsCursorKey db, env.latestLedger with
  | some c, _ => F.pos c
  | none, .ret sequence => F.start (sequence - coldStartLedgerLookback)
  | none, _ => 0

theorem readBatch_ret {env : LendingEnv} {contractIds : List String} {next : Option String}
    (h : (readBatch env contractIds w).1 = .ret (bands, events, next)) :
    ∃ startLedger,
      getEvents env.rpc startLedger (getIngestCursor eventsCursorKey w.db) contractIds
        maxEventPages = .ret (events, next) ∧
      F.resume startLedger (getIngestCursor eventsCursorKey w.db) = F.startOf env w.db := by
  have hrules : (loadRules env.rules w).2 = w := by
    unfold loadRules
    rw [Proc.bind_apply, Proc.attempt_apply]
    cases env.rules <;> rfl
  obtain ⟨rules, -, h⟩ := Proc.bind_fst_eq_ret.1 h
  rw [hrules] at h
  obtain ⟨cursor, hcursor, h⟩ := Proc.bind_fst_eq_ret.1 h
  obtain ⟨-, rfl⟩ := fetch_fst_eq_ret.1 hcursor
  rw [fetch_snd] at h
  unfold EventFeed.startOf
  cases hc : getIngestCursor eventsCursorKey w.db with
  | some c =>
    simp only [hc] at h
    obtain ⟨startLedger, -, h⟩ := Proc.bind_fst_eq_ret.1 h
    obtain ⟨r, hr, h⟩ := Proc.bind_fst_eq_ret.1 h
    have hpair : resolveLtvBands rules = bands ∧ r = (events, next) := by simpa using h
    obtain ⟨-, rfl⟩ := hpair
    exact ⟨startLedger, hr, rfl⟩
  | none =>
    simp only [hc] at h
    obtain ⟨sequence, hs, h⟩ := Proc.bind_fst_eq_ret.1 h
    obtain ⟨startLedger, hl, h⟩ := Proc.bind_fst_eq_ret.1 h
    obtain ⟨r, hr, h⟩ := Proc.bind_fst_eq_ret.1 h
    have hpair : resolveLtvBands rules = bands ∧ r = (events, next) := by simpa using h
    obtain ⟨-, rfl⟩ := hpair
    obtain rfl : some (sequence - coldStartLedgerLookback) = startLedger := by simpa using hl
    refine ⟨_, hr, ?_⟩
    rw [Proc.lift_apply] at hs
    rw [show env.latestLedger = .ret sequence from hs]
    rfl

/-- A cycle that does all of its work: it is not cut off, a position event writes its row
exactly when the new cursor passes it, and the cursor is written. -/
structure Whole (config : Config) (F : EventFeed D X) (env : LendingEnv) (w : World)
    (bands : LtvBands) (events : List RpcEvent) (next : Option String) : Prop where
  uncut : ¬ (processEvents D X config (config.blendAssetPricesUsd D) bands env.event
    events).CutOff w
  passed : ∃ c, next = some c ∧ ∀ i event e, events[i]? = some event →
    decodeEvent D X event = .ret (some e) →
      (Goes (env.event i) ↔ F.startOf env w.db + i < F.pos c)
  setCursor : env.setCursor = .ok

/-- A cycle that does nothing: none of the events up to the one at which the process ends, or
of all of them, writes a row, and the cursor is not written. -/
structure Void (D : RustDecimal) (X : Codec) (config : Config) (env : LendingEnv) (w : World)
    (bands : LtvBands) (events : List RpcEvent) (next : Option String) : Prop where
  untouched : ∃ k, (∀ i event e, i < k → events[i]? = some event →
      decodeEvent D X event = .ret (some e) → Goes (env.event i) →
        rowAfter D (config.blendAssetPricesUsd D) (env.event i).tie event.contractId e w.db =
          none) ∧
    (k = events.length ∨ (processEvents D X config (config.blendAssetPricesUsd D) bands env.event
      (events.take k)).CutOff w)
  unmoved : (processEvents D X config (config.blendAssetPricesUsd D) bands env.event
    events).CutOff w ∨ next = none ∨ env.setCursor ≠ .ok

/-- What a cycle has to do with the batch that it reads, if it comes to read one. -/
def AllOrNothing (config : Config) (F : EventFeed D X) (contractIds : List String)
    (env : LendingEnv) (w : World) : Prop :=
  ∀ bands events next, (readBatch env contractIds w).1 = .ret (bands, events, next) →
    Whole config F env w bands events next ∨ Void D X config env w bands events next

/-- A void cycle changes nothing. -/
theorem Void.world {env : LendingEnv} {contractIds : List String} {next : Option String}
    (h : Void D X config env w bands events next)
    (hb : (readBatch env contractIds w).1 = .ret (bands, events, next)) :
    (ingestLendingCycle D X config env contractIds w).2 = w := by
  obtain ⟨k, huntouched, hk⟩ := h.untouched
  have htake : (processEvents D X config (config.blendAssetPricesUsd D) bands env.event
      (events.take k) w).2 = w := by
    rw [processEvents_eq]
    refine processAll_untouched ?_
    intro p hp e hd hg
    obtain ⟨i, hi⟩ := p
    rw [List.mk_mem_zipIdx_iff_getElem?, List.getElem?_take] at hp
    split_ifs at hp with hlt
    exact huntouched hi i e hlt hp hd hg
  have hloop : (processEvents D X config (config.blendAssetPricesUsd D) bands env.event
      events w).2 = w := by
    rcases hk with rfl | hcut
    · rwa [List.take_length] at htake
    · rw [processEvents_eq] at htake hcut ⊢
      rw [← List.take_append_drop k events, List.zipIdx_append,
        processAll_append_of_cutOff _ hcut]
      exact htake
  have hread : readBatch env contractIds w = (.ret (bands, events, next), w) :=
    Prod.ext hb (readBatch_world env contractIds w)
  have hunmoved := h.unmoved
  unfold Proc.CutOff at hunmoved
  rw [ingestLendingCycle_eq, hread]
  simp only [Proc.bind_apply]
  generalize processEvents D X config (config.blendAssetPricesUsd D) bands env.event events w = r
    at hloop hunmoved
  obtain ⟨o, w₁⟩ := r
  obtain rfl : w₁ = w := hloop
  cases o with
  | ret a =>
    cases next with
    | none => rfl
    | some c =>
      have hset : env.setCursor ≠ .ok := by simpa using hunmoved
      cases hs : env.setCursor with
      | ok => exact absurd hs hset
      | fail => simp [exec]
      | stop => simp [exec]
  | err e => rfl
  | stop => rfl
  | panic => rfl

/-- A whole cycle applies the events up to the new cursor, and writes the cursor. -/
theorem Whole.world {env : LendingEnv} {contractIds : List String} {next : Option String}
    {before : List RpcEvent} (h : Whole config F env w bands events next)
    (hF : F.Serves env.rpc)
    (hb : (readBatch env contractIds w).1 = .ret (bands, events, next))
    (hbefore : Applied D X before w.db)
    (ho : ∀ c, F.startOf env w.db ≤ c →
      Ordered D X (before ++ segment F.stream (F.startOf env w.db) c)) :
    ∃ c, F.startOf env w.db ≤ F.pos c ∧
      getIngestCursor eventsCursorKey
        (ingestLendingCycle D X config env contractIds w).2.db = some c ∧
      Applied D X (before ++ segment F.stream (F.startOf env w.db) (F.pos c))
        (ingestLendingCycle D X config env contractIds w).2.db := by
  obtain ⟨c, rfl, hpassed⟩ := h.passed
  obtain ⟨startLedger, hget, hresume⟩ := readBatch_ret (F := F) hb
  obtain ⟨hevents, hpos⟩ := hF.getEventsFrom hget
  rw [hresume] at hevents hpos
  obtain ⟨hle, hge⟩ := hpos c rfl
  have htake : events.take (F.pos c - F.startOf env w.db) =
      segment F.stream (F.startOf env w.db) (F.pos c) := by
    rw [hevents, take_drop_eq_segment]
    exact segment_take hge
  have happlied := hbefore.processEvents (k := F.pos c - F.startOf env w.db) (by omega)
    (by rw [htake]; exact ho _ hle)
    (fun i event e hi hd => (hpassed i event e hi hd).trans (by omega)) h.uncut
  rw [htake] at happlied
  have hread : readBatch env contractIds w = (.ret (bands, events, some c), w) :=
    Prod.ext hb (readBatch_world env contractIds w)
  have hcycle : (ingestLendingCycle D X config env contractIds w).2.db =
      setIngestCursor eventsCursorKey c (Lumina.processEvents D X config
        (config.blendAssetPricesUsd D) bands env.event events w).2.db := by
    have hret := processAll_ret h.uncut
    rw [ingestLendingCycle_eq, hread]
    simp only [Proc.bind_apply, processEvents_eq]
    rw [← processEvents_eq] at hret ⊢
    generalize Lumina.processEvents D X config (config.blendAssetPricesUsd D) bands env.event
      events w = r at hret
    obtain ⟨o, w₁⟩ := r
    obtain rfl : o = .ret () := hret
    simp [exec, h.setCursor]
  refine ⟨c, hle, ?_, ?_⟩
  · rw [hcycle]
    simp [getIngestCursor, setIngestCursor]
  · rw [hcycle]
    exact happlied.congr rfl

/-! ### Runs of cycles -/

/-- Where the stream was joined: at the beginning of the latest cycle without a cursor. -/
def EventFeed.joinAfter (F : EventFeed D X) (env : LendingEnv) (db : Db) (join : ℕ) : ℕ :=
  if (getIngestCursor eventsCursorKey db).isSome then join else F.startOf env db

/-- Runs of cycles from `w₀`, each with the world it starts in; an RPC serves the stream.  The
number says where the stream was joined. -/
inductive Cycles (config : Config) (F : EventFeed D X) (contractIds : List String) (w₀ : World) :
    List (LendingEnv × World) → ℕ → World → Prop
  | nil : Cycles config F contractIds w₀ [] 0 w₀
  | snoc {cycles : List (LendingEnv × World)} {join : ℕ} {w : World} {env : LendingEnv} :
      Cycles config F contractIds w₀ cycles join w → F.Serves env.rpc →
      Cycles config F contractIds w₀ (cycles ++ [(env, w)]) (F.joinAfter env w.db join)
        (ingestLendingCycle D X config env contractIds w).2

/-- The events that the cursor of the database has passed. -/
def EventFeed.passed (F : EventFeed D X) (join : ℕ) (db : Db) : List RpcEvent :=
  match getIngestCursor eventsCursorKey db with
  | none => []
  | some c => segment F.stream join (F.pos c)

/-- Every position holds the fold of its events up to the cursor, each applied once. -/
def ExactlyOnce (F : EventFeed D X) (join : ℕ) (db : Db) : Prop :=
  UpToDate D X (F.passed join db) db

/-- The invariant of the runs. -/
structure CursorInv (F : EventFeed D X) (join : ℕ) (db : Db) : Prop where
  applied : Applied D X (F.passed join db) db
  joined : ∀ c, getIngestCursor eventsCursorKey db = some c → join ≤ F.pos c

theorem EventFeed.ordered_segment (a b : ℕ) : Ordered D X (segment F.stream a b) :=
  F.ordered.sublist ((List.drop_sublist _ _).trans (List.take_sublist _ _))

theorem CursorInv.joinAfter {join : ℕ} {db : Db} (h : CursorInv F join db) (env : LendingEnv) :
    CursorInv F (F.joinAfter env db join) db := by
  unfold EventFeed.joinAfter
  cases hc : getIngestCursor eventsCursorKey db with
  | some c =>
    rw [Option.isSome_some, if_pos rfl]
    exact h
  | none =>
    have happlied := h.applied
    unfold EventFeed.passed at happlied
    refine ⟨?_, by simp [hc]⟩
    unfold EventFeed.passed
    rw [hc] at happlied ⊢
    exact happlied

/-- What the cursor has passed ends where the next cycle begins. -/
theorem CursorInv.passed_eq {join : ℕ} {db : Db} (h : CursorInv F join db) (env : LendingEnv) :
    F.joinAfter env db join ≤ F.startOf env db ∧
      F.passed join db = segment F.stream (F.joinAfter env db join) (F.startOf env db) := by
  unfold EventFeed.joinAfter EventFeed.passed
  cases hc : getIngestCursor eventsCursorKey db with
  | some c =>
    have hstart : F.startOf env db = F.pos c := by simp [EventFeed.startOf, hc]
    rw [Option.isSome_some, if_pos rfl, hstart]
    exact ⟨h.joined c hc, rfl⟩
  | none =>
    simp

/-- A cycle that does all or nothing keeps the invariant. -/
theorem CursorInv.cycle {env : LendingEnv} {contractIds : List String} {join : ℕ}
    (h : CursorInv F join w.db) (hF : F.Serves env.rpc)
    (hall : AllOrNothing config F contractIds env w) :
    CursorInv F (F.joinAfter env w.db join)
      (ingestLendingCycle D X config env contractIds w).2.db := by
  by_cases hb : ∃ r, (readBatch env contractIds w).1 = .ret r
  · -- the batch begins where the cursor is, so the two segments join
    obtain ⟨⟨bands, events, next⟩, hb⟩ := hb
    obtain ⟨hle, hpassed⟩ := h.passed_eq env
    rcases hall bands events next hb with hwhole | hvoid
    · have happlied := h.applied
      rw [hpassed] at happlied
      have ho : ∀ c, F.startOf env w.db ≤ c → Ordered D X
          (segment F.stream (F.joinAfter env w.db join) (F.startOf env w.db) ++
            segment F.stream (F.startOf env w.db) c) := by
        intro c hc
        rw [segment_append hle hc]
        exact F.ordered_segment _ _
      obtain ⟨c, hc, hcursor, hnew⟩ := hwhole.world hF hb happlied ho
      rw [segment_append hle hc] at hnew
      refine ⟨?_, ?_⟩
      · rw [EventFeed.passed, hcursor]
        exact hnew
      · intro c' hc'
        obtain rfl : c = c' := by simpa [hcursor] using hc'
        exact hle.trans hc
    · rw [hvoid.world hb]
      exact h.joinAfter env
  · -- nothing was read
    rw [ingestLendingCycle_of_no_batch fun r hr => hb ⟨r, hr⟩]
    exact h.joinAfter env

/-- **Exactly once.**  After any run of cycles that each do all or nothing, every position holds
the fold of its events up to the cursor. -/
theorem Cycles.exactlyOnce {contractIds : List String} {w₀ : World}
    {cycles : List (LendingEnv × World)} {join : ℕ}
    (h : Cycles config F contractIds w₀ cycles join w) (hrows : w₀.db.lendingPositions = [])
    (hcursor : getIngestCursor eventsCursorKey w₀.db = none)
    (hall : ∀ c ∈ cycles, AllOrNothing config F contractIds c.1 c.2) :
    ExactlyOnce F join w.db := by
  have hinv : CursorInv F join w.db := by
    induction h with
    | nil =>
      refine ⟨?_, by simp [hcursor]⟩
      rw [EventFeed.passed, hcursor]
      exact applied_nil hrows
    | @snoc cycles join w env _ hF ih =>
      have hbefore := ih fun c hc => hall c (List.mem_append_left _ hc)
      exact hbefore.cycle hF (hall (env, w) (by simp))
  exact hinv.applied.upToDate

end Lumina

/-! ### A stream of one event -/

namespace Lumina.Sample

/-- The cursor after the event. -/
def cursor : String := "0000000123-0000000001"

/-- One supply of 100. -/
def feed : EventFeed decimal codec where
  stream := [supply.event]
  pos c := if c = cursor then 1 else 0
  start _ := 0
  ordered := List.pairwise_singleton _ _

/-- An RPC that serves the event on one page. -/
def rpc : EventsRpc := fun _ req =>
  match req.cursor with
  | none => .ret ⟨[supply.event], some cursor⟩
  | some c => if c = cursor then .ret ⟨[], some cursor⟩ else .err .http

theorem serves_rpc : feed.Serves rpc where
  events n req res h := by
    obtain ⟨start, c, limit, ids⟩ := req
    cases c with
    | none =>
      obtain rfl : GetEventsResult.mk [supply.event] (some cursor) = res := by
        simpa [rpc] using h
      cases start <;> rfl
    | some c =>
      simp only [rpc] at h
      split_ifs at h with hc
      obtain rfl : GetEventsResult.mk [] (some cursor) = res := by simpa using h
      simp
  cursor n req res c h hc := by
    obtain ⟨start, c', limit, ids⟩ := req
    cases c' with
    | none =>
      obtain rfl : GetEventsResult.mk [supply.event] (some cursor) = res := by
        simpa [rpc] using h
      obtain rfl : cursor = c := by simpa using hc
      cases start <;> simp [EventFeed.resume, feed]
    | some c' =>
      simp only [rpc] at h
      split_ifs at h with hc'
      obtain rfl : GetEventsResult.mk [] (some cursor) = res := by simpa using h
      obtain rfl : cursor = c := by simpa using hc
      simp [EventFeed.resume, feed, hc']

/-- A cycle with the given outcomes of the insertion and of the cursor's writing. -/
def cycle (insert setCursor : Fault) : LendingEnv where
  rules := .ok
  getCursor := .ok
  latestLedger := .ret 123
  rpc := rpc
  event _ := { env with insert := insert }
  setCursor := setCursor

/-- The world after one cycle. -/
def afterCycle (e : LendingEnv) (w : World) : World :=
  (ingestLendingCycle decimal codec Config.default e [pool] w).2

/-- The insertion of the event failed. -/
def lost : World := afterCycle (cycle .fail .ok) World.empty

/-- The process ended before it wrote the cursor. -/
def interrupted : World := afterCycle (cycle .ok .stop) World.empty

/-- The next cycle after that. -/
def replayed : World := afterCycle (cycle .ok .ok) interrupted

/-- An insertion that fails loses its event for good: the cursor has passed it.  A process that
ends before it writes the cursor applies the event again in its next cycle. -/
theorem event_lost_or_replayed :
    (Cycles Config.default feed [pool] World.empty [(cycle .fail .ok, World.empty)] 0 lost ∧
      getIngestCursor eventsCursorKey lost.db = some cursor ∧
      lost.db.lendingPositions = [] ∧ ¬ ExactlyOnce feed 0 lost.db) ∧
    Cycles Config.default feed [pool] World.empty
        [(cycle .ok .stop, World.empty), (cycle .ok .ok, interrupted)] 0 replayed ∧
      replayed.db.lendingPositions.map (·.collateralAmount) = [100, 200] ∧
      ¬ ExactlyOnce feed 0 replayed.db := by
  refine ⟨⟨Cycles.nil.snoc serves_rpc, by decide +kernel, by decide +kernel, fun h => ?_⟩,
    (Cycles.nil.snoc serves_rpc).snoc serves_rpc, by decide +kernel, fun h => ?_⟩
  · exact absurd (h pool account 0) (by decide +kernel)
  · exact absurd (h pool account 1) (by decide +kernel)

/-! ### A stream of three events -/

/-- An event that does not decode. -/
def noise : RpcEvent := { supply.event with value := "AAAA" }

/-- The cursor after all three. -/
def lastCursor : String := "0000000124-0000000002"

/-- A supply of 100, an event that does not decode, and a borrow of 50. -/
def shortFeed : EventFeed decimal codec where
  stream := [supply.event, noise, borrowLater.event]
  pos c := if c = cursor then 1 else if c = lastCursor then 3 else 0
  start _ := 0
  ordered := by
    have hnoise : ∀ e, decodeEvent decimal codec noise ≠ .ret (some e) := by
      have herr : decodeEvent decimal codec noise = .err (.msg "bad value xdr") := by decide +kernel
      intro e he
      cases herr.symm.trans he
    refine .cons ?_ (.cons ?_ (List.pairwise_singleton _ _))
    · intro b hb e e' he he' _ _
      rcases List.mem_pair.1 hb with rfl | rfl
      · exact absurd he' (hnoise e')
      · rw [supply.decodes] at he
        rw [borrowLater.decodes] at he'
        rw [← Option.some.inj (Outcome.ret.inj he), ← Option.some.inj (Outcome.ret.inj he')]
        decide
    · intro b _ e _ he
      exact absurd he (hnoise e)

/-- An RPC that serves one event at first and the others when they are asked for. -/
def shortRpc : EventsRpc := fun _ req =>
  match req.cursor with
  | none => .ret ⟨[supply.event], some cursor⟩
  | some c =>
    if c = cursor then .ret ⟨[noise, borrowLater.event], some lastCursor⟩
    else if c = lastCursor then .ret ⟨[], some lastCursor⟩ else .err .http

theorem serves_shortRpc : shortFeed.Serves shortRpc := by
  have hpage : ∀ n req res, shortRpc n req = .ret res →
      (req.cursor = none ∧ res = ⟨[supply.event], some cursor⟩ ∨
        req.cursor = some cursor ∧ res = ⟨[noise, borrowLater.event], some lastCursor⟩ ∨
        req.cursor = some lastCursor ∧ res = ⟨[], some lastCursor⟩) := by
    intro n req res h
    obtain ⟨start, c, limit, ids⟩ := req
    cases c with
    | none => exact .inl ⟨rfl, (Outcome.ret.inj h).symm⟩
    | some c =>
      simp only [shortRpc] at h
      split_ifs at h with hfirst hlast
      · exact .inr (.inl ⟨congrArg some hfirst, (Outcome.ret.inj h).symm⟩)
      · exact .inr (.inr ⟨congrArg some hlast, (Outcome.ret.inj h).symm⟩)
  have hfirst : shortFeed.pos cursor = 1 := by decide +kernel
  have hlast : shortFeed.pos lastCursor = 3 := by decide +kernel
  refine ⟨fun n req res h => ?_, fun n req res c h hc => ?_⟩
  · rcases hpage n req res h with ⟨hreq, rfl⟩ | ⟨hreq, rfl⟩ | ⟨hreq, rfl⟩
    · rw [hreq]
      cases req.startLedger <;> rfl
    · rw [hreq, EventFeed.resume, hfirst]
      rfl
    · rw [hreq, EventFeed.resume, hlast]
      rfl
  · rcases hpage n req res h with ⟨hreq, rfl⟩ | ⟨hreq, rfl⟩ | ⟨hreq, rfl⟩
    · obtain rfl := Option.some.inj hc
      rw [hreq, hfirst]
      cases req.startLedger <;> rfl
    · obtain rfl := Option.some.inj hc
      rw [hreq, EventFeed.resume, hfirst, hlast]
      rfl
    · obtain rfl := Option.some.inj hc
      rw [hreq, EventFeed.resume, hlast]
      rfl

/-- A cycle with that RPC and the given outcome of the insertions. -/
def shortCycle (insert : Fault) : LendingEnv :=
  { cycle insert .ok with rpc := shortRpc }

/-- The world after the first event. -/
def suppliedOnce : World := afterCycle (shortCycle .ok) World.empty

/-- The process ends at the insertion of the last event. -/
def stoppedOnce : World := afterCycle (shortCycle .stop) suppliedOnce

/-- The cycle that comes after it. -/
def borrowedOnce : World := afterCycle (shortCycle .ok) stoppedOnce

/-- The events of three cycles, of which the second ends before it writes anything, are applied
once. -/
theorem event_once : ExactlyOnce shortFeed 0 borrowedOnce.db ∧
    borrowedOnce.db.lendingPositions.map (fun row => (row.collateralAmount, row.debtAmount)) =
      [(100, 0), (100, 50)] := by
  have hrun : Cycles Config.default shortFeed [pool] World.empty
      [(shortCycle .ok, World.empty), (shortCycle .stop, suppliedOnce),
        (shortCycle .ok, stoppedOnce)] 0 borrowedOnce :=
    ((Cycles.nil.snoc serves_shortRpc).snoc serves_shortRpc).snoc serves_shortRpc
  refine ⟨hrun.exactlyOnce rfl rfl ?_, by decide +kernel⟩
  intro c hc bands events next hb
  simp only [List.mem_cons, List.not_mem_nil, or_false] at hc
  rcases hc with rfl | rfl | rfl
  · have hread : (readBatch (shortCycle .ok) [pool] World.empty).1 =
        .ret (.default, [supply.event], some cursor) := by decide +kernel
    rw [hread] at hb
    obtain ⟨rfl, rfl, rfl⟩ : LtvBands.default = bands ∧ [supply.event] = events ∧
        some cursor = next := by simpa using hb
    refine .inl ⟨by decide +kernel, ⟨cursor, rfl, fun i event e hi _ => ?_⟩, rfl⟩
    obtain rfl : i = 0 := by
      have hlt := (List.getElem?_eq_some_iff.1 hi).1
      simpa using hlt
    exact iff_of_true ⟨rfl, rfl⟩ (by decide +kernel)
  · have hread : (readBatch (shortCycle .stop) [pool] suppliedOnce).1 =
        .ret (.default, [noise, borrowLater.event], some lastCursor) := by decide +kernel
    rw [hread] at hb
    obtain ⟨rfl, rfl, rfl⟩ : LtvBands.default = bands ∧ [noise, borrowLater.event] = events ∧
        some lastCursor = next := by simpa using hb
    refine .inr ⟨⟨2, fun i event e _ _ _ hgoes => ?_, .inl rfl⟩, .inl (by decide +kernel)⟩
    exact absurd hgoes.2 nofun
  · have hread : (readBatch (shortCycle .ok) [pool] stoppedOnce).1 =
        .ret (.default, [noise, borrowLater.event], some lastCursor) := by decide +kernel
    rw [hread] at hb
    obtain ⟨rfl, rfl, rfl⟩ : LtvBands.default = bands ∧ [noise, borrowLater.event] = events ∧
        some lastCursor = next := by simpa using hb
    refine .inl ⟨by decide +kernel, ⟨lastCursor, rfl, fun i event e hi _ => ?_⟩, rfl⟩
    have hlt : i < 2 := (List.getElem?_eq_some_iff.1 hi).1
    refine iff_of_true ⟨rfl, rfl⟩ ?_
    have hstart : shortFeed.startOf (shortCycle .ok) stoppedOnce.db = 1 := by
      decide +kernel
    have hend : shortFeed.pos lastCursor = 3 := by decide +kernel
    rw [hstart, hend]
    omega

end Lumina.Sample
