import Lumina.Api.AdminKey
import Lumina.Snapshots.DropGate

/-!
# Windows of time

Five endpoints read `hours` and subtract as many hours from the clock.  The number is neither
bounded nor checked, and the subtraction panics where the result is not one of the times of
`chrono`; before that, an hour count can be too large for a duration, but then it also leaves the
times.  So the request is answered exactly if the start of its window is such a time
(`window_answered_iff`).

## Main definitions

* `ReadRequest.window` : the requests with a window, with their clock.
* `Representable` : the times of `chrono`.
* `Answered` : data, or an error of status 4xx or 5xx.
-/

namespace Lumina

/-- The clock and the parameter of a request that reads a window. -/
def ReadRequest.window (env : RequestEnv) : ReadRequest → Option (Time × RangeQuery)
  | tvl q => some (env.cached.now, q)
  | poolsTrending q => some (env.cached.now, q)
  | tokensTrending q => some (env.cached.now, q)
  | poolHistory _ q => some (env.now, q)
  | tokenHistory _ _ q => some (env.now, q)
  | _ => none

/-- The times of `chrono`. -/
def Representable (t : Time) : Prop := minUtc ≤ t ∧ t ≤ maxUtc

instance (t : Time) : Decidable (Representable t) := inferInstanceAs (Decidable (_ ∧ _))

/-- The answer is data or an error; a process that is stopped answers nothing. -/
inductive Answered : Outcome Error Response → Prop
  | data (body : Body) : Answered (.ret (.json body))
  | error {resp : Response} : 400 ≤ resp.status → Answered (.ret resp)
  | stopped : Answered .stop

/-- The snapshots are those of Horizon: its amounts, and counts of 32 bits. -/
structure HorizonSnapshots (db : Db) : Prop where
  pools : ∀ s ∈ db.poolSnapshots, HorizonAmount s.totalShares
  tokens : ∀ s ∈ db.tokenSnapshots, 0 ≤ s.numAccounts ∧ s.numAccounts < 2 ^ 31

variable {srv : ApiServer} {D : RustDecimal} {cache : Cache} {env : RequestEnv}
  {r : ReadRequest} {q : RangeQuery} {now since : Time} {hours : ℤ} {s : Store}

/-! ### The start of the window -/

/-- The number of hours alone never decides: too many for a duration are too many for a time. -/
theorem hoursBefore_isSome_iff (hnow : Representable now) :
    (hoursBefore now hours).isSome ↔ Representable (now - hours * hour) := by
  obtain ⟨hlow, hhigh⟩ := hnow
  unfold hoursBefore Representable
  split_ifs with hlong hout
  · simp only [Option.isSome_none, Bool.false_eq_true, false_iff, not_and_or, not_le]
    unfold minUtc maxUtc hour maxDurationSecs at *
    rcases lt_abs.1 hlong with h | h
    · left
      linarith
    · right
      linarith
  · simp only [Bool.or_eq_true, decide_eq_true_eq] at hout
    simp only [Option.isSome_none, Bool.false_eq_true, false_iff, not_and_or, not_le]
    exact hout
  · simp only [Bool.or_eq_true, decide_eq_true_eq, not_or, not_lt] at hout
    simpa using hout

/-! ### The percentages -/

/-- The change of an amount of Horizon can be computed. -/
theorem exists_percentChange (hD : D.RoundsToNearest) {before after : Decimal}
    (hb : HorizonAmount before) (ha : HorizonAmount after) :
    ∃ pct, percentChange D before after = some pct := by
  rcases hb.nonneg.eq_or_lt with hzero | hpos
  · exact ⟨none, if_pos hzero.symm⟩
  · obtain ⟨r, -, hpct⟩ := percentChange_eq hD hb ha hpos
    exact ⟨_, hpct⟩

/-- Where each row has a result, the list has. -/
theorem exists_mapM {α β : Type} {f : α → Option β} {l : List α}
    (h : ∀ a ∈ l, ∃ b, f a = some b) : ∃ bs, l.mapM f = some bs := by
  induction l with
  | nil => exact ⟨[], rfl⟩
  | cons a l ih =>
    obtain ⟨ha, hl⟩ := List.forall_mem_cons.1 h
    obtain ⟨b, hb⟩ := ha
    obtain ⟨bs, hbs⟩ := ih hl
    exact ⟨b :: bs, by simp [List.mapM_cons, hb, hbs]⟩

/-- What `DISTINCT ON` returns is a row of the table. -/
theorem mem_of_mem_distinctOn {α κ τ : Type} [LinearOrder τ] [DecidableEq κ] {tie : κ → ℕ}
    {key : α → κ} {time : α → τ} {rows : List α} {a : α}
    (h : a ∈ Sql.distinctOn tie key time rows) : a ∈ rows :=
  (List.mem_filter.1 (Sql.mem_newest.1 (Sql.latest_mem (Sql.mem_distinctOn.1 h))).1).1

/-- Where each change has a result, the trends have. -/
theorem exists_poolTrendsSorted {raw : List PoolTrendRaw}
    (h : ∀ e ∈ raw, ∃ pct, percentChange D e.sharesBefore e.sharesNow = some pct) :
    ∃ rows, poolTrendsSorted D raw = some rows := by
  have hmap : ∃ rows, (raw.mapM fun e => do
      let pct ← percentChange D e.sharesBefore e.sharesNow
      return { e with sharesChangePct := pct : PoolTrend }) = some rows := by
    refine exists_mapM fun e he => ?_
    obtain ⟨pct, hpct⟩ := h e he
    exact ⟨{ e with sharesChangePct := pct }, by rw [hpct]; rfl⟩
  obtain ⟨rows, hrows⟩ := hmap
  exact ⟨_, by rw [poolTrendsSorted, hrows]; rfl⟩

theorem exists_tokenTrendsSorted {raw : List TokenTrendRaw}
    (h : ∀ e ∈ raw, ∃ pct, percentChange D e.holdersBefore e.holdersNow = some pct) :
    ∃ rows, tokenTrendsSorted D raw = some rows := by
  have hmap : ∃ rows, (raw.mapM fun e => do
      let pct ← percentChange D e.holdersBefore e.holdersNow
      return { e with holdersChangePct := pct : TokenTrend }) = some rows := by
    refine exists_mapM fun e he => ?_
    obtain ⟨pct, hpct⟩ := h e he
    exact ⟨{ e with holdersChangePct := pct }, by rw [hpct]; rfl⟩
  obtain ⟨rows, hrows⟩ := hmap
  exact ⟨_, by rw [tokenTrendsSorted, hrows]; rfl⟩

/-- The trends of the pools can be computed. -/
theorem exists_poolTrends (hD : D.RoundsToNearest) (hs : HorizonSnapshots s.db)
    (trends : TrendEnv PoolTrendRaw String) (since : Time) :
    ∃ rows, poolTrendsSorted D (poolTrends trends since s.db) = some rows := by
  refine exists_poolTrendsSorted fun e he => ?_
  obtain ⟨p, -, he⟩ := List.mem_flatMap.1 ((trends.visit.perm _).mem_iff.1 he)
  obtain ⟨first, hfirst, he⟩ := List.mem_flatMap.1 he
  obtain ⟨last, hlast, rfl⟩ := List.mem_map.1 he
  have hf := mem_of_mem_distinctOn (List.mem_filter.1 hfirst).1
  have hl := mem_of_mem_distinctOn (List.mem_filter.1 hlast).1
  exact exists_percentChange hD (hs.pools _ (List.mem_filter.1 hf).1)
    (hs.pools _ (List.mem_filter.1 hl).1)

/-- The trends of the tokens can be computed. -/
theorem exists_tokenTrends (hD : D.RoundsToNearest) (hs : HorizonSnapshots s.db)
    (trends : TrendEnv TokenTrendRaw (String × String)) (since : Time) :
    ∃ rows, tokenTrendsSorted D (tokenTrends trends since s.db) = some rows := by
  have hcount : ∀ row ∈ s.db.tokenSnapshots, HorizonAmount (row.numAccounts : Decimal) :=
    fun row hrow => .of_i32 (hs.tokens row hrow).1 (hs.tokens row hrow).2
  refine exists_tokenTrendsSorted fun e he => ?_
  obtain ⟨first, hfirst, he⟩ := List.mem_flatMap.1 ((trends.visit.perm _).mem_iff.1 he)
  obtain ⟨last, hlast, rfl⟩ := List.mem_map.1 he
  have hf := mem_of_mem_distinctOn hfirst
  have hl := mem_of_mem_distinctOn (List.mem_filter.1 hlast).1
  exact exists_percentChange hD (hcount _ (List.mem_filter.1 hf).1)
    (hcount _ (List.mem_filter.1 hl).1)

/-! ### The handlers -/

/-- What does not panic is answered, with data or with a 500. -/
theorem answered_answer {α : Type} {m : Proc Store Error α} {body : α → Body}
    (h : (m s).1 ≠ .panic) : Answered ((answer m fun a => .json (body a)) s).1 := by
  unfold answer
  rw [Proc.bind_apply, Proc.attempt_apply]
  generalize m s = p at h
  obtain ⟨o, s'⟩ := p
  cases o with
  | ret a => exact .data (body a)
  | err e => exact .error (by simp [err])
  | stop => exact .stopped
  | panic => exact absurd rfl h

theorem fetch_ne_panic {α : Type} {f : Fault} {query : Store → α} :
    (Store.fetch f query s).1 ≠ .panic :=
  Proc.panicFree_await f Error.db (fun s => (query s, s)) s

/-- Neither does a computation on what a query returns. -/
theorem fetch_orPanic_ne_panic {α β : Type} {f : Fault} {query : Store → α} {sort : α → Option β}
    {rows : β} (h : sort (query s) = some rows) :
    ((Store.fetch f query >>= fun raw => Proc.lift (.orPanic (sort raw))) s).1 ≠ .panic := by
  unfold Store.fetch
  cases f with
  | ok => simp [Proc.bind_apply, h, Outcome.orPanic]
  | fail => simp [Proc.bind_apply]
  | stop => simp [Proc.bind_apply]

/-- A computation does not panic. -/
theorem CachedQuery.compute_ne_panic (hD : D.RoundsToNearest) (hs : HorizonSnapshots s.db)
    (queryEnv : QueryEnv) (c : CachedQuery) : (c.compute D queryEnv since s).1 ≠ .panic := by
  cases c with
  | tvl hours => exact fetch_ne_panic
  | pools limit offset => exact fetch_ne_panic
  | poolsTrending hours =>
    obtain ⟨rows, hrows⟩ := exists_poolTrends hD hs queryEnv.poolTrends since
    exact fetch_orPanic_ne_panic hrows
  | tokens limit offset => exact fetch_ne_panic
  | tokensTrending hours =>
    obtain ⟨rows, hrows⟩ := exists_tokenTrends hD hs queryEnv.tokenTrends since
    exact fetch_orPanic_ne_panic hrows

/-- The cache adds no panic. -/
theorem getOrCompute_ne_panic {T : Type} {cacheEnv : CacheEnv} {serde : Serde T} {key : String}
    {compute : Proc Store Error T} (h : (compute s).1 ≠ .panic) :
    (getOrCompute cache cacheEnv serde key compute s).1 ≠ .panic := by
  have hlookup : (lookup cache cacheEnv serde key s).1 ≠ .panic ∧
      (lookup cache cacheEnv serde key s).2 = s := by
    rcases lookup_cases with hl | hl | ⟨e, value, hl, -⟩ <;> rw [hl] <;> simp
  refine Proc.bind_fst_ne_panic hlookup.1 fun cached _ => ?_
  rw [hlookup.2]
  cases cached with
  | some value => simp
  | none =>
    refine Proc.bind_fst_ne_panic h fun value _ => ?_
    refine Proc.bind_fst_ne_panic ?_ fun _ _ => by simp
    rcases keep_cases value with hk | hk | ⟨raw, hk, -⟩ <;> rw [hk] <;> simp

/-- **A request with a window** computes its start first; what follows is answered. -/
theorem handle_window (hD : srv.decimal.RoundsToNearest) (hw : r.window env = some (now, q)) :
    ∃ rest : Time → Proc Store Error Response,
      r.handle srv env = (Proc.lift (.orPanic (hoursBefore now q.hoursOr)) >>= rest) ∧
        ∀ since s, HorizonSnapshots s.db → Answered (rest since s).1 := by
  have hcached : ∀ (c : CachedQuery), c.since env.cached.now = hoursBefore now q.hoursOr →
      ∃ rest : Time → Proc Store Error Response,
        cachedHandler srv.decimal srv.cache srv.serde env.cached c =
            (Proc.lift (.orPanic (hoursBefore now q.hoursOr)) >>= rest) ∧
          ∀ since s, HorizonSnapshots s.db → Answered (rest since s).1 := by
    intro c hc
    refine ⟨_, by rw [cachedHandler, hc], fun since s hs => ?_⟩
    exact answered_answer (getOrCompute_ne_panic (c.compute_ne_panic hD hs _))
  cases r with
  | tvl q =>
    obtain ⟨rfl, rfl⟩ := Prod.mk.inj (Option.some.inj hw)
    exact hcached (.tvl q.hoursOr) rfl
  | poolsTrending q =>
    obtain ⟨rfl, rfl⟩ := Prod.mk.inj (Option.some.inj hw)
    exact hcached (.poolsTrending q.hoursOr) rfl
  | tokensTrending q =>
    obtain ⟨rfl, rfl⟩ := Prod.mk.inj (Option.some.inj hw)
    exact hcached (.tokensTrending q.hoursOr) rfl
  | poolHistory poolId q =>
    obtain ⟨rfl, rfl⟩ := Prod.mk.inj (Option.some.inj hw)
    exact ⟨_, rfl, fun since s _ => answered_answer fetch_ne_panic⟩
  | tokenHistory code issuer q =>
    obtain ⟨rfl, rfl⟩ := Prod.mk.inj (Option.some.inj hw)
    exact ⟨_, rfl, fun since s _ => answered_answer fetch_ne_panic⟩
  | health => cases hw
  | metrics => cases hw
  | search q => cases hw
  | pools q => cases hw
  | tokens q => cases hw
  | whaleTransactions q => cases hw
  | liquidations => cases hw
  | alerts q => cases hw
  | listAlertChannels => cases hw
  | listAlertRules => cases hw
  | listWatchlist => cases hw
  | eventsStream => cases hw

/-- **A window is answered** exactly if it starts at a time of `chrono`; otherwise the handler
panics before its first query. -/
theorem window_answered_iff (hD : srv.decimal.RoundsToNearest)
    (hw : r.window env = some (now, q)) (hnow : Representable now) :
    ((hoursBefore now q.hoursOr).isSome ∧
        ∀ s, HorizonSnapshots s.db → Answered (r.handle srv env s).1) ↔
      Representable (now - q.hoursOr * hour) := by
  obtain ⟨rest, hhandle, hrest⟩ := handle_window hD hw
  rw [← hoursBefore_isSome_iff hnow, hhandle]
  constructor
  · exact And.left
  · intro hsome
    obtain ⟨since, hsince⟩ := Option.isSome_iff_exists.1 hsome
    refine ⟨hsome, fun s hs => ?_⟩
    rw [hsince]
    exact hrest since s hs

namespace Sample

/-- A server whose arithmetic rounds. -/
def roundingServer : ApiServer := { adminServer with decimal := .rounding fun _ => none }

/-- The greatest `i64`. -/
def maxHours : ℤ := 2 ^ 63 - 1

/-- **The greatest number of hours panics.** -/
theorem maxHours_panics :
    (ReadRequest.tvl ⟨some maxHours⟩).handle roundingServer requestEnv Store.empty =
      (.panic, Store.empty) := by
  have hpanics : hoursBefore requestEnv.cached.now maxHours = none := by decide +kernel
  show cachedHandler _ _ _ _ (.tvl maxHours) _ = _
  simp only [cachedHandler, CachedQuery.since, hpanics]
  rfl

theorem maxHours_unanswered : ¬ ∀ (srv : ApiServer) (env : RequestEnv) (r : ReadRequest)
    (now : Time) (q : RangeQuery), srv.decimal.RoundsToNearest →
      r.window env = some (now, q) → Representable now →
      -2 ^ 63 ≤ q.hoursOr → q.hoursOr < 2 ^ 63 →
      (hoursBefore now q.hoursOr).isSome ∧
        ∀ s, HorizonSnapshots s.db → Answered (r.handle srv env s).1 := by
  intro hall
  obtain ⟨-, hanswered⟩ := hall roundingServer requestEnv (.tvl ⟨some maxHours⟩) 7 _
    (RustDecimal.rounding_roundsToNearest _) rfl (by decide +kernel) (by decide +kernel)
    (by decide +kernel)
  have hempty : HorizonSnapshots Store.empty.db :=
    ⟨fun _ h => absurd h List.not_mem_nil, fun _ h => absurd h List.not_mem_nil⟩
  have h := hanswered Store.empty hempty
  rw [maxHours_panics] at h
  cases h

/-- A window of a day is answered, and the greatest number of hours is not. -/
theorem day_answered :
    ((hoursBefore 7 24).isSome ∧ ∀ s, HorizonSnapshots s.db →
        Answered ((ReadRequest.tvl ⟨none⟩).handle roundingServer requestEnv s).1) ∧
      ¬ ((hoursBefore 7 maxHours).isSome ∧ ∀ s, HorizonSnapshots s.db →
        Answered ((ReadRequest.tvl ⟨some maxHours⟩).handle roundingServer requestEnv s).1) := by
  have hrounds : roundingServer.decimal.RoundsToNearest := RustDecimal.rounding_roundsToNearest _
  have hnow : Representable 7 := by decide +kernel
  have hday : (ReadRequest.tvl ⟨none⟩).window requestEnv = some (7, ⟨none⟩) := rfl
  have hmax : (ReadRequest.tvl ⟨some maxHours⟩).window requestEnv = some (7, ⟨some maxHours⟩) := rfl
  exact ⟨(window_answered_iff hrounds hday hnow).2 (by decide +kernel),
    mt (window_answered_iff hrounds hmax hnow).1 (by decide +kernel)⟩

end Sample

end Lumina
