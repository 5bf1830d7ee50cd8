import Lumina.Model.Cache
import Mathlib.Data.List.Basic
import Mathlib.Logic.Function.Basic
import Mathlib.Logic.Relation

/-!
# Runs of the cached endpoints

Any number of requests to the five cached endpoints are under way at a time.  Between two of their
calls the clock moves on, the database is written, and Redis loses an entry or has one in it that
cannot be read.  The next call of a request under way is a step of the run wherever the others have
come to (`CacheRun.next_call`), so that a request alone is a run (`CacheRun.of_handle`), and no two
requests with different parameters have a key in common (`CachedQuery.key_injective`).

## Main definitions

* `CachedRequest` : a request, with its query and its handler.
* `Computation` : a value that a request has computed.
* `CacheRun` : the store, the requests under way, and what has happened.
* `CacheRun.Step` : the next call of a request, or a change around it.
* `PendingRequest.rest` : what a handler has yet to do.
-/

namespace Lumina

/-! ### Keys -/

theorem toList_toString_int (n : ℤ) :
    (toString n).toList =
      if 0 ≤ n then Nat.toDigits 10 n.toNat else '-' :: Nat.toDigits 10 (-n).toNat := by
  rw [Int.toString_eq_repr, Int.repr_eq_if]
  split_ifs
  · rw [Nat.toList_repr]
  · rw [String.toList_append, Nat.toList_repr]
    rfl

theorem not_mem_toDigits {c : Char} (hc : c.isDigit = false) (n : ℕ) :
    c ∉ Nat.toDigits 10 n := by
  intro h
  have hdigit := Nat.isDigit_of_mem_toDigits (by decide) (by decide) h
  rw [hc] at hdigit
  exact Bool.false_ne_true hdigit

theorem toDigits_injective {m n : ℕ} (h : Nat.toDigits 10 m = Nat.toDigits 10 n) : m = n := by
  have h := congrArg (Nat.ofDigitChars 10 · 0) h
  simpa only [Nat.ofDigitChars_ten_toDigits] using h

theorem toList_toString_injective {m n : ℤ} (h : (toString m).toList = (toString n).toList) :
    m = n := by
  rw [toList_toString_int, toList_toString_int] at h
  split_ifs at h with hm hn hn
  · have := toDigits_injective h
    omega
  · exact absurd (h ▸ List.mem_cons_self) (not_mem_toDigits (by decide) m.toNat)
  · exact absurd (h ▸ List.mem_cons_self) (not_mem_toDigits (by decide) n.toNat)
  · have := toDigits_injective (List.cons.inj h).2
    omega

theorem colon_not_mem_toString (n : ℤ) : ':' ∉ (toString n).toList := by
  rw [toList_toString_int]
  split_ifs
  · exact not_mem_toDigits (by decide) _
  · rw [List.mem_cons, not_or]
    exact ⟨by decide, not_mem_toDigits (by decide) _⟩

/-- The two numbers of a page can be read off its key. -/
theorem page_injective {limit offset limit' offset' : ℤ}
    (h : (toString limit).toList ++ ':' :: (toString offset).toList =
      (toString limit').toList ++ ':' :: (toString offset').toList) :
    limit = limit' ∧ offset = offset' := by
  obtain ⟨hlimit, -, hoffset⟩ := (List.append_cons_inj_of_notMem
    (colon_not_mem_toString limit) (colon_not_mem_toString offset)).1 h
  exact ⟨toList_toString_injective hlimit, toList_toString_injective hoffset⟩

/-- What the keys of an endpoint start with. -/
def CachedEndpoint.label : CachedEndpoint → String
  | tvl => "tvl:"
  | pools => "pools:"
  | poolsTrending => "pools_trending:"
  | tokens => "tokens:"
  | tokensTrending => "tokens_trending:"

/-- What follows. -/
def CachedQuery.params : CachedQuery → List Char
  | tvl hours => (toString hours).toList
  | pools limit offset => (toString limit).toList ++ ':' :: (toString offset).toList
  | poolsTrending hours => (toString hours).toList
  | tokens limit offset => (toString limit).toList ++ ':' :: (toString offset).toList
  | tokensTrending hours => (toString hours).toList

theorem CachedQuery.toList_key (q : CachedQuery) :
    q.key.toList = q.endpoint.label.toList ++ q.params := by
  have hpage : ∀ (label : String) (limit offset : ℤ),
      (label ++ toString limit ++ ":" ++ toString offset).toList =
        label.toList ++ ((toString limit).toList ++ ':' :: (toString offset).toList) := by
    have hcolon : ":".toList = [':'] := by decide +kernel
    simp [String.toList_append, hcolon]
  cases q with
  | tvl hours => exact String.toList_append
  | pools limit offset => exact hpage _ limit offset
  | poolsTrending hours => exact String.toList_append
  | tokens limit offset => exact hpage _ limit offset
  | tokensTrending hours => exact String.toList_append

/-- No label starts with another one. -/
theorem CachedEndpoint.label_separates {e e' : CachedEndpoint}
    (h : e.label.toList <+: e'.label.toList) : e = e' := by
  revert h
  cases e <;> cases e' <;> decide +kernel

/-- **Different requests have different keys.** -/
theorem CachedQuery.key_injective : Function.Injective CachedQuery.key := by
  intro q q' h
  have h := congrArg String.toList h
  rw [q.toList_key, q'.toList_key] at h
  have hendpoint : q.endpoint = q'.endpoint := by
    rcases List.prefix_or_prefix_of_prefix ⟨q.params, h⟩ ⟨q'.params, rfl⟩ with hpre | hpre
    · exact CachedEndpoint.label_separates hpre
    · exact (CachedEndpoint.label_separates hpre).symm
  rw [hendpoint] at h
  have hparams := List.append_cancel_left h
  cases q <;> cases q' <;> simp only [endpoint, reduceCtorEq] at hendpoint
  · rw [toList_toString_injective hparams]
  · obtain ⟨rfl, rfl⟩ := page_injective hparams
    rfl
  · rw [toList_toString_injective hparams]
  · obtain ⟨rfl, rfl⟩ := page_injective hparams
    rfl
  · rw [toList_toString_injective hparams]

/-! ### Requests -/

/-- A request to a cached endpoint, with its parameters as they arrive. -/
inductive CachedRequest where
  | tvl (q : RangeQuery)
  | pools (q : PageQuery)
  | poolsTrending (q : RangeQuery)
  | tokens (q : PageQuery)
  | tokensTrending (q : RangeQuery)
  deriving DecidableEq

namespace CachedRequest

/-- The endpoint with the parameters after defaults and bounds. -/
def query : CachedRequest → CachedQuery
  | tvl q => .tvl q.hoursOr
  | pools q => .pools q.pageLimit q.pageOffset
  | poolsTrending q => .poolsTrending q.hoursOr
  | tokens q => .tokens q.pageLimit q.pageOffset
  | tokensTrending q => .tokensTrending q.hoursOr

variable (D : RustDecimal) (cache : Cache) (serde : (e : CachedEndpoint) → Serde e.Payload)
  (env : CachedEnv)

/-- The handler of a request. -/
def handle : CachedRequest → Proc Store Error Response
  | tvl q => Lumina.tvl D cache serde env q
  | pools q => Lumina.pools D cache serde env q
  | poolsTrending q => Lumina.poolsTrending D cache serde env q
  | tokens q => Lumina.tokens D cache serde env q
  | tokensTrending q => Lumina.tokensTrending D cache serde env q

theorem handle_eq (r : CachedRequest) :
    r.handle D cache serde env = cachedHandler D cache serde env r.query := by
  cases r <;> rfl

end CachedRequest

/-- What a handler does that answers. -/
theorem cachedHandler_ret {D : RustDecimal} {cache : Cache}
    {serde : (e : CachedEndpoint) → Serde e.Payload} {env : CachedEnv} {q : CachedQuery}
    {s s' : Store} {resp : Response}
    (h : cachedHandler D cache serde env q s = (.ret resp, s')) :
    ∃ since, q.since env.now = some since ∧
      ((∃ value, lookup cache env.cache (serde q.endpoint) q.key s = (.ret (some value), s) ∧
          resp = .json (q.endpoint.body value) ∧ s' = s) ∨
        (lookup cache env.cache (serde q.endpoint) q.key s = (.ret none, s) ∧
          ((∃ e, (q.compute D env.query since s).1 = .err e ∧ resp = err e ∧ s' = s) ∨
            ∃ value, (q.compute D env.query since s).1 = .ret value ∧
              keep cache env.cache (serde q.endpoint) q.key value s = (.ret (), s') ∧
              resp = .json (q.endpoint.body value)))) := by
  rw [cachedHandler, Proc.bind_apply, Proc.lift_apply] at h
  cases hsince : q.since env.now with
  | none => simp [hsince] at h
  | some since =>
    simp only [hsince, Outcome.orPanic_some] at h
    refine ⟨since, rfl, ?_⟩
    unfold answer getOrCompute at h
    simp only [Proc.bind_apply, Proc.attempt_apply] at h
    rcases @lookup_cases _ cache env.cache (serde q.endpoint) q.key s with
      hlook | hlook | ⟨e, value, hlook, -⟩
    · simp [hlook] at h
    · refine .inr ⟨hlook, ?_⟩
      have hstore : (q.compute D env.query since s).2 = s := q.compute_snd s
      rw [hlook] at h
      simp only [Proc.bind_apply] at h
      generalize q.compute D env.query since s = r at h hstore
      obtain ⟨o, s₁⟩ := r
      obtain rfl : s₁ = s := hstore
      cases o with
      | stop => simp at h
      | panic => simp at h
      | err e =>
        simp only [Proc.pure_apply, Prod.mk.injEq, Outcome.ret.injEq] at h
        exact .inl ⟨e, rfl, h.1.symm, h.2.symm⟩
      | ret value =>
        refine .inr ⟨value, rfl, ?_⟩
        rcases @keep_cases _ cache env.cache (serde q.endpoint) q.key s₁ value with
          hkeep | hkeep | ⟨raw, hkeep, -⟩
        · simp [hkeep] at h
        · simp only [hkeep, Proc.pure_apply, Prod.mk.injEq, Outcome.ret.injEq] at h
          exact ⟨h.2 ▸ hkeep, h.1.symm⟩
        · simp only [hkeep, Proc.pure_apply, Prod.mk.injEq, Outcome.ret.injEq] at h
          exact ⟨h.2 ▸ hkeep, h.1.symm⟩
    · simp only [hlook, Proc.pure_apply, Prod.mk.injEq, Outcome.ret.injEq] at h
      exact .inl ⟨value, hlook, h.1.symm, h.2.symm⟩

/-! ### The system -/

/-- A value that a request has computed, with the clock and the database it was computed from. -/
structure Computation (D : RustDecimal) where
  id : ℕ
  query : CachedQuery
  clock : Time
  since : Time
  env : QueryEnv
  store : Store
  value : query.endpoint.Payload
  window : query.since clock = some since
  sound : (query.compute D env since store).1 = .ret value

/-- The answer with a computed value. -/
def Computation.response {D : RustDecimal} (c : Computation D) : Response :=
  .json (c.query.endpoint.body c.value)

/-- How far a request has come. -/
inductive CachePhase (D : RustDecimal) where
  /-- It has not yet asked the cache. -/
  | started
  /-- The cache had nothing for it. -/
  | missed (readAt : Time)
  /-- It has a value that it may keep. -/
  | computed (readAt : Time) (c : Computation D)

/-- A request under way. -/
structure PendingRequest (D : RustDecimal) where
  request : CachedRequest
  clock : Time
  since : Time
  phase : CachePhase D

/-- An entry that a request has written. -/
structure CacheWrite (D : RustDecimal) where
  computation : Computation D
  entry : CacheEntry

/-- An answer, with the time at which its request read the cache. -/
structure CacheAnswer where
  id : ℕ
  request : CachedRequest
  readAt : Time
  response : Response

/-- The system: the store, the clock, the requests under way by number, and what has happened. -/
structure CacheRun (D : RustDecimal) where
  store : Store
  now : Time
  next : ℕ
  pending : ℕ → Option (PendingRequest D)
  computed : List (Computation D)
  writes : List (CacheWrite D)
  /-- The computations that returned an error. -/
  failures : List (ℕ × Error)
  answers : List CacheAnswer

namespace CacheRun

variable {D : RustDecimal}

/-- Nothing has been asked and Redis is empty. -/
def init (db : Db) (now : Time) : CacheRun D where
  store := { Store.empty with db := db }
  now := now
  next := 0
  pending := fun _ => none
  computed := []
  writes := []
  failures := []
  answers := []

/-- A request goes on. -/
def advance (s : CacheRun D) (id : ℕ) (p : PendingRequest D) : CacheRun D :=
  { s with pending := Function.update s.pending id (some p) }

/-- A request is over. -/
def forget (s : CacheRun D) (id : ℕ) : CacheRun D :=
  { s with pending := Function.update s.pending id none }

/-- A request is answered. -/
def respond (s : CacheRun D) (id : ℕ) (r : CachedRequest) (readAt : Time) (resp : Response) :
    CacheRun D :=
  { s.forget id with answers := ⟨id, r, readAt, resp⟩ :: s.answers }

/-- What Redis gains at a key: the entry that is there now and was not before. -/
def gained (before after : Store) (c : Computation D) : List (CacheWrite D) :=
  match after.redis c.query.key with
  | some e => if before.redis c.query.key = some e then [] else [⟨c, e⟩]
  | none => []

/-- A text from which no query with that key reads a value. -/
def Unreadable (serde : (e : CachedEndpoint) → Serde e.Payload) (key raw : String) : Prop :=
  ∀ q : CachedQuery, q.key = key → (serde q.endpoint).fromText raw = none

/-- The calls to Redis that are made now. -/
def envNow (s : CacheRun D) (f : Fault) : CacheEnv := ⟨s.now, f, s.now, f⟩

variable (cache : Cache) (serde : (e : CachedEndpoint) → Serde e.Payload)

/-- The next call of a request, or a change around it. -/
inductive Step : CacheRun D → CacheRun D → Prop where
  /-- A request arrives and reads the clock; where its window cannot be computed it panics. -/
  | arrive {s} (r : CachedRequest) (clock since : Time) (h : r.query.since clock = some since) :
    Step s ({ s with next := s.next + 1 }.advance s.next ⟨r, clock, since, .started⟩)
  /-- It reads the cache and is answered from there. -/
  | hit {s} {id : ℕ} {r : CachedRequest} {clock since : Time} (f : Fault)
    (value : r.query.endpoint.Payload) (hp : s.pending id = some ⟨r, clock, since, .started⟩)
    (h : (lookup cache (s.envNow f) (serde r.query.endpoint) r.query.key s.store).1 =
      .ret (some value)) :
    Step s (s.respond id r s.now (.json (r.query.endpoint.body value)))
  /-- It reads the cache, which has nothing for it. -/
  | miss {s} {id : ℕ} {r : CachedRequest} {clock since : Time} (f : Fault)
    (hp : s.pending id = some ⟨r, clock, since, .started⟩)
    (h : (lookup cache (s.envNow f) (serde r.query.endpoint) r.query.key s.store).1 = .ret none) :
    Step s (s.advance id ⟨r, clock, since, .missed s.now⟩)
  /-- It computes its value from the database. -/
  | compute {s} {id : ℕ} {r : CachedRequest} {clock since readAt : Time} (c : Computation D)
    (hp : s.pending id = some ⟨r, clock, since, .missed readAt⟩) (hid : c.id = id)
    (hquery : c.query = r.query) (hclock : c.clock = clock) (hstore : c.store = s.store) :
    Step s ({ s with computed := c :: s.computed }.advance id
      ⟨r, clock, since, .computed readAt c⟩)
  /-- The computation returns an error. -/
  | fail {s} {id : ℕ} {r : CachedRequest} {clock since readAt : Time} (env : QueryEnv) (e : Error)
    (hp : s.pending id = some ⟨r, clock, since, .missed readAt⟩)
    (h : (r.query.compute D env since s.store).1 = .err e) :
    Step s { s.respond id r readAt (err e) with failures := (id, e) :: s.failures }
  /-- It keeps the value, if it can, and is answered. -/
  | keep {s} {id : ℕ} {r : CachedRequest} {clock since readAt : Time} {c : Computation D}
    (f : Fault) (store : Store) (hp : s.pending id = some ⟨r, clock, since, .computed readAt c⟩)
    (h : Lumina.keep cache (s.envNow f) (serde c.query.endpoint) c.query.key c.value s.store =
      (.ret (), store)) :
    Step s { s.respond id r readAt c.response with
      store := store, writes := gained s.store store c ++ s.writes }
  /-- It is cut off. -/
  | drop {s} (id : ℕ) : Step s (s.forget id)
  /-- Time passes. -/
  | tick {s} (now : Time) (h : s.now ≤ now) : Step s { s with now := now }
  /-- The database is written. -/
  | database {s} (db : Db) : Step s { s with store := { s.store with db := db } }
  /-- Redis loses an entry. -/
  | evict {s} (key : String) :
    Step s { s with store := { s.store with redis := Function.update s.store.redis key none } }
  /-- Redis has an entry that cannot be read. -/
  | corrupt {s} (key : String) (e : CacheEntry) (h : Unreadable serde key e.raw) :
    Step s { s with store := { s.store with redis := Function.update s.store.redis key (some e) } }

/-- A state of a run. -/
def Reachable (s s' : CacheRun D) : Prop := Relation.ReflTransGen (Step cache serde) s s'

variable {cache serde}

@[simp] theorem advance_pending (s : CacheRun D) (id : ℕ) (p : PendingRequest D) :
    (s.advance id p).pending id = some p := by
  simp [advance]

theorem lookup_envNow {s : CacheRun D} {env : CacheEnv} (h : env.getTime = s.now) {T : Type}
    (serde : Serde T) (key : String) (store : Store) :
    lookup cache (s.envNow env.get) serde key store = lookup cache env serde key store := by
  unfold lookup tryGet envNow
  rw [h]

theorem keep_envNow {s : CacheRun D} {env : CacheEnv} (h : env.setTime = s.now) {T : Type}
    (serde : Serde T) (key : String) (value : T) (store : Store) :
    Lumina.keep cache (s.envNow env.set) serde key value store =
      Lumina.keep cache env serde key value store := by
  unfold Lumina.keep trySet envNow
  rw [h]

end CacheRun

/-! ### The calls of a handler -/

namespace PendingRequest

variable {D : RustDecimal} (cache : Cache) (serde : (e : CachedEndpoint) → Serde e.Payload)
  (env : CacheEnv) (query : QueryEnv) (p : PendingRequest D)

/-- What a request under way has yet to do: its handler, from its next call on. -/
def rest : Proc Store Error Response :=
  let q := p.request.query
  match p.phase with
  | .started =>
    answer (getOrCompute cache env (serde q.endpoint) q.key (q.compute D query p.since))
      fun value => .json (q.endpoint.body value)
  | .missed _ =>
    answer (do
      let value ← q.compute D query p.since
      keep cache env (serde q.endpoint) q.key value
      return value) fun value => .json (q.endpoint.body value)
  | .computed _ c => do
    keep cache env (serde c.query.endpoint) c.query.key c.value
    return c.response

/-- Its next call, where it is one to Redis, is made at some time. -/
def CallsAt (now : Time) : Prop :=
  match p.phase with
  | .started => env.getTime = now
  | .missed _ => True
  | .computed _ _ => env.setTime = now

end PendingRequest

/-- A handler reads the clock and goes on as a request that has just arrived. -/
theorem CachedRequest.handle_eq_rest {D : RustDecimal} (cache : Cache)
    (serde : (e : CachedEndpoint) → Serde e.Payload) (env : CachedEnv) (r : CachedRequest) :
    r.handle D cache serde env = (do
      let since ← Proc.lift (.orPanic (r.query.since env.now))
      PendingRequest.rest cache serde env.cache env.query
        (⟨r, env.now, since, .started⟩ : PendingRequest D)) :=
  r.handle_eq D cache serde env

namespace CacheRun

variable {D : RustDecimal} {cache : Cache} {serde : (e : CachedEndpoint) → Serde e.Payload}
  {s s' : CacheRun D}

/-- The requests under way have the windows of their clocks. -/
def Windowed (s : CacheRun D) : Prop :=
  ∀ id p, s.pending id = some p → p.request.query.since p.clock = some p.since

theorem Windowed.advance {id : ℕ} {p : PendingRequest D} (h : s.Windowed)
    (hp : p.request.query.since p.clock = some p.since) : (s.advance id p).Windowed := by
  intro id' p' h'
  by_cases hid : id' = id
  · subst hid
    rw [advance_pending] at h'
    rw [← Option.some.inj h']
    exact hp
  · exact h id' p' (by simpa [CacheRun.advance, hid] using h')

theorem Windowed.forget (id : ℕ) (h : s.Windowed) : (s.forget id).Windowed := by
  intro id' p' h'
  by_cases hid : id' = id
  · simp [CacheRun.forget, hid] at h'
  · exact h id' p' (by simpa [CacheRun.forget, hid] using h')

theorem Windowed.step (h : s.Windowed) (hstep : Step cache serde s s') : s'.Windowed := by
  cases hstep with
  | arrive r clock since hsince => exact Windowed.advance (s := { s with next := _ }) h hsince
  | hit f value hp _ => exact h.forget _
  | miss f hp _ =>
    have hp := h _ _ hp
    exact h.advance hp
  | compute c hp _ _ _ _ =>
    have hp := h _ _ hp
    exact Windowed.advance (s := { s with computed := _ }) h hp
  | fail env e hp _ => exact h.forget _
  | keep f store hp _ => exact h.forget _
  | drop id => exact h.forget id
  | tick now _ => exact h
  | database db => exact h
  | evict key => exact h
  | corrupt key e _ => exact h

theorem Windowed.reachable (h : s.Windowed) (hrun : Reachable cache serde s s') : s'.Windowed := by
  induction hrun with
  | refl => exact h
  | tail _ hstep ih => exact ih.step hstep

/-- **The next call of any request under way is a step.**  Whatever the other requests, the writes
of the database and the losses of Redis have made of the store since its last call, the call takes
what its handler has yet to do there to what it then has yet to do, or to its answer. -/
theorem next_call {db : Db} {now : Time} (hrun : Reachable cache serde (init db now) s)
    {id : ℕ} {p : PendingRequest D} (hp : s.pending id = some p) {env : CacheEnv}
    (hnow : p.CallsAt env s.now) (query : QueryEnv) :
    ∃ s', Step cache serde s s' ∧
      ((∃ phase, s'.pending id = some { p with phase := phase } ∧ s'.answers = s.answers ∧
          p.rest cache serde env query s.store =
            PendingRequest.rest cache serde env query { p with phase := phase } s'.store) ∨
        (s'.pending id = none ∧ s'.answers = s.answers ∧
          (p.rest cache serde env query).CutOff s.store) ∨
        s'.pending id = none ∧ ∃ readAt resp,
          s'.answers = ⟨id, p.request, readAt, resp⟩ :: s.answers ∧
            p.rest cache serde env query s.store = (.ret resp, s'.store)) := by
  have hwindow : p.request.query.since p.clock = some p.since :=
    Windowed.reachable (fun _ _ h => absurd h (by simp [init])) hrun id p hp
  obtain ⟨r, clock, since, phase⟩ := p
  cases phase with
  | started =>
    rcases @lookup_cases _ cache env (serde r.query.endpoint) r.query.key s.store with
      hlook | hlook | ⟨e, value, hlook, -⟩
    · refine ⟨_, .drop id, .inr (.inl ⟨Function.update_self .., rfl, .inl ?_⟩)⟩
      simp only [PendingRequest.rest, answer, getOrCompute, Proc.bind_apply, Proc.attempt_apply,
        hlook]
    · refine ⟨_, .miss env.get hp (congrArg Prod.fst ((lookup_envNow hnow ..).trans hlook)),
        .inl ⟨_, advance_pending .., rfl, ?_⟩⟩
      simp only [PendingRequest.rest, answer, getOrCompute, Proc.bind_apply, Proc.attempt_apply,
        hlook]
      rfl
    · refine ⟨_, .hit env.get value hp (congrArg Prod.fst ((lookup_envNow hnow ..).trans hlook)),
        .inr (.inr ⟨Function.update_self .., _, _, rfl, ?_⟩)⟩
      simp only [PendingRequest.rest, answer, getOrCompute, Proc.bind_apply, Proc.attempt_apply,
        hlook]
      rfl
  | missed readAt =>
    have hstore : (r.query.compute D query since s.store).2 = s.store := r.query.compute_snd s.store
    cases hcompute : (r.query.compute D query since s.store).1 with
    | ret value =>
      let c : Computation D := ⟨id, r.query, clock, since, query, s.store, value, hwindow, hcompute⟩
      refine ⟨_, .compute c hp rfl rfl rfl rfl, .inl ⟨_, advance_pending .., rfl, ?_⟩⟩
      have hcompute : r.query.compute D query since s.store = (.ret value, s.store) :=
        Prod.ext hcompute hstore
      simp only [PendingRequest.rest, answer, Proc.bind_apply, Proc.attempt_apply, hcompute]
      -- to keep a value is to return or to be cut off
      rcases @keep_cases _ cache env (serde r.query.endpoint) r.query.key s.store value with
        hkeep | hkeep | ⟨raw, hkeep, -⟩
      all_goals
        simp only [c, advance, Computation.response, hkeep, Proc.pure_apply]
    | err e =>
      refine ⟨_, .fail query e hp hcompute,
        .inr (.inr ⟨Function.update_self .., readAt, _, rfl, ?_⟩)⟩
      have hcompute : r.query.compute D query since s.store = (.err e, s.store) :=
        Prod.ext hcompute hstore
      simp only [PendingRequest.rest, answer, Proc.bind_apply, Proc.attempt_apply, hcompute]
      rfl
    | stop =>
      refine ⟨_, .drop id, .inr (.inl ⟨Function.update_self .., rfl, .inl ?_⟩)⟩
      have hcompute : r.query.compute D query since s.store = (.stop, s.store) :=
        Prod.ext hcompute hstore
      simp only [PendingRequest.rest, answer, Proc.bind_apply, Proc.attempt_apply, hcompute]
    | panic =>
      refine ⟨_, .drop id, .inr (.inl ⟨Function.update_self .., rfl, .inr ?_⟩)⟩
      have hcompute : r.query.compute D query since s.store = (.panic, s.store) :=
        Prod.ext hcompute hstore
      simp only [PendingRequest.rest, answer, Proc.bind_apply, Proc.attempt_apply, hcompute]
  | computed readAt c =>
    rcases @keep_cases _ cache env (serde c.query.endpoint) c.query.key s.store c.value with
      hkeep | hkeep | ⟨raw, hkeep, -⟩
    · refine ⟨_, .drop id, .inr (.inl ⟨Function.update_self .., rfl, .inl ?_⟩)⟩
      simp only [PendingRequest.rest, Proc.bind_apply, hkeep]
    all_goals
      refine ⟨_, .keep env.set _ hp ((keep_envNow hnow ..).trans hkeep),
        .inr (.inr ⟨Function.update_self .., readAt, _, rfl, ?_⟩)⟩
      simp only [PendingRequest.rest, Proc.bind_apply, hkeep]
      rfl

/-- **A request on its own** is a run that leaves the store and gives the answer of its
handler. -/
theorem of_handle {r : CachedRequest} {env : CachedEnv} {s : CacheRun D} {resp : Response}
    {store : Store} (hget : env.cache.getTime = s.now) (hset : s.now ≤ env.cache.setTime)
    (h : r.handle D cache serde env s.store = (.ret resp, store)) :
    ∃ s', Reachable cache serde s s' ∧ s'.store = store ∧ s'.next = s.next + 1 ∧
      s'.now ≤ env.cache.setTime ∧ s'.answers = ⟨s.next, r, s.now, resp⟩ :: s.answers := by
  rw [CachedRequest.handle_eq] at h
  obtain ⟨since, hsince, h⟩ := cachedHandler_ret h
  have hstart : Reachable cache serde s _ := .single (.arrive r env.now since hsince)
  rcases h with ⟨value, hlook, rfl, rfl⟩ | ⟨hlook, h⟩
  · exact ⟨_, hstart.tail (.hit env.cache.get value (advance_pending ..)
      (congrArg Prod.fst ((lookup_envNow hget ..).trans hlook))), rfl, rfl, hset, rfl⟩
  · have hmiss := hstart.tail (.miss env.cache.get (advance_pending ..)
      (congrArg Prod.fst ((lookup_envNow hget ..).trans hlook)))
    rcases h with ⟨e, hcompute, rfl, rfl⟩ | ⟨value, hcompute, hkeep, rfl⟩
    · exact ⟨_, hmiss.tail (.fail env.query e (advance_pending ..) hcompute), rfl, rfl, hset, rfl⟩
    · let c : Computation D :=
        ⟨s.next, r.query, env.now, since, env.query, s.store, value, hsince, hcompute⟩
      have hcomputed := hmiss.tail (.compute c (advance_pending ..) rfl rfl rfl rfl)
      have htick := hcomputed.tail (.tick env.cache.setTime hset)
      exact ⟨_, htick.tail (.keep env.cache.set store (advance_pending ..)
        ((keep_envNow rfl ..).trans hkeep)), rfl, rfl, le_rfl, rfl⟩

end CacheRun

end Lumina
