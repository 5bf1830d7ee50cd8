import Lumina.Model.Api

/-!
# The cache

Five endpoints keep their answers in Redis for a while.  Whatever goes wrong there, the value is
computed from the database instead.

## Main definitions

* `Cache`, `Serde` : the connection, and the JSON texts of a type.
* `tryGet`, `trySet`, `getOrCompute` : `cache.rs`.
* `CachedEndpoint`, `CachedQuery` : the endpoints, and what one request computes.
* `tvl`, `pools`, `poolsTrending`, `tokens`, `tokensTrending` : the handlers.
-/

namespace Lumina

/-- The connection to Redis, if there is one, and how long an entry is kept. -/
structure Cache where
  conn : Bool
  ttlSecs : ℕ

/-- The JSON texts of a type. -/
structure Serde (T : Type) where
  /-- `serde_json::to_string`. -/
  toText : T → Option String
  /-- `serde_json::from_str`. -/
  fromText : String → Option T

/-- A duration in seconds. -/
def seconds (n : ℕ) : Time := n * 1000000

/-- `GET key`: an entry is there until it expires. -/
def redisGet (key : String) (now : Time) (s : Store) : Option String :=
  (s.redis key).bind fun e => if now < e.expiresAt then some e.raw else none

/-- `SET key raw EX ttl`, which Redis refuses without a time to live. -/
def redisSetEx (key raw : String) (ttlSecs : ℕ) (now : Time) (s : Store) : Store :=
  if ttlSecs = 0 then s
  else
    { s with
      redis := fun k => if k = key then some ⟨raw, now, now + seconds ttlSecs⟩ else s.redis k }

theorem redis_redisSetEx_of_ne {key raw k : String} {ttlSecs : ℕ} {now : Time} {s : Store}
    (h : k ≠ key) : (redisSetEx key raw ttlSecs now s).redis k = s.redis k := by
  unfold redisSetEx
  split_ifs
  · rfl
  · exact if_neg h

theorem redis_redisSetEx_self {key raw : String} {ttlSecs : ℕ} {now : Time} {s : Store} :
    (redisSetEx key raw ttlSecs now s).redis key = s.redis key ∨
      (redisSetEx key raw ttlSecs now s).redis key = some ⟨raw, now, now + seconds ttlSecs⟩ := by
  unfold redisSetEx
  split_ifs
  · exact .inl rfl
  · exact .inr (if_pos rfl)

/-- The two calls to Redis of a request.  A call that fails after Redis has carried it out counts
as carried out; the program looks at no error. -/
structure CacheEnv where
  getTime : Time
  get : Fault
  setTime : Time
  set : Fault

section Calls

variable {T : Type} (cache : Cache) (env : CacheEnv) (serde : Serde T) (key : String)

/-- The value of an entry; an error and a text that cannot be read count as no entry. -/
def tryGet : Proc Store Error (Option T) := do
  match ← (Store.fetch env.get (redisGet key env.getTime)).attempt with
  | .error _ => return none
  | .ok raw => return raw.bind serde.fromText

/-- Writes an entry, if it can. -/
def trySet (value : T) : Proc Store Error Unit := do
  match serde.toText value with
  | none => return ()
  | some raw =>
    let _ ← (Store.exec env.set fun s =>
      ((), redisSetEx key raw cache.ttlSecs env.setTime s)).attempt

/-- What the cache holds, where there is one. -/
def lookup : Proc Store Error (Option T) := if cache.conn then tryGet env serde key else pure none

/-- Keeps a computed value, where there is a cache. -/
def keep (value : T) : Proc Store Error Unit :=
  if cache.conn then trySet cache env serde key value else pure ()

/-- The cached value, or else the computed one. -/
def getOrCompute (compute : Proc Store Error T) : Proc Store Error T := do
  match ← lookup cache env serde key with
  | some value => return value
  | none =>
    let value ← compute
    keep cache env serde key value
    return value

variable {cache env serde key} {s : Store}

/-- A read of the cache changes nothing, and what it returns is an entry of the key that has not
expired. -/
theorem lookup_cases :
    lookup cache env serde key s = (.stop, s) ∨ lookup cache env serde key s = (.ret none, s) ∨
      ∃ e value, lookup cache env serde key s = (.ret (some value), s) ∧ s.redis key = some e ∧
        env.getTime < e.expiresAt ∧ serde.fromText e.raw = some value := by
  unfold lookup
  split_ifs
  · unfold tryGet Store.fetch
    cases env.get with
    | fail => exact .inr (.inl rfl)
    | stop => exact .inl rfl
    | ok =>
      simp only [Proc.bind_apply, Proc.attempt_apply, Proc.await_ok, Proc.pure_apply]
      cases hget : redisGet key env.getTime s with
      | none => exact .inr (.inl rfl)
      | some raw =>
        obtain ⟨e, he, hraw⟩ := Option.bind_eq_some_iff.1 hget
        split_ifs at hraw with hlt
        obtain rfl := Option.some.inj hraw
        cases hvalue : serde.fromText e.raw with
        | none => exact .inr (.inl (by rw [Option.bind_some, hvalue]))
        | some value =>
          exact .inr (.inr ⟨e, value, by rw [Option.bind_some, hvalue], he, hlt, hvalue⟩)
  · exact .inr (.inl rfl)

/-- A value is kept under its key or not at all. -/
theorem keep_cases (value : T) :
    keep cache env serde key value s = (.stop, s) ∨
    keep cache env serde key value s = (.ret (), s) ∨
      ∃ raw, keep cache env serde key value s =
          (.ret (), redisSetEx key raw cache.ttlSecs env.setTime s) ∧
        serde.toText value = some raw := by
  unfold keep
  split_ifs
  · unfold trySet Store.exec
    cases serde.toText value with
    | none => exact .inr (.inl rfl)
    | some raw =>
      cases env.set with
      | ok => exact .inr (.inr ⟨raw, rfl, rfl⟩)
      | fail => exact .inr (.inl rfl)
      | stop => exact .inl rfl
  · exact .inr (.inl rfl)

end Calls

/-! ### The endpoints -/

inductive CachedEndpoint where
  | tvl
  | pools
  | poolsTrending
  | tokens
  | tokensTrending
  deriving DecidableEq

/-- What an endpoint computes. -/
def CachedEndpoint.Payload : CachedEndpoint → Type
  | tvl => List TvlPoint
  | pools => List PoolWithLatest
  | poolsTrending => List PoolTrend
  | tokens => List TokenWithLatest
  | tokensTrending => List TokenTrend

/-- The body of an answer. -/
def CachedEndpoint.body : (e : CachedEndpoint) → e.Payload → Body
  | tvl => Body.tvl
  | pools => Body.pools
  | poolsTrending => Body.poolTrends
  | tokens => Body.tokens
  | tokensTrending => Body.tokenTrends

/-- An endpoint with the parameters of a request, after defaults and bounds. -/
inductive CachedQuery where
  | tvl (hours : ℤ)
  | pools (limit offset : ℤ)
  | poolsTrending (hours : ℤ)
  | tokens (limit offset : ℤ)
  | tokensTrending (hours : ℤ)
  deriving DecidableEq

namespace CachedQuery

def endpoint : CachedQuery → CachedEndpoint
  | tvl _ => .tvl
  | pools _ _ => .pools
  | poolsTrending _ => .poolsTrending
  | tokens _ _ => .tokens
  | tokensTrending _ => .tokensTrending

/-- The key of the cache. -/
def key : CachedQuery → String
  | tvl hours => "tvl:" ++ toString hours
  | pools limit offset => "pools:" ++ toString limit ++ ":" ++ toString offset
  | poolsTrending hours => "pools_trending:" ++ toString hours
  | tokens limit offset => "tokens:" ++ toString limit ++ ":" ++ toString offset
  | tokensTrending hours => "tokens_trending:" ++ toString hours

/-- The start of the window, read off the clock before anything else; `none` where that panics.
A page has no window. -/
def since (now : Time) : CachedQuery → Option Time
  | tvl hours => hoursBefore now hours
  | poolsTrending hours => hoursBefore now hours
  | tokensTrending hours => hoursBefore now hours
  | pools _ _ => some now
  | tokens _ _ => some now

end CachedQuery

/-- The environment of one computation: what happens at its query, and the choices of the
database. -/
structure QueryEnv where
  query : Fault
  tiePrice : ℕ → ℕ
  visitPools : Sql.Visit PoolWithLatest
  tiePools : String → ℕ
  visitTokens : Sql.Visit TokenWithLatest
  tieTokens : TokenRow → ℕ
  poolTrends : TrendEnv PoolTrendRaw String
  tokenTrends : TrendEnv TokenTrendRaw (String × String)

/-- What a request computes where nothing is cached. -/
def CachedQuery.compute (D : RustDecimal) (env : QueryEnv) (since : Time) :
    (q : CachedQuery) → Proc Store Error q.endpoint.Payload
  | .tvl _ => Store.fetch env.query fun s => tvlSeries env.tiePrice since s.db
  | .pools limit offset =>
    Store.fetch env.query fun s =>
      listPoolsWithLatest env.visitPools env.tiePools limit offset s.db
  | .poolsTrending _ => do
    let raw ← Store.fetch env.query fun s => poolTrends env.poolTrends since s.db
    Proc.lift (.orPanic (poolTrendsSorted D raw))
  | .tokens limit offset =>
    Store.fetch env.query fun s =>
      listTokensWithLatest env.visitTokens env.tieTokens limit offset s.db
  | .tokensTrending _ => do
    let raw ← Store.fetch env.query fun s => tokenTrends env.tokenTrends since s.db
    Proc.lift (.orPanic (tokenTrendsSorted D raw))

/-- A computation changes nothing. -/
theorem CachedQuery.compute_snd {D : RustDecimal} {env : QueryEnv} {since : Time} (q : CachedQuery)
    (s : Store) : (q.compute D env since s).2 = s := by
  cases q <;> cases h : env.query <;>
    simp [CachedQuery.compute, Store.fetch, h, Proc.bind_apply]

/-! ### The handlers -/

/-- The environment of a handler. -/
structure CachedEnv where
  now : Time
  cache : CacheEnv
  query : QueryEnv

/-- A handler that answers from the cache or computes. -/
def cachedHandler (D : RustDecimal) (cache : Cache) (serde : (e : CachedEndpoint) → Serde e.Payload)
    (env : CachedEnv) (q : CachedQuery) : Proc Store Error Response := do
  let since ← Proc.lift (.orPanic (q.since env.now))
  answer (getOrCompute cache env.cache (serde q.endpoint) q.key (q.compute D env.query since))
    fun value => .json (q.endpoint.body value)

section Handlers

variable (D : RustDecimal) (cache : Cache) (serde : (e : CachedEndpoint) → Serde e.Payload)
  (env : CachedEnv)

/-- `/tvl`. -/
def tvl (q : RangeQuery) : Proc Store Error Response :=
  cachedHandler D cache serde env (.tvl q.hoursOr)

/-- `/pools`. -/
def pools (q : PageQuery) : Proc Store Error Response :=
  cachedHandler D cache serde env (.pools q.pageLimit q.pageOffset)

/-- `/pools/trending`. -/
def poolsTrending (q : RangeQuery) : Proc Store Error Response :=
  cachedHandler D cache serde env (.poolsTrending q.hoursOr)

/-- `/tokens`. -/
def tokens (q : PageQuery) : Proc Store Error Response :=
  cachedHandler D cache serde env (.tokens q.pageLimit q.pageOffset)

/-- `/tokens/trending`. -/
def tokensTrending (q : RangeQuery) : Proc Store Error Response :=
  cachedHandler D cache serde env (.tokensTrending q.hoursOr)

end Handlers

end Lumina
