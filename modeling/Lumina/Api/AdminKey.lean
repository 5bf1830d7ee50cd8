import Lumina.Model.Routes
import Lumina.Trace.Basic

/-!
# Without the admin key nothing is written

Every handler that writes starts with `guard`, which compares the first `X-Admin-Key` header byte
by byte with the configured key.  Requests without the key therefore change no table, whatever
they are and in whatever order they come between the writes of the ingester; those that would
write are answered `401`, and a request with the key never is (`adminKey_guards`).

## Main definitions

* `ApiEvent` : a request, or a write of the ingester.
* `Request.HasKey`, `Request.OnlyKey` : a header of the request is the key, or the one header is.
* `SameTables` : the tables are unchanged.
-/

namespace Lumina

open Lumina.Trace

/-- A request, or a write of the ingester to the database. -/
inductive ApiEvent where
  | request (env : RequestEnv) (req : Request)
  | ingest (write : Db → Db)

def ApiEvent.isIngest : ApiEvent → Bool
  | request _ _ => false
  | ingest _ => true

/-- The store after an event. -/
def ApiEvent.step (srv : ApiServer) (X : Extract) (s : Store) : ApiEvent → Store
  | request env req => (serve srv X env req s).2
  | ingest write => { s with db := write s.db }

/-- Some `X-Admin-Key` header of the request is the key. -/
def Request.HasKey (key : String) (req : Request) : Prop :=
  ∃ h ∈ req.headers, toAsciiLowercase h.name = adminHeaderName ∧ h.value = asBytes key

/-- The only `X-Admin-Key` header of the request is the key, which is visible ASCII. -/
def Request.OnlyKey (key : String) (req : Request) : Prop :=
  ((req.headers.filter fun h => toAsciiLowercase h.name = adminHeaderName).map (·.value)) =
    [asBytes key] ∧ (asBytes key).all isVisibleAscii = true

/-- The event is not a request with the key. -/
def ApiEvent.WithoutKey (key : String) : ApiEvent → Prop
  | request _ req => ¬ req.HasKey key
  | ingest _ => True

/-- The tables of two stores are the same. -/
def SameTables (s s' : Store) : Prop := s'.db = s.db ∧ s'.watchlistItems = s.watchlistItems

instance : IsPreorder Store SameTables where
  refl _ := ⟨rfl, rfl⟩
  trans _ _ _ h h' := ⟨h'.1.trans h.1, h'.2.trans h.2⟩

variable {srv : ApiServer} {X : Extract} {state : AppState} {env : RequestEnv}
  {headers : HeaderMap} {req : Request} {key : String} {s : Store}

/-! ### The guard -/

/-- The fold is zero exactly if every pair of bytes is equal. -/
theorem foldl_xor_eq_zero_iff (l : List (UInt8 × UInt8)) (acc : UInt8) :
    l.foldl (fun acc xy => acc ||| (xy.1 ^^^ xy.2)) acc = 0 ↔
      acc = 0 ∧ ∀ xy ∈ l, xy.1 = xy.2 := by
  induction l generalizing acc with
  | nil => simp
  | cons xy l ih =>
    rw [List.foldl_cons, ih, UInt8.or_eq_zero_iff, UInt8.xor_eq_zero_iff]
    simp [and_assoc]

/-- **The comparison is equality.** -/
theorem constantTimeEq_iff {a b : List UInt8} : constantTimeEq a b = true ↔ a = b := by
  unfold constantTimeEq
  split_ifs with hlen
  · simp only [false_iff]
    rintro rfl
    exact hlen rfl
  · have hlen : a.length = b.length := not_not.1 hlen
    rw [decide_eq_true_eq, foldl_xor_eq_zero_iff]
    simp only [true_and]
    constructor
    · intro h
      refine List.ext_getElem hlen fun i hi hi' => ?_
      have hmem : (a[i], b[i]) ∈ a.zip b := by
        rw [List.mem_iff_getElem]
        exact ⟨i, by simp [hlen, hi'], by simp⟩
      exact h _ hmem
    · rintro rfl xy hxy
      obtain ⟨i, hi, rfl⟩ := List.getElem_of_mem hxy
      simp

/-- Without the key the guard answers. -/
theorem guard_of_not_hasKey (hk : state.adminApiKey = some key)
    (h : ∀ e ∈ headers, toAsciiLowercase e.name = adminHeaderName → e.value ≠ asBytes key) :
    guard state headers = some unauthorized := by
  unfold guard
  rw [hk]
  dsimp only
  rw [if_neg]
  intro hany
  obtain ⟨p, hp, heq⟩ := (Option.any_eq_true _ _).1 hany
  obtain ⟨value, hvalue, hstr⟩ := Option.bind_eq_some_iff.1 hp
  obtain ⟨e, he, rfl⟩ := Option.map_eq_some_iff.1 hvalue
  have hname := List.find?_some he
  have hmem := List.mem_of_find?_eq_some he
  unfold headerToStr at hstr
  split_ifs at hstr
  obtain rfl := Option.some.inj hstr
  exact h e hmem (of_decide_eq_true hname) (constantTimeEq_iff.1 heq)

/-- With the key the guard lets the request through. -/
theorem guard_of_onlyKey (hk : state.adminApiKey = some key) (h : req.OnlyKey key) :
    guard state req.headers = none := by
  obtain ⟨honly, hvisible⟩ := h
  have hget : HeaderMap.get req.headers adminHeaderName = some (asBytes key) := by
    rw [HeaderMap.get, ← List.head?_filter, ← List.head?_map, honly, List.head?_cons]
  unfold guard
  rw [hk]
  dsimp only
  rw [hget, Option.bind_some, headerToStr, if_pos hvisible, if_pos]
  exact (Option.any_eq_true _ _).2 ⟨_, rfl, constantTimeEq_iff.2 rfl⟩

/-! ### Handlers -/

section Within

variable {α : Type} {R : Store → Store → Prop} [IsPreorder Store R] {f : Fault}

theorem within_answer {m : Proc Store Error α} {ok : α → Response} (h : Proc.Within R m) :
    Proc.Within R (answer m ok) := by
  refine h.attempt.bind fun r => ?_
  cases r <;> exact Proc.within_pure _

theorem within_storeFetch {q : Store → α} : Proc.Within R (Store.fetch f q) :=
  Proc.within_await fun s => refl s

theorem within_storeExec {u : Store → α × Store} (h : ∀ s, R s (u s).2) :
    Proc.Within R (Store.exec f u) :=
  Proc.within_await h

theorem within_guarded {handler : Proc Store Error Response} (h : Proc.Within R handler) :
    Proc.Within R (guarded state headers handler) := by
  rcases guard_cases state headers with hg | hg
  · rwa [guarded_of_none hg]
  · rw [guarded_of_unauthorized hg]
    exact Proc.within_pure _

end Within

/-! ### Handlers that read -/

theorem within_compute (D : RustDecimal) (env : QueryEnv) (since : Time) (q : CachedQuery) :
    Proc.Within SameTables (q.compute D env since) := by
  cases q with
  | tvl hours => exact within_storeFetch
  | pools limit offset => exact within_storeFetch
  | poolsTrending hours => exact within_storeFetch.bind fun _ => Proc.within_lift _
  | tokens limit offset => exact within_storeFetch
  | tokensTrending hours => exact within_storeFetch.bind fun _ => Proc.within_lift _

/-- The cache is no table. -/
theorem within_getOrCompute {T : Type} {cache : Cache} {env : CacheEnv} {serde : Serde T}
    {compute : Proc Store Error T} (h : Proc.Within SameTables compute) :
    Proc.Within SameTables (getOrCompute cache env serde key compute) := by
  have hget : Proc.Within SameTables (lookup cache env serde key) := by
    unfold lookup
    split_ifs
    · refine within_storeFetch.attempt.bind fun r => ?_
      cases r <;> exact Proc.within_pure _
    · exact Proc.within_pure _
  have hset : ∀ value, Proc.Within SameTables (keep cache env serde key value) := by
    intro value
    unfold keep
    split_ifs
    · unfold trySet
      cases serde.toText value with
      | none => exact Proc.within_pure _
      | some raw =>
        refine (Proc.Within.attempt (Proc.within_await fun s => ?_)).bind fun _ =>
          Proc.within_pure _
        unfold redisSetEx
        dsimp only
        split_ifs
        · exact refl s
        · exact ⟨rfl, rfl⟩
    · exact Proc.within_pure _
  refine hget.bind fun cached => ?_
  cases cached with
  | some value => exact Proc.within_pure _
  | none => exact h.bind fun value => (hset value).bind fun _ => Proc.within_pure _

theorem within_cachedHandler {D : RustDecimal} {cache : Cache}
    {serde : (e : CachedEndpoint) → Serde e.Payload} {env : CachedEnv} {q : CachedQuery} :
    Proc.Within SameTables (cachedHandler D cache serde env q) :=
  (Proc.within_lift _).bind fun _ => within_answer (within_getOrCompute (within_compute _ _ _ _))

theorem within_liquidations (env : LiquidationsEnv) :
    Proc.Within SameTables (liquidations env) := by
  refine within_storeFetch.attempt.bind fun rules => ?_
  cases rules with
  | error e => exact Proc.within_pure _
  | ok rules =>
    refine within_storeFetch.attempt.bind fun summary => ?_
    cases summary with
    | error e => exact Proc.within_pure _
    | ok summary =>
      refine within_storeFetch.attempt.bind fun positions => ?_
      cases positions <;> exact Proc.within_pure _

/-- **A request that reads changes no table.** -/
theorem within_read (srv : ApiServer) (env : RequestEnv) (r : ReadRequest) :
    Proc.Within SameTables (r.handle srv env) := by
  cases r with
  | health =>
    refine within_storeFetch.attempt.bind fun r => ?_
    cases r <;> exact Proc.within_pure _
  | metrics => exact Proc.within_pure _
  | tvl q => exact within_cachedHandler
  | search q =>
    simp only [ReadRequest.handle, searchHandler]
    split
    · exact Proc.within_pure _
    · exact within_answer within_storeFetch
  | pools q => exact within_cachedHandler
  | poolHistory poolId q =>
    exact (Proc.within_lift _).bind fun _ => within_answer within_storeFetch
  | poolsTrending q => exact within_cachedHandler
  | tokens q => exact within_cachedHandler
  | tokensTrending q => exact within_cachedHandler
  | tokenHistory code issuer q =>
    exact (Proc.within_lift _).bind fun _ => within_answer within_storeFetch
  | whaleTransactions q => exact within_answer within_storeFetch
  | liquidations => exact within_liquidations _
  | alerts q => exact within_answer within_storeFetch
  | listAlertChannels => exact within_answer within_storeFetch
  | listAlertRules => exact within_answer within_storeFetch
  | listWatchlist => exact within_answer within_storeFetch
  | eventsStream => exact Proc.within_pure _

/-! ### Statuses -/

/-- No answer of the handler is that of the guard. -/
def NeverUnauthorized (m : Proc Store Error Response) : Prop :=
  ∀ s resp, (m s).1 = .ret resp → resp.status ≠ 401

theorem neverUnauthorized_pure {resp : Response} (h : resp.status ≠ 401) :
    NeverUnauthorized (pure resp) := by
  intro s resp' hret
  obtain rfl := Outcome.ret.inj hret
  exact h

theorem neverUnauthorized_bind {α : Type} {m : Proc Store Error α}
    {f : α → Proc Store Error Response} (h : ∀ a, NeverUnauthorized (f a)) :
    NeverUnauthorized (m >>= f) := by
  intro s resp hret
  obtain ⟨a, -, ha⟩ := Proc.bind_fst_eq_ret.1 hret
  exact h a _ resp ha

theorem neverUnauthorized_answer {α : Type} {m : Proc Store Error α} {ok : α → Response}
    (h : ∀ a, (ok a).status ≠ 401) : NeverUnauthorized (answer m ok) := by
  refine neverUnauthorized_bind fun r => ?_
  cases r with
  | ok a => exact neverUnauthorized_pure (h a)
  | error e => exact neverUnauthorized_pure (show 500 ≠ 401 by decide)

theorem neverUnauthorized_read (srv : ApiServer) (env : RequestEnv) (r : ReadRequest) :
    NeverUnauthorized (r.handle srv env) := by
  have hok : (200 : ℕ) ≠ 401 := by decide
  have hcached : ∀ q, NeverUnauthorized
      (cachedHandler srv.decimal srv.cache srv.serde env.cached q) := fun q =>
    neverUnauthorized_bind fun _ => neverUnauthorized_answer fun _ => hok
  cases r with
  | health =>
    refine neverUnauthorized_bind fun r => ?_
    cases r with
    | ok u => exact neverUnauthorized_pure hok
    | error e => exact neverUnauthorized_pure (show 503 ≠ 401 by decide)
  | metrics => exact neverUnauthorized_pure hok
  | tvl q => exact hcached _
  | search q =>
    simp only [ReadRequest.handle, searchHandler]
    split
    · exact neverUnauthorized_pure hok
    · exact neverUnauthorized_answer fun _ => hok
  | pools q => exact hcached _
  | poolHistory poolId q =>
    exact neverUnauthorized_bind fun _ => neverUnauthorized_answer fun _ => hok
  | poolsTrending q => exact hcached _
  | tokens q => exact hcached _
  | tokensTrending q => exact hcached _
  | tokenHistory code issuer q =>
    exact neverUnauthorized_bind fun _ => neverUnauthorized_answer fun _ => hok
  | whaleTransactions q => exact neverUnauthorized_answer fun _ => hok
  | liquidations =>
    have herr : (500 : ℕ) ≠ 401 := by decide
    refine neverUnauthorized_bind fun rules => ?_
    cases rules with
    | error e => exact neverUnauthorized_pure herr
    | ok rules =>
      refine neverUnauthorized_bind fun summary => ?_
      cases summary with
      | error e => exact neverUnauthorized_pure herr
      | ok summary =>
        refine neverUnauthorized_bind fun positions => ?_
        cases positions with
        | error e => exact neverUnauthorized_pure herr
        | ok positions => exact neverUnauthorized_pure hok
  | alerts q => exact neverUnauthorized_answer fun _ => hok
  | listAlertChannels => exact neverUnauthorized_answer fun _ => hok
  | listAlertRules => exact neverUnauthorized_answer fun _ => hok
  | listWatchlist => exact neverUnauthorized_answer fun _ => hok
  | eventsStream => exact neverUnauthorized_pure hok

theorem foundOrNot_status (found : Bool) : (foundOrNot found).status ≠ 401 := by
  cases found <;> decide

/-- **Every handler that writes is behind the guard**, and by itself answers nothing like it. -/
theorem WriteRequest.handle_guarded (state : AppState) (env : RequestEnv) (headers : HeaderMap)
    (w : WriteRequest) : ∃ handler, w.handle state env headers = guarded state headers handler ∧
      NeverUnauthorized handler := by
  have hbad : ∀ message, NeverUnauthorized (pure (badRequest message)) := fun message =>
    neverUnauthorized_pure (show 400 ≠ 401 by decide)
  have hfound : ∀ {m : Proc Store Error Bool}, NeverUnauthorized (answer m foundOrNot) :=
    neverUnauthorized_answer foundOrNot_status
  have hcreated : ∀ {α : Type} {m : Proc Store Error α} {body : α → Body},
      NeverUnauthorized (answer m fun a => .created (body a)) :=
    neverUnauthorized_answer fun _ => show 201 ≠ 401 by decide
  cases w with
  | acknowledgeAlert id => exact ⟨_, rfl, hfound⟩
  | unacknowledgeAlert id => exact ⟨_, rfl, hfound⟩
  | acknowledgeAlertsBulk ids =>
    refine ⟨_, rfl, ?_⟩
    split_ifs
    · exact hbad _
    · exact neverUnauthorized_pure (show 200 ≠ 401 by decide)
    · exact neverUnauthorized_answer fun _ => show 200 ≠ 401 by decide
  | createAlertChannel body =>
    refine ⟨_, rfl, ?_⟩
    split_ifs <;> first | exact hbad _ | exact hcreated
  | deleteAlertChannel id => exact ⟨_, rfl, hfound⟩
  | createAlertRule body =>
    refine ⟨_, rfl, ?_⟩
    split
    · exact hbad _
    · exact hcreated
  | updateAlertRule id body =>
    refine ⟨_, rfl, ?_⟩
    split_ifs
    · exact hbad _
    · refine neverUnauthorized_answer fun row => ?_
      cases row with
      | none => exact show 404 ≠ 401 by decide
      | some row => exact show 200 ≠ 401 by decide
  | deleteAlertRule id => exact ⟨_, rfl, hfound⟩
  | createWatchlistItem body =>
    refine ⟨_, rfl, ?_⟩
    split_ifs <;> first | exact hbad _ | exact hcreated
  | deleteWatchlistItem id => exact ⟨_, rfl, hfound⟩

/-! ### Routing -/

/-- Routing and extraction answer nothing like the guard. -/
def Parsed.Quiet (p : Parsed) : Prop := ∀ resp, p = .answered resp → resp.status ≠ 401

theorem quiet_read (r : ReadRequest) : (Parsed.read r).Quiet := by simp [Parsed.Quiet]

theorem quiet_write (w : WriteRequest) : (Parsed.write w).Quiet := by simp [Parsed.Quiet]

theorem quiet_answered {resp : Response} (h : resp.status ≠ 401) :
    (Parsed.answered resp).Quiet := by
  rintro resp' heq
  obtain rfl := Parsed.answered.inj heq
  exact h

theorem quiet_ofExtract {α : Type} {x : Except Rejection α} {f : α → Parsed}
    (h : ∀ a, (f a).Quiet) : (Parsed.ofExtract x f).Quiet := by
  unfold Parsed.ofExtract
  cases x with
  | ok a => exact h a
  | error rejection => exact quiet_answered (by cases rejection <;> decide)

theorem quiet_ofId {segment : String} {f : ℤ → Parsed} (h : ∀ id, (f id).Quiet) :
    (Parsed.ofId segment f).Quiet := by
  unfold Parsed.ofId
  split
  · exact h _
  · exact quiet_answered (show 400 ≠ 401 by decide)

theorem quiet_onGet {p : Parsed} (h : p.Quiet) : (parseRequest.onGet req p).Quiet := by
  unfold parseRequest.onGet
  split_ifs
  · exact h
  · exact quiet_answered (show 405 ≠ 401 by decide)

theorem quiet_parseRequest (X : Extract) (req : Request) : (parseRequest X req).Quiet := by
  have hread : ∀ {α : Type} {x : Except Rejection α} {f : α → ReadRequest},
      (parseRequest.onGet req (Parsed.ofExtract x fun a => .read (f a))).Quiet :=
    quiet_onGet (quiet_ofExtract fun a => quiet_read _)
  have hmethod : (Parsed.answered methodNotAllowed).Quiet :=
    quiet_answered (show 405 ≠ 401 by decide)
  unfold parseRequest
  split_ifs
  · exact quiet_answered (show 200 ≠ 401 by decide)
  · exact quiet_answered (show 404 ≠ 401 by decide)
  · split
    all_goals try split
    all_goals first
      | exact quiet_onGet (quiet_read _)
      | exact hread
      | exact quiet_ofId fun id => quiet_write _
      | exact quiet_ofExtract fun a => quiet_write _
      | exact quiet_ofId fun id => quiet_ofExtract fun a => quiet_write _
      | exact hmethod
      | exact quiet_answered (show 404 ≠ 401 by decide)

/-! ### Requests -/

theorem serve_fst_eq_ret {resp : Response} :
    (serve srv X env req s).1 = .ret resp ↔ ∃ full,
      (handleRequest srv X env req s).1 = .ret full ∧
        resp = if req.method = .head then { full with body := .empty } else full := by
  rw [serve, Proc.bind_fst_eq_ret]
  simp only [Proc.pure_apply, Outcome.ret.injEq, eq_comm]

/-- **A request without the key changes no table.** -/
theorem within_serve (hk : srv.state.adminApiKey = some key) (h : ¬ req.HasKey key) :
    Proc.Within SameTables (serve srv X env req) := by
  have hhandle : Proc.Within SameTables (handleRequest srv X env req) := by
    unfold handleRequest
    cases parseRequest X req with
    | read r => exact within_read srv env r
    | write w =>
      obtain ⟨handler, heq, -⟩ := w.handle_guarded srv.state env req.headers
      have hguard : guard srv.state req.headers = some unauthorized :=
        guard_of_not_hasKey hk fun e he hname hvalue => h ⟨e, he, hname, hvalue⟩
      dsimp only
      rw [heq, guarded_of_unauthorized hguard]
      exact Proc.within_pure _
    | answered resp => exact Proc.within_pure _
  exact hhandle.bind fun _ => Proc.within_pure _

/-- A request that would write and has not the key is refused. -/
theorem serve_unauthorized (hk : srv.state.adminApiKey = some key) (h : ¬ req.HasKey key)
    {w : WriteRequest} (hw : parseRequest X req = .write w) :
    ∃ resp, (serve srv X env req s).1 = .ret resp ∧ resp.status = 401 := by
  obtain ⟨handler, heq, -⟩ := w.handle_guarded srv.state env req.headers
  have hguard : guard srv.state req.headers = some unauthorized :=
    guard_of_not_hasKey hk fun e he hname hvalue => h ⟨e, he, hname, hvalue⟩
  refine ⟨_, serve_fst_eq_ret.2 ⟨unauthorized, ?_, rfl⟩, ?_⟩
  · simp only [handleRequest, hw]
    rw [heq, guarded_of_unauthorized hguard, Proc.pure_apply]
  · split_ifs <;> rfl

/-- A request with the key is not refused. -/
theorem serve_authorized (hk : srv.state.adminApiKey = some key) (h : req.OnlyKey key)
    {resp : Response} (hresp : (serve srv X env req s).1 = .ret resp) : resp.status ≠ 401 := by
  obtain ⟨full, hfull, rfl⟩ := serve_fst_eq_ret.1 hresp
  have hstatus : full.status ≠ 401 := by
    unfold handleRequest at hfull
    cases hp : parseRequest X req with
    | read r =>
      simp only [hp] at hfull
      exact neverUnauthorized_read srv env r s full hfull
    | write w =>
      simp only [hp] at hfull
      obtain ⟨handler, heq, hnever⟩ := w.handle_guarded srv.state env req.headers
      rw [heq, guarded_of_none (guard_of_onlyKey hk h)] at hfull
      exact hnever s full hfull
    | answered resp =>
      simp only [hp] at hfull
      obtain rfl := Outcome.ret.inj hfull
      exact quiet_parseRequest X req _ hp
  split_ifs <;> exact hstatus

/-- **The admin key guards every write.**  Requests without it leave the tables as the ingester
alone would; those that would write are answered `401`, and a request with the key is not. -/
theorem adminKey_guards (hk : srv.state.adminApiKey = some key) :
    (∀ events : List ApiEvent, (∀ e ∈ events, e.WithoutKey key) → ∀ s,
      SameTables (run (ApiEvent.step srv X) s (events.filter ApiEvent.isIngest))
        (run (ApiEvent.step srv X) s events)) ∧
      (∀ env req s w, ¬ req.HasKey key → parseRequest X req = .write w →
        ∃ resp, (serve srv X env req s).1 = .ret resp ∧ resp.status = 401) ∧
      ∀ env req s resp, req.OnlyKey key → (serve srv X env req s).1 = .ret resp →
        resp.status ≠ 401 := by
  refine ⟨fun events hev s => ?_, fun env req s w h hw => serve_unauthorized hk h hw,
    fun env req s resp h hresp => serve_authorized hk h hresp⟩
  let tables : Store → Db × List WatchlistItemRow := fun s => (s.db, s.watchlistItems)
  have hview : tables (run (ApiEvent.step srv X) s events) =
      tables (run (ApiEvent.step srv X) s (events.filter ApiEvent.isIngest)) := by
    refine run_filter (fun s e he hp => ?_) (fun s s' e _ hp hs => ?_) rfl
    · cases e with
      | request env req =>
        obtain ⟨hdb, hitems⟩ := @within_serve srv X env req key hk (hev _ he) s
        exact Prod.ext hdb hitems
      | ingest write => exact absurd hp (by simp [ApiEvent.isIngest])
    · cases e with
      | request env req => exact absurd hp (by simp [ApiEvent.isIngest])
      | ingest write =>
        obtain ⟨hdb, hitems⟩ := Prod.ext_iff.1 hs
        exact Prod.ext (congrArg write hdb) hitems
  exact ⟨congrArg Prod.fst hview, congrArg Prod.snd hview⟩

end Lumina

/-! ### A watchlist item -/

namespace Lumina.Sample

open Lumina.Trace

def adminServer : ApiServer where
  state := ⟨some "s3cret"⟩
  cache := ⟨false, 30⟩
  serde := fun _ => ⟨fun _ => none, fun _ => none⟩
  decimal := .exact fun _ => none

/-- The JSON text of a watchlist item. -/
def itemJson : String :=
  "\x7b\"item_type\":\"pool\",\"item_key\":\"0a\",\"label\":\"XLM/USDC\"\x7d"

/-- Reads that one body, and no other. -/
def extractItem : Extract where
  range _ := .error .badRequest
  page _ := .error .badRequest
  search _ := .error .badRequest
  whales _ := .error .badRequest
  alerts _ := .error .badRequest
  ackBulk _ := .error .badRequest
  newAlertChannel _ := .error .badRequest
  newAlertRule _ := .error .badRequest
  updateAlertRule _ := .error .badRequest
  newWatchlistItem req :=
    if req.body = asBytes itemJson then .ok ⟨"pool", "0a", "XLM/USDC"⟩ else .error .badRequest

def requestEnv : RequestEnv where
  now := 7
  call := .ok
  cached := ⟨7, ⟨7, .ok, 7, .ok⟩, ⟨.ok, fun _ => 0, .stored, fun _ => 0, .stored, fun _ => 0,
    ⟨.stored, fun _ => 0, fun _ => 0⟩, ⟨.stored, fun _ => 0, fun _ => 0⟩⟩⟩
  liquidations := ⟨.ok, .ok, fun _ => 0, .ok, fun _ => 0, .stored⟩
  search := ⟨fun _ _ => false, fun _ _ => true, .stored⟩
  visitPoolSnapshots := .stored
  visitTokenSnapshots := .stored
  visitWhales := .stored
  tieWhales := fun _ => 0
  visitAlerts := .stored
  visitWatchlist := .stored

/-- A request for a watchlist item with the given key. -/
def itemRequest (key : String) : Request :=
  ⟨.post, ["watchlist"], "", [⟨"X-Admin-Key", asBytes key⟩], asBytes itemJson⟩

/-- A wrong key writes nothing and is refused, and the right one is let through. -/
theorem itemRequest_guarded :
    SameTables (run (ApiEvent.step adminServer extractItem) Store.empty [])
        (run (ApiEvent.step adminServer extractItem) Store.empty
          [.request requestEnv (itemRequest "s3cre")]) ∧
      (∃ resp, (serve adminServer extractItem requestEnv (itemRequest "s3cre") Store.empty).1 =
        .ret resp ∧ resp.status = 401) ∧
      (serve adminServer extractItem requestEnv (itemRequest "s3cret") Store.empty).1 =
        .ret ⟨201, .watchlistItem ⟨1, "pool", "0a", "XLM/USDC", 7⟩⟩ ∧
      (201 : ℕ) ≠ 401 := by
  have hkey : adminServer.state.adminApiKey = some "s3cret" := rfl
  have h := @adminKey_guards adminServer extractItem "s3cret" hkey
  have hwrong : ¬ (itemRequest "s3cre").HasKey "s3cret" := by
    rintro ⟨e, he, -, hvalue⟩
    obtain rfl := List.mem_singleton.1 he
    exact absurd hvalue (by decide +kernel)
  have hright : (itemRequest "s3cret").OnlyKey "s3cret" :=
    ⟨by decide +kernel, by decide +kernel⟩
  have hcreated : (serve adminServer extractItem requestEnv (itemRequest "s3cret")
      Store.empty).1 = .ret ⟨201, .watchlistItem ⟨1, "pool", "0a", "XLM/USDC", 7⟩⟩ := by
    decide +kernel
  have hparse : parseRequest extractItem (itemRequest "s3cre") =
      .write (.createWatchlistItem ⟨"pool", "0a", "XLM/USDC"⟩) := rfl
  refine ⟨h.1 [.request requestEnv (itemRequest "s3cre")] ?_ Store.empty,
    h.2.1 requestEnv _ _ _ hwrong hparse, hcreated, h.2.2 requestEnv _ _ _ hright hcreated⟩
  intro e he
  obtain rfl := List.mem_singleton.1 he
  exact hwrong

end Lumina.Sample
