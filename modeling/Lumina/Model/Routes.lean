import Lumina.Model.AlertConfig
import Lumina.Model.Cache
import Lumina.Model.Ingest
import Lumina.Model.Liquidations

/-!
# The routes

What a request is parsed to, the remaining handlers, and the router.  A request is routed by its
method and path and its parameters and body are read before the handler starts, so a handler sees
only requests that parse.  How a query string and a body are read is `serde`'s (`Extract`).

## Main definitions

* `ReadRequest`, `WriteRequest` : the requests that reach a handler.
* `Extract`, `parseRequest` : routing and extraction.
* `serve` : the answer to a request.
-/

namespace Lumina

/-! ### Acknowledgement -/

/-- `acknowledge_alert`: whether there is one; the time of an earlier acknowledgement stays. -/
def acknowledgeAlert (now : Time) (id : ℤ) (s : Store) : Bool × Store :=
  let alerts := s.db.alerts.map fun a =>
    if a.id = id then { a with acknowledgedAt := some (a.acknowledgedAt.getD now) } else a
  (s.db.alerts.any fun a => a.id = id, { s with db := { s.db with alerts := alerts } })

/-- `unacknowledge_alert`: whether there is one. -/
def unacknowledgeAlert (id : ℤ) (s : Store) : Bool × Store :=
  let alerts := s.db.alerts.map fun a => if a.id = id then { a with acknowledgedAt := none } else a
  (s.db.alerts.any fun a => a.id = id, { s with db := { s.db with alerts := alerts } })

/-- `acknowledge_alerts`: how many there are. -/
def acknowledgeAlerts (now : Time) (ids : List ℤ) (s : Store) : ℕ × Store :=
  let alerts := s.db.alerts.map fun a =>
    if (a.id : ℤ) ∈ ids then { a with acknowledgedAt := some (a.acknowledgedAt.getD now) } else a
  (s.db.alerts.countP fun a => (a.id : ℤ) ∈ ids, { s with db := { s.db with alerts := alerts } })

/-! ### Watchlist -/

/-- `list_watchlist_items`. -/
def listWatchlistItems (visit : Sql.Visit WatchlistItemRow) (s : Store) : List WatchlistItemRow :=
  Sql.orderByDesc visit (·.createdAt) s.watchlistItems

/-- `upsert_watchlist_item`: an item that is there gets the new label. -/
def upsertWatchlistItem (now : Time) (itemType itemKey label : String) (s : Store) :
    WatchlistItemRow × Store :=
  let s' := { s with watchlistSeq := s.watchlistSeq + 1 }
  match s.watchlistItems.find? fun w => w.itemType = itemType && w.itemKey = itemKey with
  | some w =>
    let items := s.watchlistItems.map fun w =>
      if w.itemType = itemType ∧ w.itemKey = itemKey then { w with label := label } else w
    ({ w with label := label }, { s' with watchlistItems := items })
  | none =>
    let row : WatchlistItemRow := ⟨s.watchlistSeq, itemType, itemKey, label, now⟩
    (row, { s' with watchlistItems := s.watchlistItems ++ [row] })

/-- `delete_watchlist_item`: whether there was one. -/
def deleteWatchlistItem (id : ℤ) (s : Store) : Bool × Store :=
  let items := s.watchlistItems.filter fun w => w.id ≠ id
  (s.watchlistItems.any fun w => w.id = id, { s with watchlistItems := items })

/-- The body of a request for a watchlist item. -/
structure NewWatchlistItem where
  itemType : String
  itemKey : String
  label : String
  deriving DecidableEq

/-! ### Requests -/

structure WhaleQuery where
  minAmount : Option F64
  limit : Option ℤ
  account : Option String
  deriving DecidableEq

structure SearchQuery where
  q : Option String
  limit : Option ℤ
  deriving DecidableEq

/-- A request that reads, with its parameters. -/
inductive ReadRequest where
  | health
  | metrics
  | tvl (q : RangeQuery)
  | search (q : SearchQuery)
  | pools (q : PageQuery)
  | poolHistory (poolId : String) (q : RangeQuery)
  | poolsTrending (q : RangeQuery)
  | tokens (q : PageQuery)
  | tokensTrending (q : RangeQuery)
  | tokenHistory (assetCode assetIssuer : String) (q : RangeQuery)
  | whaleTransactions (q : WhaleQuery)
  | liquidations
  | alerts (q : AlertsQuery)
  | listAlertChannels
  | listAlertRules
  | listWatchlist
  | eventsStream

/-- A request that writes, with its path and its body. -/
inductive WriteRequest where
  | acknowledgeAlert (id : ℤ)
  | unacknowledgeAlert (id : ℤ)
  | acknowledgeAlertsBulk (ids : List ℤ)
  | createAlertChannel (body : NewAlertChannel)
  | deleteAlertChannel (id : ℤ)
  | createAlertRule (body : NewAlertRule)
  | updateAlertRule (id : ℤ) (body : UpdateAlertRule)
  | deleteAlertRule (id : ℤ)
  | createWatchlistItem (body : NewWatchlistItem)
  | deleteWatchlistItem (id : ℤ)

/-- What does not change while the server runs. -/
structure ApiServer where
  state : AppState
  cache : Cache
  serde : (e : CachedEndpoint) → Serde e.Payload
  decimal : RustDecimal

/-- The environment of one request.  `call` is what happens at its query or statement, where it
has one. -/
structure RequestEnv where
  now : Time
  call : Fault
  cached : CachedEnv
  liquidations : LiquidationsEnv
  search : SearchEnv
  visitPoolSnapshots : Sql.Visit PoolSnapshotRow
  visitTokenSnapshots : Sql.Visit TokenSnapshotRow
  visitWhales : Sql.Visit WhaleTransactionUsd
  tieWhales : WhaleTransactionRow → ℕ
  visitAlerts : Sql.Visit AlertRow
  visitWatchlist : Sql.Visit WatchlistItemRow

/-! ### Handlers that read -/

/-- `clamp(1, max)` of an optional limit. -/
def clampLimit (default max : ℤ) (limit : Option ℤ) : ℤ := 1 ⊔ (limit.getD default ⊓ max)

/-- `/health`. -/
def health (env : RequestEnv) : Proc Store Error Response := do
  match ← (Store.fetch env.call fun _ => ()).attempt with
  | .ok () => return .json (.status "ok")
  | .error _ => return ⟨503, .status "error"⟩

/-- `/search`. -/
def searchHandler (env : RequestEnv) (q : SearchQuery) : Proc Store Error Response :=
  match searchLikePattern (q.q.getD "") with
  | none => pure (.json (.search []))
  | some pattern =>
    answer (Store.fetch env.call fun s =>
      search env.search pattern (clampLimit 8 25 q.limit) s.db) fun rows => .json (.search rows)

/-- `/pools/:pool_id/history`. -/
def poolHistoryHandler (env : RequestEnv) (poolId : String) (q : RangeQuery) :
    Proc Store Error Response := do
  let since ← Proc.lift (.orPanic (hoursBefore env.now q.hoursOr))
  answer (Store.fetch env.call fun s => poolHistory env.visitPoolSnapshots poolId since s.db)
    fun rows => .json (.poolHistory rows)

/-- `/tokens/:asset_code/:asset_issuer/history`. -/
def tokenHistoryHandler (env : RequestEnv) (assetCode assetIssuer : String) (q : RangeQuery) :
    Proc Store Error Response := do
  let since ← Proc.lift (.orPanic (hoursBefore env.now q.hoursOr))
  answer (Store.fetch env.call fun s =>
    tokenHistory env.visitTokenSnapshots assetCode assetIssuer since s.db)
    fun rows => .json (.tokenHistory rows)

/-- `/transactions/whales`. -/
def whaleTransactionsHandler (D : RustDecimal) (env : RequestEnv) (q : WhaleQuery) :
    Proc Store Error Response :=
  let minAmount := (D.tryFromF64 (q.minAmount.getD (.finite 10000))).getD 0
  answer (Store.fetch env.call fun s =>
    listWhaleTransactions env.visitWhales env.tieWhales minAmount (clampLimit 100 1000 q.limit)
      q.account s.db) fun rows => .json (.whaleTransactions rows)

/-- `/alerts`. -/
def alertsHandler (env : RequestEnv) (q : AlertsQuery) : Proc Store Error Response :=
  answer (Store.fetch env.call fun s =>
    listAlerts env.visitAlerts (clampLimit 100 1000 q.limit) q s.db) fun rows =>
      .json (.alerts rows)

/-- The handlers that read. -/
def ReadRequest.handle (srv : ApiServer) (env : RequestEnv) :
    ReadRequest → Proc Store Error Response
  | health => Lumina.health env
  | metrics => pure (.json .metrics)
  | tvl q => Lumina.tvl srv.decimal srv.cache srv.serde env.cached q
  | search q => searchHandler env q
  | pools q => Lumina.pools srv.decimal srv.cache srv.serde env.cached q
  | poolHistory poolId q => poolHistoryHandler env poolId q
  | poolsTrending q => Lumina.poolsTrending srv.decimal srv.cache srv.serde env.cached q
  | tokens q => Lumina.tokens srv.decimal srv.cache srv.serde env.cached q
  | tokensTrending q => Lumina.tokensTrending srv.decimal srv.cache srv.serde env.cached q
  | tokenHistory code issuer q => tokenHistoryHandler env code issuer q
  | whaleTransactions q => whaleTransactionsHandler srv.decimal env q
  | liquidations => Lumina.liquidations env.liquidations
  | alerts q => alertsHandler env q
  | listAlertChannels =>
    answer (Store.fetch env.call Lumina.listAlertChannels) fun rows => .json (.alertChannels rows)
  | listAlertRules =>
    answer (Store.fetch env.call fun s => Lumina.listAlertRules s.db)
      fun rows => .json (.alertRules rows)
  | listWatchlist =>
    answer (Store.fetch env.call (listWatchlistItems env.visitWatchlist))
      fun rows => .json (.watchlistItems rows)
  | eventsStream => pure (.json .events)

/-! ### Handlers that write -/

section Write

variable (state : AppState) (env : RequestEnv) (headers : HeaderMap)

/-- `acknowledge_alert`, the handler. -/
def acknowledgeAlertHandler (id : ℤ) : Proc Store Error Response :=
  guarded state headers <| answer (Store.exec env.call (acknowledgeAlert env.now id)) foundOrNot

/-- `unacknowledge_alert`, the handler. -/
def unacknowledgeAlertHandler (id : ℤ) : Proc Store Error Response :=
  guarded state headers <| answer (Store.exec env.call (unacknowledgeAlert id)) foundOrNot

/-- `acknowledge_alerts_bulk`. -/
def acknowledgeAlertsBulk (ids : List ℤ) : Proc Store Error Response :=
  guarded state headers <|
    if 1000 < ids.length then pure (badRequest "at most 1000 ids per request")
    else if ids = [] then pure (.json (.acknowledged 0))
    else
      answer (Store.exec env.call (acknowledgeAlerts env.now ids))
        fun count => .json (.acknowledged count)

/-- `create_watchlist_item`. -/
def createWatchlistItem (body : NewWatchlistItem) : Proc Store Error Response :=
  guarded state headers <|
    if body.itemType ∉ ["pool", "token", "lending_position"] then
      pure (badRequest "item_type must be one of: pool, token, lending_position")
    else if trim body.itemKey.toList = [] then pure (badRequest "item_key must not be empty")
    else if trim body.label.toList = [] then pure (badRequest "label must not be empty")
    else
      answer (Store.exec env.call
        (upsertWatchlistItem env.now body.itemType body.itemKey body.label))
        fun row => .created (.watchlistItem row)

/-- `delete_watchlist_item`, the handler. -/
def deleteWatchlistItemHandler (id : ℤ) : Proc Store Error Response :=
  guarded state headers <| answer (Store.exec env.call (deleteWatchlistItem id)) foundOrNot

/-- The handlers that write. -/
def WriteRequest.handle : WriteRequest → Proc Store Error Response
  | acknowledgeAlert id => acknowledgeAlertHandler state env headers id
  | unacknowledgeAlert id => unacknowledgeAlertHandler state env headers id
  | acknowledgeAlertsBulk ids => Lumina.acknowledgeAlertsBulk state env headers ids
  | createAlertChannel body => Lumina.createAlertChannel state env.call headers body
  | deleteAlertChannel id => removeAlertChannel state env.call headers id
  | createAlertRule body => Lumina.createAlertRule state env.call headers body
  | updateAlertRule id body => editAlertRule state env.call headers id body
  | deleteAlertRule id => removeAlertRule state env.call headers id
  | createWatchlistItem body => Lumina.createWatchlistItem state env headers body
  | deleteWatchlistItem id => deleteWatchlistItemHandler state env headers id

end Write

/-! ### Routing -/

inductive Method where
  | get
  | head
  | post
  | patch
  | delete
  | options
  | other
  deriving DecidableEq

/-- A request over HTTP.  The path is split at its slashes and decoded. -/
structure Request where
  method : Method
  path : List String
  query : String
  headers : HeaderMap
  body : List UInt8

/-- Why an extractor refuses a request. -/
inductive Rejection where
  | badRequest
  | payloadTooLarge
  | unsupportedMediaType
  | unprocessable

/-- The status of the answer of `axum`; its text is not modelled. -/
def Rejection.response : Rejection → Response
  | badRequest => ⟨400, .empty⟩
  | payloadTooLarge => ⟨413, .empty⟩
  | unsupportedMediaType => ⟨415, .empty⟩
  | unprocessable => ⟨422, .empty⟩

/-- How `serde` reads the parameters and the bodies; a field that may be left out is an option. -/
structure Extract where
  range : Request → Except Rejection RangeQuery
  page : Request → Except Rejection PageQuery
  search : Request → Except Rejection SearchQuery
  whales : Request → Except Rejection WhaleQuery
  /-- The fields of `AlertsQuery`, of which `unacknowledged` may be left out. -/
  alerts : Request → Except Rejection (AlertsQuery × Option Bool)
  ackBulk : Request → Except Rejection (List ℤ)
  /-- `name`, `kind`, `url`, `min_severity` and `enabled`. -/
  newAlertChannel :
    Request → Except Rejection (String × String × String × Option String × Option Bool)
  /-- The fields of `NewAlertRule`, of which `enabled` may be left out. -/
  newAlertRule : Request → Except Rejection (NewAlertRule × Option Bool)
  updateAlertRule : Request → Except Rejection UpdateAlertRule
  newWatchlistItem : Request → Except Rejection NewWatchlistItem

/-- `str::parse::<i64>`. -/
def parseI64 (s : String) : Option ℤ :=
  let value : Option ℤ :=
    match s.toList with
    | '-' :: rest => (parseDigits rest).map fun n => -(n : ℤ)
    | '+' :: rest => (parseDigits rest).map fun n => (n : ℤ)
    | rest => (parseDigits rest).map fun n => (n : ℤ)
  value.filter fun n => -2 ^ 63 ≤ n && n < 2 ^ 63

/-- What a request is parsed to. -/
inductive Parsed where
  | read (r : ReadRequest)
  | write (w : WriteRequest)
  /-- No handler is reached. -/
  | answered (resp : Response)

def methodNotAllowed : Response := ⟨405, .empty⟩

/-- An extracted value, or the answer of the extractor. -/
def Parsed.ofExtract {α : Type} (x : Except Rejection α) (f : α → Parsed) : Parsed :=
  match x with
  | .ok a => f a
  | .error rejection => .answered rejection.response

/-- `Path<i64>`. -/
def Parsed.ofId (segment : String) (f : ℤ → Parsed) : Parsed :=
  match parseI64 segment with
  | some id => f id
  | none => .answered Rejection.badRequest.response

/-- `router`: the handler of a method and a path, with what the extractors read. -/
def parseRequest (X : Extract) (req : Request) : Parsed :=
  -- the CORS layer answers by itself, and no route has an empty segment
  if req.method = .options then .answered ⟨200, .empty⟩
  else if "" ∈ req.path then .answered .notFound
  else
    match req.path with
    | ["health"] => onGet (.read .health)
    | ["metrics"] => onGet (.read .metrics)
    | ["tvl"] => onGet (.ofExtract (X.range req) (.read <| .tvl ·))
    | ["search"] => onGet (.ofExtract (X.search req) (.read <| .search ·))
    | ["pools"] => onGet (.ofExtract (X.page req) (.read <| .pools ·))
    | ["pools", poolId, "history"] =>
      onGet (.ofExtract (X.range req) (.read <| .poolHistory poolId ·))
    | ["pools", "trending"] => onGet (.ofExtract (X.range req) (.read <| .poolsTrending ·))
    | ["tokens"] => onGet (.ofExtract (X.page req) (.read <| .tokens ·))
    | ["tokens", "trending"] => onGet (.ofExtract (X.range req) (.read <| .tokensTrending ·))
    | ["tokens", code, issuer, "history"] =>
      onGet (.ofExtract (X.range req) (.read <| .tokenHistory code issuer ·))
    | ["transactions", "whales"] =>
      onGet (.ofExtract (X.whales req) (.read <| .whaleTransactions ·))
    | ["liquidations"] => onGet (.read .liquidations)
    | ["alerts"] =>
      onGet (.ofExtract (X.alerts req) fun q =>
        .read (.alerts { q.1 with unacknowledged := q.2.getD false }))
    | ["alerts", id, "ack"] =>
      match req.method with
      | .patch => .ofId id (.write <| .acknowledgeAlert ·)
      | .delete => .ofId id (.write <| .unacknowledgeAlert ·)
      | _ => .answered methodNotAllowed
    | ["alerts", "ack-bulk"] =>
      match req.method with
      | .patch => .ofExtract (X.ackBulk req) (.write <| .acknowledgeAlertsBulk ·)
      | _ => .answered methodNotAllowed
    | ["alert-channels"] =>
      match req.method with
      | .post => .ofExtract (X.newAlertChannel req) fun (name, kind, url, minSeverity, enabled) =>
        .write (.createAlertChannel (.ofFields name kind url minSeverity enabled))
      | _ => onGet (.read .listAlertChannels)
    | ["alert-channels", id] =>
      match req.method with
      | .delete => .ofId id (.write <| .deleteAlertChannel ·)
      | _ => .answered methodNotAllowed
    | ["alert-rules"] =>
      match req.method with
      | .post => .ofExtract (X.newAlertRule req) fun (b, enabled) =>
        .write (.createAlertRule
          (.ofFields b.name b.ruleType b.assetCode b.assetIssuer b.threshold enabled))
      | _ => onGet (.read .listAlertRules)
    | ["alert-rules", id] =>
      match req.method with
      | .patch => .ofId id fun id =>
        .ofExtract (X.updateAlertRule req) (.write <| .updateAlertRule id ·)
      | .delete => .ofId id (.write <| .deleteAlertRule ·)
      | _ => .answered methodNotAllowed
    | ["watchlist"] =>
      match req.method with
      | .post => .ofExtract (X.newWatchlistItem req) (.write <| .createWatchlistItem ·)
      | _ => onGet (.read .listWatchlist)
    | ["watchlist", id] =>
      match req.method with
      | .delete => .ofId id (.write <| .deleteWatchlistItem ·)
      | _ => .answered methodNotAllowed
    | ["events"] => onGet (.read .eventsStream)
    | _ => .answered .notFound
where
  /-- A route that takes `GET`, and with it `HEAD`. -/
  onGet (p : Parsed) : Parsed :=
    if req.method = .get ∨ req.method = .head then p else .answered methodNotAllowed

/-- The answer of the handler, or of what stands before it. -/
def handleRequest (srv : ApiServer) (X : Extract) (env : RequestEnv) (req : Request) :
    Proc Store Error Response :=
  match parseRequest X req with
  | .read r => r.handle srv env
  | .write w => w.handle srv.state env req.headers
  | .answered resp => pure resp

/-- The answer to a request; to `HEAD` it has no body. -/
def serve (srv : ApiServer) (X : Extract) (env : RequestEnv) (req : Request) :
    Proc Store Error Response := do
  let resp ← handleRequest srv X env req
  return if req.method = .head then { resp with body := .empty } else resp

end Lumina
