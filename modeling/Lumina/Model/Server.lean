import Lumina.Model.RateLimit
import Lumina.Model.Routes

/-!
# The layers around the handlers

A request that matches a route goes through two layers before its handler: `metrics::track`, which
counts the answers, and inside it `ratelimit::enforce`, which refuses a client that has used up its
tokens.  What matches no route, and what the CORS layer answers, goes through neither.

## Main definitions

* `Metrics` : the counters by route, `Metrics.record`, `Metrics.render`.
* `matchedPath` : the route of a path.
* `ApiProcess.respond` : a request on its way through the layers.
-/

namespace Lumina

/-! ### Counters -/

/-- The addition of `u64`, which wraps around in a release build. -/
def addU64 (a b : ℕ) : ℕ := (a + b) % 2 ^ 64

structure RouteStats where
  count2xx : ℕ
  count4xx : ℕ
  count5xx : ℕ
  countOther : ℕ
  totalLatencyMs : ℕ
  deriving DecidableEq

/-- `RouteStats::default`. -/
def RouteStats.default : RouteStats := ⟨0, 0, 0, 0, 0⟩

/-- One answer is counted. -/
def RouteStats.add (status latencyMs : ℕ) (stats : RouteStats) : RouteStats :=
  let counted :=
    if 200 ≤ status ∧ status ≤ 299 then { stats with count2xx := addU64 stats.count2xx 1 }
    else if 400 ≤ status ∧ status ≤ 499 then { stats with count4xx := addU64 stats.count4xx 1 }
    else if 500 ≤ status ∧ status ≤ 599 then { stats with count5xx := addU64 stats.count5xx 1 }
    else { stats with countOther := addU64 stats.countOther 1 }
  { counted with totalLatencyMs := addU64 stats.totalLatencyMs latencyMs }

/-- The counters of the routes that have any, as a `HashMap` has them. -/
structure Metrics where
  routes : List String
  stats : String → RouteStats

namespace Metrics

def new : Metrics := ⟨[], fun _ => .default⟩

/-- `record`. -/
def record (route : String) (status latencyMs : ℕ) (m : Metrics) : Metrics where
  routes := if route ∈ m.routes then m.routes else m.routes ++ [route]
  stats := Function.update m.stats route ((m.stats route).add status latencyMs)

/-- The counts of a route with their classes, in the order in which they are written. -/
def classes (stats : RouteStats) : List (String × ℕ) :=
  [("2xx", stats.count2xx), ("4xx", stats.count4xx), ("5xx", stats.count5xx),
    ("other", stats.countOther)]

def requestsHelp : String :=
  "# HELP lumina_http_requests_total Total HTTP requests by route and status class."

def requestsType : String := "# TYPE lumina_http_requests_total counter"

def durationHelp : String :=
  "# HELP lumina_http_request_duration_ms_total " ++
    "Cumulative request handling time in milliseconds, by route."

def durationType : String := "# TYPE lumina_http_request_duration_ms_total counter"

/-- A line without its end. -/
def requestsLine (route cls : String) (count : ℕ) : List Char :=
  "lumina_http_requests_total\x7broute=\"".toList ++ route.toList ++
    ("\",status=\"".toList ++ cls.toList ++ ("\"\x7d ".toList ++ (toString count).toList))

/-- A line without its end. -/
def durationLine (route : String) (total : ℕ) : List Char :=
  "lumina_http_request_duration_ms_total\x7broute=\"".toList ++ route.toList ++
    ("\"\x7d ".toList ++ (toString total).toList)

/-- The lines of `render`, which visits the routes in the order of the map. -/
def lines (m : Metrics) (visit : List String) : List (List Char) :=
  [requestsHelp.toList, requestsType.toList] ++
  (visit.flatMap fun route => ((classes (m.stats route)).filter fun c => 0 < c.2).map fun c =>
    requestsLine route c.1 c.2) ++
  ([durationHelp.toList, durationType.toList] ++
  visit.map fun route => durationLine route (m.stats route).totalLatencyMs)

/-- `render`. -/
def render (m : Metrics) (visit : List String) : List Char :=
  (m.lines visit).flatMap (· ++ ['\n'])

end Metrics

/-! ### Routes -/

/-- The `MatchedPath` of a path. -/
def matchedPath : List String → Option String
  | ["health"] => some "/health"
  | ["metrics"] => some "/metrics"
  | ["tvl"] => some "/tvl"
  | ["search"] => some "/search"
  | ["pools"] => some "/pools"
  | ["pools", _, "history"] => some "/pools/:pool_id/history"
  | ["pools", "trending"] => some "/pools/trending"
  | ["tokens"] => some "/tokens"
  | ["tokens", "trending"] => some "/tokens/trending"
  | ["tokens", _, _, "history"] => some "/tokens/:asset_code/:asset_issuer/history"
  | ["transactions", "whales"] => some "/transactions/whales"
  | ["liquidations"] => some "/liquidations"
  | ["alerts"] => some "/alerts"
  | ["alerts", _, "ack"] => some "/alerts/:id/ack"
  | ["alerts", "ack-bulk"] => some "/alerts/ack-bulk"
  | ["alert-channels"] => some "/alert-channels"
  | ["alert-channels", _] => some "/alert-channels/:id"
  | ["alert-rules"] => some "/alert-rules"
  | ["alert-rules", _] => some "/alert-rules/:id"
  | ["watchlist"] => some "/watchlist"
  | ["watchlist", _] => some "/watchlist/:id"
  | ["events"] => some "/events"
  | _ => none

/-- The route whose layers a request goes through. -/
def Request.route (req : Request) : Option String :=
  -- the CORS layer answers by itself, and no route has an empty segment
  if req.method = .options then none else if "" ∈ req.path then none else matchedPath req.path

/-! ### The layers -/

/-- The answer of `enforce` to a request too many. -/
def tooManyRequests : Response := ⟨429, .error "rate limit exceeded"⟩

/-- A request as it comes in: from a client, at some readings of the clock, and how long its
handling takes. -/
structure ServerCall where
  req : Request
  env : RequestEnv
  ip : IpAddr
  swept : ℚ
  now : ℚ
  latencyMs : ℕ

/-- What the limiter sees of a request. -/
def ServerCall.limited (call : ServerCall) : RateLimiter.Request IpAddr :=
  ⟨call.swept, ⟨call.ip, call.now⟩⟩

/-- The API with what its layers keep. -/
structure ApiProcess where
  store : Store
  buckets : Buckets IpAddr
  metrics : Metrics

namespace ApiProcess

def start (store : Store) : ApiProcess := ⟨store, [], .new⟩

variable (srv : ApiServer) (X : Extract) (limiter : RateLimiter) (s : ApiProcess)
  (call : ServerCall)

/-- `enforce` and the handler. -/
def enforced : Outcome Error Response × ApiProcess :=
  let (allowed, buckets) := limiter.enforce call.limited s.buckets
  if allowed then
    let (answer, store) := serve srv X call.env call.req s.store
    (answer, { s with store := store, buckets := buckets })
  else (.ret tooManyRequests, { s with buckets := buckets })

/-- `track`, which counts what is answered; nothing is after a panic. -/
def respond : Outcome Error Response × ApiProcess :=
  match call.req.route with
  | none =>
    let (answer, store) := serve srv X call.env call.req s.store
    (answer, { s with store := store })
  | some route =>
    let (answer, s') := s.enforced srv X limiter call
    match answer with
    | .ret resp =>
      (answer, { s' with metrics := s'.metrics.record route resp.status call.latencyMs })
    | _ => (answer, s')

def step (s : ApiProcess) (call : ServerCall) : ApiProcess := (s.respond srv X limiter call).2

end ApiProcess

end Lumina
