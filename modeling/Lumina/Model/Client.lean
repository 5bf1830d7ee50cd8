import Lumina.Model.Routes
import Lumina.Text.Form

/-!
# The client of the API

The requests of the dashboard that have no body, the addresses that it writes for them, and how an
address reaches the router.  How a query is read is `serde`'s: each field of a query structure is
looked up by its name (`Extract.ReadsQueries`).

## Main definitions

* `ApiCall`, `ApiCall.address` : the calls of `api.ts`.
* `Request.ofAddress?` : what the server is asked when the browser fetches an address.
* `ApiCall.asks` : what a call is meant to ask for.
-/

namespace Lumina

open Percent

/-! ### Addresses -/

/-- The apostrophe. -/
def apostrophe : Char := Char.ofUInt8 39

/-- The characters that `encodeURIComponent` keeps. -/
def uriComponentKeeps (c : Char) : Bool :=
  c.isAlphanum || c ∈ ['-', '_', '.', '!', '~', '*', apostrophe, '(', ')']

def encodeURIComponent (s : String) : List Char := encode uriComponentKeeps (utf8 s)

/-- An address relative to the base of the API: the segments of its path, and its fields. -/
structure Address where
  path : List (List Char)
  query : List (List Char × List Char)

/-- The text of an address. -/
def Address.text (a : Address) : List Char :=
  (a.path.flatMap fun segment => '/' :: segment) ++
    if a.query = [] then [] else '?' :: Form.fields a.query

/-- What narrows a list of alerts. -/
structure AlertsOptions where
  kind : Option String
  poolId : Option String
  assetCode : Option String
  assetIssuer : Option String
  unacknowledged : Bool

/-- The calls of `api` without a body; the number `minAmount` is given by its text. -/
inductive ApiCall where
  | tvl (hours : ℤ)
  | pools (limit offset : ℤ)
  | poolHistory (poolId : String) (hours : ℤ)
  | poolsTrending (hours : ℤ)
  | tokens (limit offset : ℤ)
  | tokensTrending (hours : ℤ)
  | tokenHistory (assetCode assetIssuer : String) (hours : ℤ)
  | whaleTransactions (minAmount : String) (limit : ℤ) (account : Option String)
  | liquidations
  | alerts (limit : ℤ) (opts : AlertsOptions)
  | acknowledgeAlert (id : ℤ)
  | unacknowledgeAlert (id : ℤ)
  | search (q : String) (limit : ℤ)
  | alertChannels
  | deleteAlertChannel (id : ℤ)
  | alertRules
  | deleteAlertRule (id : ℤ)
  | watchlist
  | removeFromWatchlist (id : ℤ)

namespace ApiCall

/-- A number in a template. -/
def number (n : ℤ) : List Char := (toString n).toList

/-- A field `key=value`. -/
def field (key : String) (value : List Char) : List Char × List Char := (key.toList, value)

/-- A field that is left out where there is no text, or an empty one. -/
def optional (key : String) (value : Option String) : List (List Char × List Char) :=
  match value with
  | some v => if v = "" then [] else [field key (encodeURIComponent v)]
  | none => []

def method : ApiCall → Method
  | acknowledgeAlert _ => .patch
  | unacknowledgeAlert _ => .delete
  | deleteAlertChannel _ => .delete
  | deleteAlertRule _ => .delete
  | removeFromWatchlist _ => .delete
  | _ => .get

def address : ApiCall → Address
  | tvl hours => ⟨["tvl".toList], [field "hours" (number hours)]⟩
  | pools limit offset =>
    ⟨["pools".toList], [field "limit" (number limit), field "offset" (number offset)]⟩
  | poolHistory poolId hours =>
    -- the id is not encoded
    ⟨["pools".toList, poolId.toList, "history".toList], [field "hours" (number hours)]⟩
  | poolsTrending hours =>
    ⟨["pools".toList, "trending".toList], [field "hours" (number hours)]⟩
  | tokens limit offset =>
    ⟨["tokens".toList], [field "limit" (number limit), field "offset" (number offset)]⟩
  | tokensTrending hours =>
    ⟨["tokens".toList, "trending".toList], [field "hours" (number hours)]⟩
  | tokenHistory assetCode assetIssuer hours =>
    ⟨["tokens".toList, encodeURIComponent assetCode, encodeURIComponent assetIssuer,
      "history".toList], [field "hours" (number hours)]⟩
  | whaleTransactions minAmount limit account =>
    ⟨["transactions".toList, "whales".toList],
      [field "min_amount" minAmount.toList, field "limit" (number limit)] ++
        optional "account" account⟩
  | liquidations => ⟨["liquidations".toList], []⟩
  | alerts limit opts =>
    ⟨["alerts".toList], [field "limit" (number limit)] ++ optional "kind" opts.kind ++
      optional "pool_id" opts.poolId ++ optional "asset_code" opts.assetCode ++
      optional "asset_issuer" opts.assetIssuer ++
      if opts.unacknowledged then [field "unacknowledged" "true".toList] else []⟩
  | acknowledgeAlert id => ⟨["alerts".toList, number id, "ack".toList], []⟩
  | unacknowledgeAlert id => ⟨["alerts".toList, number id, "ack".toList], []⟩
  | search q limit =>
    ⟨["search".toList], [field "q" (encodeURIComponent q), field "limit" (number limit)]⟩
  | alertChannels => ⟨["alert-channels".toList], []⟩
  | deleteAlertChannel id => ⟨["alert-channels".toList, number id], []⟩
  | alertRules => ⟨["alert-rules".toList], []⟩
  | deleteAlertRule id => ⟨["alert-rules".toList, number id], []⟩
  | watchlist => ⟨["watchlist".toList], []⟩
  | removeFromWatchlist id => ⟨["watchlist".toList, number id], []⟩

end ApiCall

/-! ### The server's side -/

/-- The request that reaches the router when the browser fetches an address.  There is none here
where a segment of the path is not a text, or is one that the browser resolves by itself. -/
def Request.ofAddress? (method : Method) (headers : HeaderMap) (address : List Char) :
    Option Request := do
  let parts := (Text.cut '?' address).getD (address, [])
  let path ← (parts.1.splitOn '/').tail.mapM fun segment => ofUtf8? (decode segment)
  if "." ∈ path ∨ ".." ∈ path then none
  else
    -- of what `encodeURIComponent` keeps, the browser encodes the apostrophe in a query
    some ⟨method, path, String.ofList (escapeAlso 39 parts.2), headers, []⟩

/-- A field of a structure: absent, or given once. -/
def queryField (fields : List (String × String)) (key : String) :
    Except Rejection (Option String) :=
  match fields.filter fun p => p.1 = key with
  | [] => .ok none
  | [p] => .ok (some p.2)
  | _ => .error .badRequest

/-- A field that is parsed. -/
def parsedField {α : Type} (parse : String → Option α) (fields : List (String × String))
    (key : String) : Except Rejection (Option α) := do
  match ← queryField fields key with
  | none => return none
  | some value =>
    match parse value with
    | some a => return some a
    | none => throw .badRequest

/-- `str::parse::<bool>`. -/
def parseBool (s : String) : Option Bool :=
  if s = "true" then some true else if s = "false" then some false else none

/-- The structures of the routes are read from the fields of the query, by their names; `text`
reads bytes and `parseF64` a number. -/
structure Extract.ReadsQueries (X : Extract) (text : List UInt8 → String)
    (parseF64 : String → Option F64) : Prop where
  utf8 : ∀ s, text (utf8 s) = s
  range : ∀ req, X.range req = do
    let fields := Form.pairs text req.query.toList
    return ⟨← parsedField parseI64 fields "hours"⟩
  page : ∀ req, X.page req = do
    let fields := Form.pairs text req.query.toList
    return ⟨← parsedField parseI64 fields "limit", ← parsedField parseI64 fields "offset"⟩
  search : ∀ req, X.search req = do
    let fields := Form.pairs text req.query.toList
    return ⟨← queryField fields "q", ← parsedField parseI64 fields "limit"⟩
  whales : ∀ req, X.whales req = do
    let fields := Form.pairs text req.query.toList
    return ⟨← parsedField parseF64 fields "min_amount", ← parsedField parseI64 fields "limit",
      ← queryField fields "account"⟩
  alerts : ∀ req, X.alerts req = do
    let fields := Form.pairs text req.query.toList
    return (⟨← parsedField parseI64 fields "limit", ← queryField fields "kind",
      ← queryField fields "pool_id", ← queryField fields "asset_code",
      ← queryField fields "asset_issuer", false⟩, ← parsedField parseBool fields "unacknowledged")

/-! ### What a call asks -/

namespace ApiCall

/-- An empty text is none. -/
def given (value : Option String) : Option String := value.filter (· ≠ "")

/-- What a call is meant to ask for, where its amount stands for `amount`. -/
def asks (amount : F64) : ApiCall → Parsed
  | tvl hours => .read (.tvl ⟨some hours⟩)
  | pools limit offset => .read (.pools ⟨some limit, some offset⟩)
  | poolHistory poolId hours => .read (.poolHistory poolId ⟨some hours⟩)
  | poolsTrending hours => .read (.poolsTrending ⟨some hours⟩)
  | tokens limit offset => .read (.tokens ⟨some limit, some offset⟩)
  | tokensTrending hours => .read (.tokensTrending ⟨some hours⟩)
  | tokenHistory assetCode assetIssuer hours =>
    .read (.tokenHistory assetCode assetIssuer ⟨some hours⟩)
  | whaleTransactions _ limit account =>
    .read (.whaleTransactions ⟨some amount, some limit, given account⟩)
  | liquidations => .read .liquidations
  | alerts limit opts =>
    .read (.alerts ⟨some limit, given opts.kind, given opts.poolId, given opts.assetCode,
      given opts.assetIssuer, opts.unacknowledged⟩)
  | acknowledgeAlert id => .write (.acknowledgeAlert id)
  | unacknowledgeAlert id => .write (.unacknowledgeAlert id)
  | search q limit => .read (.search ⟨some q, some limit⟩)
  | alertChannels => .read .listAlertChannels
  | deleteAlertChannel id => .write (.deleteAlertChannel id)
  | alertRules => .read .listAlertRules
  | deleteAlertRule id => .write (.deleteAlertRule id)
  | watchlist => .read .listWatchlist
  | removeFromWatchlist id => .write (.deleteWatchlistItem id)

end ApiCall

end Lumina
