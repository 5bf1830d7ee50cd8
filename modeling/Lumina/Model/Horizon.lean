import Lumina.Model.Rows

/-!
# The Horizon client

Horizon answers a request with a page of records and a link to the next page.  The client
follows the links up to a number of pages.  A request is tried again after a server error, so a
page is fetched from the list of answers that Horizon gives to its attempts.

## Main definitions

* `LiquidityPool`, `AssetRecord`, `PaymentRecord` : the records.
* `getPage` : one page with its retries, `getAllPages` : the walk along the links.
* `liquidityPools`, `assets`, `paymentsSince`, `latestPaymentsPage` : the requests.
-/

namespace Lumina

structure PoolReserve where
  asset : String
  amount : String
  deriving DecidableEq

structure LiquidityPool where
  id : String
  feeBp : ℤ
  totalTrustlines : String
  totalShares : String
  reserves : List PoolReserve
  deriving DecidableEq

/-- An asset, with the authorized parts of its `accounts` and `balances`. -/
structure AssetRecord where
  assetCode : String
  assetIssuer : String
  accountsAuthorized : ℤ
  balancesAuthorized : String
  numClaimableBalances : ℤ
  deriving DecidableEq

structure PaymentRecord where
  id : String
  pagingToken : String
  opType : String
  transactionHash : String
  /-- `from` -/
  fromAccount : Option String
  /-- `to` -/
  toAccount : Option String
  sourceAccount : Option String
  assetType : Option String
  assetCode : Option String
  assetIssuer : Option String
  amount : Option String
  deriving DecidableEq

/-- A page of records with the address of the next one. -/
structure Page (T : Type) where
  records : List T
  next : Option String

/-- What one attempt at a request brings. -/
inductive Attempt (T : Type) where
  /-- A successful status and the page, or a body that does not parse. -/
  | success (page : Option (Page T))
  /-- Another status. -/
  | status (code : ℕ)
  /-- No answer; a time-out or a failed connection may be tried again. -/
  | error (retryable : Bool)
  /-- The process stops meanwhile. -/
  | stop

/-- Horizon, as one cycle sees it: its answer to an attempt at an address, for each page that
the cycle asks for. -/
abbrev Server (T : Type) := ℕ → String → ℕ → Attempt T

namespace Horizon

variable {T : Type}

def maxRetries : ℕ := 5

/-- Whether a status is worth another attempt. -/
def retryableStatus (code : ℕ) : Bool := (500 ≤ code && code < 600) || code = 429

/-- The attempts from number `attempt` on, with `left` more of them allowed. -/
def getPageFrom (answers : ℕ → Attempt T) : ℕ → ℕ → Outcome Error (Page T)
  | left, attempt =>
    match answers attempt with
    | .success (some page) => .ret page
    | .success none => .err .http
    | .stop => .stop
    | .status code =>
      match left with
      | 0 => .err .http
      | left + 1 =>
        if retryableStatus code then getPageFrom answers left (attempt + 1) else .err .http
    | .error retryable =>
      match left with
      | 0 => .err .http
      | left + 1 => if retryable then getPageFrom answers left (attempt + 1) else .err .http

/-- Fetches one page. -/
def getPage (answers : ℕ → Attempt T) : Outcome Error (Page T) :=
  getPageFrom answers (maxRetries - 1) 1

/-- The address of a request. -/
def buildUrl (baseUrl path : String) (query : List (String × String)) : String :=
  if query = [] then baseUrl ++ path
  else baseUrl ++ path ++ "?" ++ "&".intercalate (query.map fun kv => kv.1 ++ "=" ++ kv.2)

/-- The walk along the links from `url`, for at most the given number of pages; `n` pages have
been read before. -/
def walkPages (server : Server T) : ℕ → ℕ → String → Outcome Error (List T)
  | 0, _, _ => .ret []
  | maxPages + 1, n, url => do
    let page ← getPage (server n url)
    match page.next with
    | some next =>
      -- an empty page ends the walk, whatever it links to
      if 0 < page.records.length then do
        let rest ← walkPages server maxPages (n + 1) next
        return page.records ++ rest
      else return page.records
    | none => return page.records

/-- Every record of up to `maxPages` pages. -/
def getAllPages (server : Server T) (baseUrl path : String) (query : List (String × String))
    (maxPages : ℕ) : Outcome Error (List T) :=
  walkPages server maxPages 0 (buildUrl baseUrl path query)

/-- The liquidity pools, most recently active first. -/
def liquidityPools (server : Server LiquidityPool) (baseUrl : String) (maxPages : ℕ) :
    Outcome Error (List LiquidityPool) :=
  getAllPages server baseUrl "/liquidity_pools" [("limit", "200"), ("order", "desc")] maxPages

/-- The assets with the most holders first. -/
def assets (server : Server AssetRecord) (baseUrl : String) (maxPages : ℕ) :
    Outcome Error (List AssetRecord) :=
  getAllPages server baseUrl "/assets" [("limit", "200"), ("order", "desc")] maxPages

/-- The query of the payments after a cursor, oldest first. -/
def paymentsQuery (cursor : Option String) : List (String × String) :=
  [("limit", "200"), ("order", "asc"), ("include_failed", "false")] ++
    (cursor.map fun c => ("cursor", c)).toList

/-- The payments after a cursor, oldest first. -/
def paymentsSince (server : Server PaymentRecord) (baseUrl : String) (cursor : Option String)
    (maxPages : ℕ) : Outcome Error (List PaymentRecord) :=
  getAllPages server baseUrl "/payments" (paymentsQuery cursor) maxPages

/-- The address of the newest payments. -/
def latestPaymentsUrl (baseUrl : String) (limit : ℕ) : String :=
  buildUrl baseUrl "/payments"
    [("limit", toString limit), ("order", "desc"), ("include_failed", "false")]

/-- The newest payments, newest first. -/
def latestPaymentsPage (server : Server PaymentRecord) (baseUrl : String) (limit : ℕ) :
    Outcome Error (List PaymentRecord) := do
  let page ← getPage (server 0 (latestPaymentsUrl baseUrl limit))
  return page.records

end Horizon

end Lumina
