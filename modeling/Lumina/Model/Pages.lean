import Lumina.Model.Client

/-!
# The pages of the dashboard

The pages of `App`, the requests of those that show one item, and the link of a hit of the search.

## Main definitions

* `AppPage.ofPath?` : the routes of `App`.
* `AppPage.calls` : what a page of one item asks for.
* `searchResultHref` : where a hit of the search leads.
-/

namespace Lumina

open Percent

/-- A page of `App`, with its parameters. -/
inductive AppPage where
  | overview
  | pools
  | poolDetail (poolId : String)
  | tokens
  | tokenDetail (assetCode assetIssuer : String)
  | whales
  | accountActivity (address : String)
  | liquidations
  | alerts
  | alertSettings
  | watchlist
  deriving DecidableEq

/-- The routes of `App`, for the segments of a path. -/
def AppPage.ofPath? : List String → Option AppPage
  | [""] => some overview
  | ["pools"] => some pools
  | ["pools", poolId] => some (poolDetail poolId)
  | ["tokens"] => some tokens
  | ["tokens", assetCode, assetIssuer] => some (tokenDetail assetCode assetIssuer)
  | ["whales"] => some whales
  | ["accounts", address] => some (accountActivity address)
  | ["liquidations"] => some liquidations
  | ["alerts"] => some alerts
  | ["alerts", "settings"] => some alertSettings
  | ["watchlist"] => some watchlist
  | _ => none

/-- The page that a link leads to; a segment is decoded for `useParams`. -/
def AppPage.ofHref? (href : List Char) : Option AppPage := do
  let path ← (href.splitOn '/').tail.mapM fun segment => ofUtf8? (decode segment)
  -- a path that the browser resolves, or with an empty parameter, is another one
  if "." ∈ path ∨ ".." ∈ path then none
  else if "" ∈ path ∧ path ≠ [""] then none
  else AppPage.ofPath? path

/-- Everything a narrowing leaves open. -/
def AlertsOptions.all : AlertsOptions := ⟨none, none, none, none, false⟩

/-- What a page of one item asks for, where it shows a window of some hours. -/
def AppPage.calls (hours : ℤ) : AppPage → List ApiCall
  | poolDetail poolId =>
    [.pools 2000 0, .poolHistory poolId hours,
      .alerts 20 { AlertsOptions.all with poolId := some poolId }]
  | tokenDetail assetCode assetIssuer =>
    [.tokenHistory assetCode assetIssuer hours,
      .alerts 20 { AlertsOptions.all with
        assetCode := some assetCode, assetIssuer := some assetIssuer }]
  | accountActivity address => [.whaleTransactions "0" 500 (some address)]
  | _ => []

/-- `searchResultHref`; the type of a hit is one of three. -/
def searchResultHref (result : SearchResultRow) : Option (List Char) :=
  if result.resultType = "pool" then
    some ("/pools/".toList ++ encodeURIComponent result.key)
  else if result.resultType = "token" then
    let (code, issuer) := (Text.cut ':' result.key.toList).getD (result.key.toList, [])
    some ("/tokens/".toList ++ encodeURIComponent (String.ofList code) ++ ['/'] ++
      encodeURIComponent (String.ofList issuer))
  else if result.resultType = "account" then
    some ("/accounts/".toList ++ encodeURIComponent result.key)
  else none

end Lumina
