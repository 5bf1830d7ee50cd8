import Lumina.Model.Config
import Lumina.Model.Horizon

/-!
# Price discovery

Prices start at XLM, whose price comes from outside, and spread along the liquidity pools: a
pool with one priced leg prices the other by the ratio of its reserves.  Each *hop* prices what
the assets priced before it reach.

A `HashMap` is the list of its entries, with distinct keys; the order in which it is iterated is
the environment's (`HashOrder`).

## Main definitions

* `parsePoolAsset`, `priceFromKnownLeg` : one pool.
* `priceHop` : the prices found in one hop.
* `ingestPrices` : XLM, then up to `maxPriceHops` hops, each price recorded as it is found.
-/

namespace Lumina

/-- Code and issuer; native XLM is `("XLM", "")`. -/
abbrev AssetId := String × String

/-- The identity of native XLM. -/
def native : AssetId := ("XLM", "")

/-- The asset of a pool reserve, `native` or `CODE:ISSUER`. -/
def parsePoolAsset (asset : String) : AssetId :=
  if asset = "native" then native
  else
    match splitOnce ':' asset.toList with
    | some (code, issuer) => (String.ofList code, String.ofList issuer)
    | none => (asset, "")

/-- Asset, price and weight of the leg of a pool that is not `known`.  The outer option is the
panic of the arithmetic. -/
def priceFromKnownLeg (D : RustDecimal) (assetA : String) (reserveA : Decimal) (assetB : String)
    (reserveB : Decimal) (known : AssetId) (knownPrice : Decimal) :
    Option (Option (AssetId × Decimal × Decimal)) :=
  let idA := parsePoolAsset assetA
  let idB := parsePoolAsset assetB
  if idA = idB then some none
  else if idA = known then
    if reserveB = 0 then some none
    else do
      let ratio ← D.div reserveA reserveB
      let price ← D.mul ratio knownPrice
      return some (idB, price, reserveA)
  else if idB = known then
    if reserveA = 0 then some none
    else do
      let ratio ← D.div reserveB reserveA
      let price ← D.mul ratio knownPrice
      return some (idA, price, reserveB)
  else some none

/-- Prices by asset. -/
abbrev Priced := List (AssetId × Decimal)

/-- The best weight and price found for each newly reached asset. -/
abbrev Newly := List (AssetId × Decimal × Decimal)

/-- `contains_key`. -/
def Priced.containsKey (priced : Priced) (asset : AssetId) : Bool :=
  priced.any fun e => e.1 = asset

/-- `insert`, which replaces the entry of a known key. -/
def Priced.insert (priced : Priced) (asset : AssetId) (price : Decimal) : Priced :=
  if priced.containsKey asset then
    priced.map fun e => if e.1 = asset then (asset, price) else e
  else priced ++ [(asset, price)]

/-- `entry(..).and_modify(..).or_insert(..)`: a candidate replaces a lighter one. -/
def Newly.offer (asset : AssetId) (weight price : Decimal) : Newly → Newly
  | [] => [(asset, weight, price)]
  | (a, bestWeight, bestPrice) :: rest =>
    if a = asset then
      (if bestWeight < weight then (a, weight, price) else (a, bestWeight, bestPrice)) :: rest
    else (a, bestWeight, bestPrice) :: Newly.offer asset weight price rest

/-- The order in which the maps of each hop are iterated. -/
structure HashOrder where
  priced : ℕ → Priced → Priced
  newly : ℕ → Newly → Newly
  priced_perm : ∀ hop l, (priced hop l).Perm l
  newly_perm : ∀ hop l, (newly hop l).Perm l

/-- The order of insertion. -/
def HashOrder.insertion : HashOrder where
  priced _ l := l
  newly _ l := l
  priced_perm _ l := List.Perm.refl l
  newly_perm _ l := List.Perm.refl l

/-- The two legs of a pool with their reserves. -/
structure PoolLegs where
  assetA : String
  reserveA : Decimal
  assetB : String
  reserveB : Decimal
  deriving DecidableEq

/-- The legs of a pool, where it has two whose amounts parse. -/
def poolLegs (D : RustDecimal) (lp : LiquidityPool) : Option PoolLegs := do
  let a ← lp.reserves[0]?
  let b ← lp.reserves[1]?
  let reserveA ← D.fromStr a.amount
  let reserveB ← D.fromStr b.amount
  return ⟨a.asset, reserveA, b.asset, reserveB⟩

/-- What one priced asset and one pool add to the prices found in a hop. -/
def offerFrom (D : RustDecimal) (priced : Priced) (r : PoolLegs) (newly : Newly)
    (known : AssetId × Decimal) : Option Newly := do
  match ← priceFromKnownLeg D r.assetA r.reserveA r.assetB r.reserveB known.1 known.2 with
  | none => return newly
  | some (asset, price, weight) =>
    -- already priced in an earlier, shorter hop
    if priced.containsKey asset then return newly
    else return newly.offer asset weight price

/-- The prices found in one hop; `none` is the panic of the arithmetic. -/
def priceHop (D : RustDecimal) (order : Priced → Priced) (reserves : List PoolLegs)
    (priced : Priced) : Option Newly :=
  reserves.foldlM (fun newly r => (order priced).foldlM (offerFrom D priced r) newly) []

/-- How many pools a price may be away from XLM. -/
def maxPriceHops : ℕ := 4

/-- `insert_asset_price`. -/
def insertAssetPrice (time : Time) (asset : AssetId) (priceUsd : Decimal) (priceSource : String)
    (db : Db) : Db :=
  { db with assetPrices := db.assetPrices ++ [⟨time, asset.1, asset.2, priceUsd, priceSource⟩] }

/-- The environment of `ingestPrices`. -/
structure PricesEnv where
  /-- The XLM price that the feed answers, as a text. -/
  quote : Outcome Error String
  order : HashOrder
  insertXlm : Fault
  /-- The `i`-th insertion of a hop. -/
  insert : ℕ → ℕ → Fault

/-- The XLM price in USD. -/
def fetchXlmUsd (D : RustDecimal) (env : PricesEnv) : Outcome Error Decimal := do
  let usd ← env.quote
  Outcome.ofOption .decimal (D.fromStr usd)

def priceSource (hop : ℕ) : String := if hop = 0 then "xlm_pool_ratio" else "multi_hop_pool_ratio"

/-- The hops from number `hop` on, `left` of them at most. -/
def ingestHops (D : RustDecimal) (env : PricesEnv) (now : Time) (reserves : List PoolLegs) :
    ℕ → ℕ → Priced → Proc (Tx World) Error Unit
  | 0, _, _ => pure ()
  | left + 1, hop, priced => do
    let newly ← Proc.lift (.orPanic (priceHop D (env.order.priced hop) reserves priced))
    if newly = [] then pure ()
    else do
      -- the prices of this hop count as known from the next one on
      let priced ← (env.order.newly hop newly).zipIdx.foldlM (fun priced (e, i) => do
        Tx.exec (env.insert hop i) (insertAssetPrice now e.1 e.2.2 (priceSource hop))
        return Priced.insert priced e.1 e.2.2) priced
      ingestHops D env now reserves left (hop + 1) priced

/-- Records the XLM price and the price of every asset that the pools reach from it. -/
def ingestPrices (D : RustDecimal) (env : PricesEnv) (now : Time) (pools : List LiquidityPool) :
    Proc (Tx World) Error Unit := do
  let xlmUsd ← Proc.lift (fetchXlmUsd D env)
  Tx.exec env.insertXlm (insertAssetPrice now native xlmUsd "coingecko")
  ingestHops D env now (pools.filterMap (poolLegs D)) maxPriceHops 0 [(native, xlmUsd)]

end Lumina
