import Lumina.Model.Alerts
import Mathlib.Data.List.DropRight

/-!
# Configuration

The settings that the ingester reads, and the parsing of the two that are lists.

## Main definitions

* `Config` : the settings.
* `Config.blendPoolIds`, `Config.blendAssetPricesUsd` : the parsed lists.
-/

namespace Lumina

/-! ### Texts -/

/-- Unicode white space, which `str::trim` removes. -/
def isWhitespace (c : Char) : Bool :=
  (9 ≤ c.val && c.val ≤ 13) || c.val = 0x20 || c.val = 0x85 || c.val = 0xA0 || c.val = 0x1680 ||
    (0x2000 ≤ c.val && c.val ≤ 0x200A) || c.val = 0x2028 || c.val = 0x2029 || c.val = 0x202F ||
    c.val = 0x205F || c.val = 0x3000

/-- `str::trim`. -/
def trim (s : List Char) : List Char := (s.dropWhile isWhitespace).rdropWhile isWhitespace

/-- `str::split_once` at a character. -/
def splitOnce (c : Char) (s : List Char) : Option (List Char × List Char) :=
  match s.dropWhile (· ≠ c) with
  | [] => none
  | _ :: rest => some (s.takeWhile (· ≠ c), rest)

/-! ### Settings -/

/-- The settings of the ingester. -/
structure Config where
  horizonUrl : String
  whaleThreshold : F64
  priceFeedEnabled : Bool
  blendPoolIdsRaw : String
  blendAssetPricesUsdRaw : String
  webhook : WebhookConfig
  liquidityDropThresholdPct : Decimal
  holderDropThresholdPct : Decimal

/-- The settings of an environment without any variable. -/
def Config.default : Config where
  horizonUrl := "https://horizon.stellar.org"
  whaleThreshold := .finite 10000
  priceFeedEnabled := false
  blendPoolIdsRaw := ""
  blendAssetPricesUsdRaw := ""
  webhook := ⟨none, "WARNING"⟩
  liquidityDropThresholdPct := 30
  holderDropThresholdPct := 20

/-- The Blend pool contracts to index. -/
def Config.blendPoolIds (config : Config) : List String :=
  (((config.blendPoolIdsRaw.toList.splitOn ',').map trim).filter (· ≠ [])).map String.ofList

/-- The prices by contract address. -/
abbrev PriceMap := String → Option Decimal

/-- One entry of `BLEND_ASSET_PRICES_USD` added to the prices; a malformed one is skipped. -/
def addPriceEntry (D : RustDecimal) (out : PriceMap) (entry : List Char) : PriceMap :=
  if trim entry = [] then out
  else
    match splitOnce ':' (trim entry) with
    | none => out
    | some (addr, price) =>
      match D.fromStr (String.ofList (trim price)) with
      | some price => Function.update out (String.ofList (trim addr)) (some price)
      | none => out

/-- The prices of the Blend reserves that the operator supplied. -/
def Config.blendAssetPricesUsd (D : RustDecimal) (config : Config) : PriceMap :=
  (config.blendAssetPricesUsdRaw.toList.splitOn ',').foldl (addPriceEntry D) fun _ => none

end Lumina
