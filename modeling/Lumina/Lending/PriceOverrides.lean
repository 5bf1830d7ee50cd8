import Lumina.Model.Config
import Mathlib.Data.List.DropRight

/-!
# The prices that the operator supplies

`BLEND_ASSET_PRICES_USD` is a list of `address:price` entries.  The parser splits at commas, then
each entry at its first colon, trims the entry and both of its parts, skips what is malformed and
lets a later entry replace an earlier one.  A list of entries, written with any white space and any
malformed segments between them, is parsed to the last price of each address
(`blendAssetPricesUsd_render`).

## Main definitions

* `Override` : an entry, with the white space that it is written with.
* `Malformed` : a segment that is no entry.
* `Segment`, `renderSegments` : a list of both and its text.
* `lastPrice` : the last price that is listed for an address.
-/

namespace Lumina

/-! ### Trimming and splitting -/

section Text

variable {s l r ws : List Char}

/-- White space only. -/
def Blank (ws : List Char) : Prop := ∀ c ∈ ws, isWhitespace c = true

theorem trim_blank_append (h : Blank ws) : trim (ws ++ s) = trim s := by
  rw [trim, trim, List.dropWhile_append_of_pos h]

theorem rdropWhile_append_blank (h : Blank ws) :
    (s ++ ws).rdropWhile isWhitespace = s.rdropWhile isWhitespace := by
  have hreverse : ∀ c ∈ ws.reverse, isWhitespace c = true := fun c hc =>
    h c (List.mem_reverse.1 hc)
  rw [List.rdropWhile, List.reverse_append, List.dropWhile_append_of_pos hreverse]
  rfl

theorem trim_append_blank (h : Blank ws) : trim (s ++ ws) = trim s := by
  unfold trim
  rw [List.dropWhile_append]
  split_ifs with hs
  · -- nothing but white space
    rw [List.isEmpty_iff.1 hs, List.dropWhile_eq_nil_iff.2 h]
  · exact rdropWhile_append_blank h

theorem trim_dropWhile : trim (s.dropWhile isWhitespace) = trim s := by
  rw [trim, trim, List.dropWhile_idempotent]

theorem trim_rdropWhile : trim (s.rdropWhile isWhitespace) = trim s := by
  have hblank : Blank (s.rtakeWhile isWhitespace) := fun c hc => List.mem_rtakeWhile_imp hc
  calc trim (s.rdropWhile isWhitespace)
      = trim (s.rdropWhile isWhitespace ++ s.rtakeWhile isWhitespace) :=
        (trim_append_blank hblank).symm
    _ = trim s := by rw [List.rdropWhile_append_rtakeWhile]

theorem splitOnce_append {c : Char} (h : c ∉ l) : splitOnce c (l ++ c :: r) = some (l, r) := by
  have hl : ∀ d ∈ l, decide (d ≠ c) = true := fun d hd =>
    decide_eq_true fun heq => h (heq ▸ hd)
  rw [splitOnce, List.dropWhile_append_of_pos hl, List.takeWhile_append_of_pos hl]
  simp

theorem splitOnce_of_not_mem {c : Char} (h : c ∉ s) : splitOnce c s = none := by
  have hs : s.dropWhile (· ≠ c) = [] :=
    List.dropWhile_eq_nil_iff.2 fun d hd => decide_eq_true fun heq => h (heq ▸ hd)
  rw [splitOnce, hs]

/-- Trimming keeps the first colon. -/
theorem trim_colon : trim (l ++ ':' :: r) =
    l.dropWhile isWhitespace ++ ':' :: r.rdropWhile isWhitespace := by
  have hleft : (l ++ ':' :: r).dropWhile isWhitespace =
      l.dropWhile isWhitespace ++ ':' :: r := by
    rw [List.dropWhile_append]
    split_ifs with hl
    · rw [List.isEmpty_iff.1 hl]
      rfl
    · rfl
  rw [trim, hleft, List.rdropWhile, List.reverse_append, List.reverse_cons, List.append_assoc,
    List.dropWhile_append]
  split_ifs with hr
  · have hr : r.rdropWhile isWhitespace = [] := by
      rw [List.rdropWhile, List.isEmpty_iff.1 hr]
      rfl
    rw [hr]
    simp [show isWhitespace ':' = false from rfl]
  · simp [List.rdropWhile]

end Text

/-! ### Segments -/

/-- An entry: an address and the text of a price, with white space around both. -/
structure Override (D : RustDecimal) where
  address : List Char
  priceText : List Char
  price : Decimal
  before : List Char
  afterAddress : List Char
  beforePrice : List Char
  after : List Char
  trimmed : trim address = address
  plain : ',' ∉ address ∧ ':' ∉ address
  priceTrimmed : trim priceText = priceText
  pricePlain : ',' ∉ priceText
  decimal : D.fromStr (String.ofList priceText) = some price
  blank : Blank before ∧ Blank afterAddress ∧ Blank beforePrice ∧ Blank after

/-- A segment that is no entry: empty, without a colon, or with a text after the first colon that
is no decimal. -/
inductive Malformed (D : RustDecimal) : List Char → Prop
  | empty {s : List Char} : trim s = [] → Malformed D s
  | noColon {s : List Char} : ':' ∉ s → Malformed D s
  | notDecimal {l r : List Char} : ':' ∉ l → D.fromStr (String.ofList (trim r)) = none →
      Malformed D (l ++ ':' :: r)

inductive Segment (D : RustDecimal) where
  | entry (o : Override D)
  | malformed (text : List Char) (plain : ',' ∉ text) (h : Malformed D text)

variable {D : RustDecimal} {out : PriceMap}

/-- The text of an entry. -/
def Override.text (o : Override D) : List Char :=
  (o.before ++ o.address ++ o.afterAddress) ++ ':' :: (o.beforePrice ++ o.priceText ++ o.after)

def Segment.text : Segment D → List Char
  | entry o => o.text
  | malformed text _ _ => text

/-- The entry of a segment. -/
def Segment.override : Segment D → Option (Override D)
  | entry o => some o
  | malformed _ _ _ => none

/-- The segments joined by commas. -/
def renderSegments (segments : List (Segment D)) : String :=
  String.ofList (List.intercalate [','] (segments.map (·.text)))

/-- The last price that is listed for an address. -/
def lastPrice (entries : List (Override D)) (address : String) : Option Decimal :=
  ((entries.filter fun o => String.ofList o.address = address).getLast?).map (·.price)

/-! ### One segment -/

theorem Blank.not_mem {ws : List Char} (h : Blank ws) {c : Char} (hc : isWhitespace c = false) :
    c ∉ ws := fun hmem => by simp [h c hmem] at hc

theorem Segment.comma_not_mem (segment : Segment D) : ',' ∉ segment.text := by
  cases segment with
  | malformed text plain h => exact plain
  | entry o =>
    obtain ⟨hbefore, hafterAddress, hbeforePrice, hafter⟩ := o.blank
    simp only [text, Override.text, List.mem_append, List.mem_cons, not_or]
    exact ⟨⟨⟨hbefore.not_mem rfl, o.plain.1⟩, hafterAddress.not_mem rfl⟩, by decide,
      ⟨hbeforePrice.not_mem rfl, o.pricePlain⟩, hafter.not_mem rfl⟩

/-- An entry sets the price of its address. -/
theorem addPriceEntry_text (o : Override D) : addPriceEntry D out o.text =
    Function.update out (String.ofList o.address) (some o.price) := by
  obtain ⟨hbefore, hafterAddress, hbeforePrice, hafter⟩ := o.blank
  have hcolon : ':' ∉ (o.before ++ o.address ++ o.afterAddress).dropWhile isWhitespace := by
    intro hmem
    have hmem := (List.dropWhile_suffix _).subset hmem
    simp only [List.mem_append] at hmem
    rcases hmem with (hmem | hmem) | hmem
    · exact hbefore.not_mem rfl hmem
    · exact o.plain.2 hmem
    · exact hafterAddress.not_mem rfl hmem
  have haddress : trim ((o.before ++ o.address ++ o.afterAddress).dropWhile isWhitespace) =
      o.address := by
    rw [trim_dropWhile, trim_append_blank hafterAddress, trim_blank_append hbefore, o.trimmed]
  have hprice : trim ((o.beforePrice ++ o.priceText ++ o.after).rdropWhile isWhitespace) =
      o.priceText := by
    rw [trim_rdropWhile, trim_append_blank hafter, trim_blank_append hbeforePrice, o.priceTrimmed]
  unfold addPriceEntry Override.text
  rw [trim_colon, if_neg (by simp), splitOnce_append hcolon]
  simp only [hprice, o.decimal, haddress]

/-- A malformed segment is skipped. -/
theorem addPriceEntry_malformed {s : List Char} (h : Malformed D s) :
    addPriceEntry D out s = out := by
  unfold addPriceEntry
  cases h with
  | empty h => rw [if_pos h]
  | noColon h =>
    have htrim : ':' ∉ trim s := fun hmem =>
      h ((List.dropWhile_suffix _).subset (List.rdropWhile_prefix _ _ |>.subset hmem))
    rw [splitOnce_of_not_mem htrim]
    split_ifs <;> rfl
  | @notDecimal l r hl hr =>
    have hcolon : ':' ∉ l.dropWhile isWhitespace := fun hmem =>
      hl ((List.dropWhile_suffix _).subset hmem)
    rw [trim_colon, if_neg (by simp), splitOnce_append hcolon]
    simp only [trim_rdropWhile, hr]

/-! ### The list -/

/-- A loop over segments sets the last price of each address that it comes across. -/
theorem foldl_addPriceEntry (segments : List (Segment D)) (out : PriceMap) (address : String) :
    (segments.map (·.text)).foldl (addPriceEntry D) out address =
      (lastPrice (segments.filterMap (·.override)) address).or (out address) := by
  induction segments using List.reverseRecOn with
  | nil => simp [lastPrice]
  | append_singleton segments segment ih =>
    rw [List.map_append, List.foldl_append, List.filterMap_append]
    cases segment with
    | malformed text plain h =>
      show addPriceEntry D ((segments.map (·.text)).foldl (addPriceEntry D) out) text address =
        (lastPrice (segments.filterMap (·.override) ++ []) address).or (out address)
      rw [addPriceEntry_malformed h, ih, List.append_nil]
    | entry o =>
      show addPriceEntry D ((segments.map (·.text)).foldl (addPriceEntry D) out) o.text address =
        (lastPrice (segments.filterMap (·.override) ++ [o]) address).or (out address)
      rw [addPriceEntry_text]
      unfold lastPrice at ih ⊢
      by_cases ho : String.ofList o.address = address
      · subst ho
        simp [List.filter_append]
      · rw [Function.update_of_ne (Ne.symm ho), ih]
        simp [List.filter_append, ho]

/-- **The price overrides parse faithfully.**  Whatever white space surrounds the addresses and the
prices and whatever malformed segments stand between the entries, the map sends each address to
its last listed price. -/
theorem blendAssetPricesUsd_render (D : RustDecimal) (config : Config)
    (segments : List (Segment D)) :
    ({ config with blendAssetPricesUsdRaw := renderSegments segments }).blendAssetPricesUsd D =
      lastPrice (segments.filterMap (·.override)) := by
  funext address
  have hfold : ∀ pieces : List (List Char), pieces = segments.map (·.text) →
      pieces.foldl (addPriceEntry D) (fun _ => none) address =
        lastPrice (segments.filterMap (·.override)) address := by
    rintro pieces rfl
    rw [foldl_addPriceEntry, Option.or_none]
  unfold Config.blendAssetPricesUsd renderSegments
  simp only [String.toList_ofList]
  cases segments with
  | nil =>
    -- the empty text is one empty segment
    rfl
  | cons segment segments =>
    refine hfold _ (List.splitOn_intercalate ',' ?_ (by simp))
    intro piece hpiece
    obtain ⟨s, -, rfl⟩ := List.mem_map.1 hpiece
    exact s.comma_not_mem

/-! ### A list with a malformed segment -/

namespace Sample

/-- The texts of three prices. -/
def threePrices : RustDecimal := .exact fun text =>
  if text = "1.0002" then some (10002 / 10000)
  else if text = "0.9998" then some (9998 / 10000)
  else if text = "0.11" then some (11 / 100) else none

def usdcFirst : Override threePrices where
  address := "CUSDC".toList
  priceText := "1.0002".toList
  price := 10002 / 10000
  before := [' ']
  afterAddress := [' ']
  beforePrice := ['\t']
  after := []
  trimmed := by decide
  plain := by decide
  priceTrimmed := by decide
  pricePlain := by decide
  decimal := by decide +kernel
  blank := by simp [Blank, isWhitespace]

def xlmOverride : Override threePrices where
  address := "CXLM".toList
  priceText := "0.11".toList
  price := 11 / 100
  before := []
  afterAddress := []
  beforePrice := []
  after := [' ']
  trimmed := by decide
  plain := by decide
  priceTrimmed := by decide
  pricePlain := by decide
  decimal := by decide +kernel
  blank := by simp [Blank, isWhitespace]

def usdcLast : Override threePrices where
  address := "CUSDC".toList
  priceText := "0.9998".toList
  price := 9998 / 10000
  before := []
  afterAddress := []
  beforePrice := []
  after := []
  trimmed := by decide
  plain := by decide
  priceTrimmed := by decide
  pricePlain := by decide
  decimal := by decide +kernel
  blank := by simp [Blank, isWhitespace]

/-- Two entries for one token, one for another, and a segment without a colon. -/
def listedOverrides : List (Segment threePrices) :=
  [.entry usdcFirst, .malformed "no colon".toList (by decide) (.noColon (by decide)),
    .entry xlmOverride, .entry usdcLast]

/-- The settings with that list. -/
def overridden : Config :=
  { Config.default with blendAssetPricesUsdRaw := renderSegments listedOverrides }

/-- The last price of an address counts, whatever stands around it. -/
theorem listedOverrides_parsed :
    overridden.blendAssetPricesUsdRaw = " CUSDC :\t1.0002,no colon,CXLM:0.11 ,CUSDC:0.9998" ∧
      overridden.blendAssetPricesUsd threePrices "CUSDC" = some (9998 / 10000) ∧
      overridden.blendAssetPricesUsd threePrices "CXLM" = some (11 / 100) ∧
      overridden.blendAssetPricesUsd threePrices "no colon" = none := by
  rw [overridden, blendAssetPricesUsd_render]
  decide +kernel

end Sample

end Lumina
