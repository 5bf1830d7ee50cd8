import Lumina.Lending.NonNegative
import Lumina.Lending.Walk
import Mathlib.Algebra.Order.Ring.Abs

/-!
# The amount of an event

The amount of an event is meant to be the I128 of the largest magnitude anywhere in its payload.
The nodes of a payload have exactly the I128s that occur in it (`mem_amounts_iff`), and the
greatest of them is taken, with its sign.  The two agree exactly if no negative I128 is larger
in size than every other one, or all are the same (`amount_largest_iff`).

## Main definitions

* `Occurs` : an I128 occurs in a value at any depth.
* `Payload` : an event decodes to some values that are searched.
* `LargestMagnitude` : an I128 of a payload that is no smaller in size than any other.
-/

namespace Lumina

open Lumina.Tree

/-- The I128 `v` occurs in a value: in a vector, or as or in a key or a value of a map. -/
inductive Occurs (v : ℤ) : ScVal → Prop
  | i128 {hi : Int64} {lo : UInt64} : v = hi.toInt * 2 ^ 64 + lo.toNat → Occurs v (.i128 hi lo)
  | vec {vec : List ScVal} {x : ScVal} : x ∈ vec → Occurs v x → Occurs v (.vec (some vec))
  | key {map : List (ScVal × ScVal)} {entry : ScVal × ScVal} : entry ∈ map → Occurs v entry.1 →
      Occurs v (.map (some map))
  | val {map : List (ScVal × ScVal)} {entry : ScVal × ScVal} : entry ∈ map → Occurs v entry.2 →
      Occurs v (.map (some map))

/-- The I128 `v` occurs in one of some values. -/
def OccursIn (vals : List ScVal) (v : ℤ) : Prop := ∃ val ∈ vals, Occurs v val

/-- The topics after the first and the value of an event. -/
def Payload (X : Codec) (event : RpcEvent) (vals : List ScVal) : Prop :=
  ∃ topics value, event.topic.mapM X.fromXdrBase64 = some topics ∧
    X.fromXdrBase64 event.value = some value ∧ vals = topics.drop 1 ++ [value]

/-- An I128 that occurs in a payload and is no smaller in size than any other. -/
def LargestMagnitude (vals : List ScVal) (v : ℤ) : Prop :=
  OccursIn vals v ∧ ∀ u, OccursIn vals u → |u| ≤ |v|

variable {D : RustDecimal} {X : Codec} {event : RpcEvent} {e : Decoded} {vals : List ScVal}
  {u v : ℤ}

/-! ### What occurs -/

theorem Occurs.of_child {val c : ScVal} (h : Occurs v c) (hc : c ∈ val.children) :
    Occurs v val := by
  cases val with
  | vec vec =>
    cases vec with
    | none => cases hc
    | some vec => exact .vec hc h
  | map map =>
    cases map with
    | none => cases hc
    | some map =>
      obtain ⟨entry, he, hc⟩ := List.mem_flatMap.1 hc
      simp only [List.mem_cons, List.not_mem_nil, or_false] at hc
      rcases hc with rfl | rfl
      · exact .key he h
      · exact .val he h
  | symbol sym => cases hc
  | address addr => cases hc
  | i128 hi lo => cases hc
  | other => cases hc

/-- An I128 occurs in a value if it is the number of one of its nodes. -/
theorem occurs_iff {val : ScVal} :
    Occurs v val ↔ ∃ p n, nodeAt ScVal.children val p = some n ∧ n.amount = some v := by
  constructor
  · -- the node of a child is a node of the value
    have hchild : ∀ {val c : ScVal}, c ∈ val.children →
        (∃ p n, nodeAt ScVal.children c p = some n ∧ n.amount = some v) →
          ∃ p n, nodeAt ScVal.children val p = some n ∧ n.amount = some v := by
      rintro val c hc ⟨p, n, hp, hn⟩
      obtain ⟨q, hq⟩ := exists_nodeAt_iff.2 (.inr ⟨c, hc, p, hp⟩)
      exact ⟨q, n, hq, hn⟩
    intro h
    induction h with
    | @i128 hi lo hv => exact ⟨[], .i128 hi lo, rfl, by rw [hv]; rfl⟩
    | vec hx _ ih => exact hchild hx ih
    | @key map entry he _ ih =>
      exact hchild (List.mem_flatMap.2 ⟨entry, he, by simp⟩) ih
    | @val map entry he _ ih =>
      exact hchild (List.mem_flatMap.2 ⟨entry, he, by simp⟩) ih
  · rintro ⟨p, n, hp, hn⟩
    induction p generalizing val with
    | nil =>
      obtain rfl := Option.some.inj hp
      cases val with
      | i128 hi lo => exact .i128 (Option.some.inj hn).symm
      | _ => cases hn
    | cons i p ih =>
      obtain ⟨c, hc, hp⟩ := Option.bind_eq_some_iff.1 hp
      exact (ih hp).of_child (List.mem_of_getElem? hc)

/-- **The nodes of a payload have what occurs.** -/
theorem mem_amounts_iff {nodes : List ScVal}
    (h : InPreorder (forestAt ScVal.children vals) nodes) :
    v ∈ nodes.filterMap ScVal.amount ↔ OccursIn vals v := by
  rw [List.mem_filterMap]
  constructor
  · rintro ⟨n, hn, hv⟩
    obtain ⟨val, hval, p, hp⟩ := exists_forestAt_iff.1 (h.mem_iff.1 hn)
    exact ⟨val, hval, occurs_iff.2 ⟨p, n, hp, hv⟩⟩
  · rintro ⟨val, hval, hv⟩
    obtain ⟨p, n, hp, hn⟩ := occurs_iff.1 hv
    exact ⟨n, h.mem_iff.2 (exists_forestAt_iff.2 ⟨val, hval, p, hp⟩), hn⟩

/-! ### The greatest of them -/

/-- The greatest of some numbers is of the largest magnitude. -/
theorem abs_le_max_iff {l : List ℤ} {m : ℤ} (hm : m ∈ l) (hmax : ∀ u ∈ l, u ≤ m) :
    (∀ u ∈ l, |u| ≤ |m|) ↔
      (∀ u ∈ l, u < 0 → ∃ v ∈ l, |u| ≤ v) ∨ ∀ u ∈ l, ∀ v ∈ l, u = v := by
  constructor
  · intro h
    by_cases hneg : m < 0
    · -- all are negative, and none is less than the greatest
      have heq : ∀ u ∈ l, u = m := by
        intro u hu
        have hle := hmax u hu
        have habs := h u hu
        rw [abs_of_neg (hle.trans_lt hneg), abs_of_neg hneg] at habs
        omega
      exact .inr fun u hu v hv => (heq u hu).trans (heq v hv).symm
    · refine .inl fun u hu _ => ⟨m, hm, ?_⟩
      have habs := h u hu
      rwa [abs_of_nonneg (not_lt.1 hneg)] at habs
  · rintro (h | h) u hu
    · by_cases hneg : u < 0
      · obtain ⟨v, hv, hle⟩ := h u hu hneg
        exact (hle.trans (hmax v hv)).trans (le_abs_self m)
      · have hle := hmax u hu
        rw [abs_of_nonneg (not_lt.1 hneg)]
        exact hle.trans (le_abs_self m)
    · rw [h u hu m hm]

/-- The amount of a decoded event is the greatest I128 of its payload. -/
theorem decodeEvent_amount (h : decodeEvent D X event = .ret (some e))
    (hp : Payload X event vals) : ∃ (m : ℤ) (amounts : List ℤ),
      D.fromI128WithScale m amountScale = some e.amount ∧ amounts.max? = some m ∧
        ∀ u, u ∈ amounts ↔ OccursIn vals u := by
  obtain ⟨topics, value, htopics, hvalue, rfl⟩ := hp
  obtain ⟨r, hraw, hamount, -⟩ := decodeEvent_eq_ret.1 h
  have hread : readEvent X topics value = some r := by
    simpa [rawEvent, htopics, hvalue] using hraw
  obtain ⟨nodes, hnodes, -, hmax⟩ := readEvent_nodes hread
  exact ⟨r.rawAmount, nodes.filterMap ScVal.amount, hamount, hmax, fun u => mem_amounts_iff hnodes⟩

/-- **The amount is of the largest magnitude** exactly if each negative I128 of the payload is in
size at most some other, or all of them are the same. -/
theorem amount_largest_iff (hD : D.ScalesI128) (h : decodeEvent D X event = .ret (some e))
    (hp : Payload X event vals) :
    (∃ v : ℤ, e.amount = v / 10 ^ 7 ∧ LargestMagnitude vals v) ↔
      (∀ u, OccursIn vals u → u < 0 → ∃ v, OccursIn vals v ∧ |u| ≤ v) ∨
        ∀ u, OccursIn vals u → ∀ v, OccursIn vals v → u = v := by
  obtain ⟨m, amounts, hamount, hmax, hmem⟩ := decodeEvent_amount h hp
  obtain ⟨hm, hle⟩ := List.max?_eq_some_iff.1 hmax
  have hscaled : e.amount = (m : ℚ) / 10 ^ 7 := by
    have hscale := hD m amountScale (by decide)
    rw [hamount] at hscale
    split_ifs at hscale
    exact Option.some.inj hscale
  have hlargest : (∃ v : ℤ, e.amount = v / 10 ^ 7 ∧ LargestMagnitude vals v) ↔
      ∀ u ∈ amounts, |u| ≤ |m| := by
    constructor
    · rintro ⟨v, hv, -, hall⟩
      obtain rfl : m = v := by
        have hcast : (m : ℚ) / 10 ^ 7 = v / 10 ^ 7 := hscaled.symm.trans hv
        exact_mod_cast (div_left_inj' (by norm_num)).1 hcast
      exact fun u hu => hall u ((hmem u).1 hu)
    · intro hall
      exact ⟨m, hscaled, (hmem m).1 hm, fun u hu => hall u ((hmem u).2 hu)⟩
  rw [hlargest, abs_le_max_iff hm hle]
  simp only [hmem]

end Lumina

/-! ### A negative amount and a smaller positive one -/

namespace Lumina.Sample

/-- Minus five and three units of an asset. -/
def mixedVal : ScVal := .vec (some [.i128 (-1) 18446744073659551616, .i128 0 30000000])

def mixedXdr : String :=
  "AAAAEAAAAAEAAAACAAAACv////////////////0FD4AAAAAKAAAAAAAAAAAAAAAAAcnDgA=="

/-- A supply whose value has both. -/
def mixedEvent : RpcEvent :=
  { event .supplyCollateral usdc 100 "2026-01-01T00:00:00Z" with value := mixedXdr }

def mixedDecoded : Decoded := ⟨.supplyCollateral, usdc, account, 3, 1767225600000000⟩

theorem mixed_decodes : decodeEvent roundedDecimal (codecWith mixedXdr mixedVal) mixedEvent =
    .ret (some mixedDecoded) := by
  decide +kernel

def mixedVals : List ScVal :=
  [.address (.contract (List.replicate 32 2)), .address (.account (List.replicate 32 1)), mixedVal]

theorem payload_mixed : Payload (codecWith mixedXdr mixedVal) mixedEvent mixedVals :=
  ⟨_, mixedVal, rfl, rfl, rfl⟩

/-- Three is not the largest magnitude. -/
theorem mixed_not_largest :
    ¬ ∃ v : ℤ, mixedDecoded.amount = v / 10 ^ 7 ∧ LargestMagnitude mixedVals v := by
  rintro ⟨v, hv, -, hall⟩
  have hmixed : mixedVal ∈ mixedVals := by simp [mixedVals]
  have hle := hall (-50000000) ⟨mixedVal, hmixed, .vec List.mem_cons_self (.i128 (by decide))⟩
  obtain rfl : v = 30000000 := by
    have hcast : (3 : ℚ) = v / 10 ^ 7 := hv
    rw [eq_div_iff (by norm_num)] at hcast
    have hint : ((3 * 10 ^ 7 : ℤ) : ℚ) = v := by exact_mod_cast hcast
    exact (Int.cast_injective hint).symm
  norm_num at hle

/-- **The greatest of the amounts is not the largest.** -/
theorem mixed_amount : ¬ ∀ (D : RustDecimal) (X : Codec) (event : RpcEvent) (e : Decoded)
    (vals : List ScVal), D.ScalesI128 → decodeEvent D X event = .ret (some e) →
      Payload X event vals → ∃ v : ℤ, e.amount = v / 10 ^ 7 ∧ LargestMagnitude vals v := fun hall =>
  mixed_not_largest (hall roundedDecimal _ _ _ _ (RustDecimal.rounding_scalesI128 _) mixed_decodes
    payload_mixed)

/-- A negative amount is the largest. -/
theorem mixed_negative :
    ¬ ((∀ u, OccursIn mixedVals u → u < 0 → ∃ v, OccursIn mixedVals v ∧ |u| ≤ v) ∨
      ∀ u, OccursIn mixedVals u → ∀ v, OccursIn mixedVals v → u = v) := fun h =>
  mixed_not_largest ((amount_largest_iff (RustDecimal.rounding_scalesI128 _) mixed_decodes
    payload_mixed).2 h)

end Lumina.Sample
