import Lumina.Lending.Decode
import Lumina.Tree.Preorder

/-!
# The walk over a payload

A value is a tree whose inner nodes are vectors and maps, and the walk over it visits the node and
then its children, each key of a map before its value.  So it collects the addresses and the I128s
of all the nodes in preorder, after what was collected before (`walkScVal_exact`).  The account of
an event is then the first of the addresses that is not the reserve, and its amount the greatest
I128 (`readEvent_nodes`).

## Main definitions

* `ScVal.children` : the values directly inside a value.
* `ScVal.amount` : the signed number of an I128.
* `Found.visit` : what one node adds.
-/

namespace Lumina

open Lumina.Tree

/-- The values directly inside a value, each key of a map before its value. -/
def ScVal.children : ScVal → List ScVal
  | .vec (some vals) => vals
  | .map (some entries) => entries.flatMap fun entry => [entry.1, entry.2]
  | _ => []

/-- The signed number of an I128, of two halves. -/
def ScVal.amount : ScVal → Option ℤ
  | .i128 hi lo => some (hi.toInt * 2 ^ 64 + lo.toNat)
  | _ => none

/-- What one node adds to the addresses and amounts. -/
def Found.visit (X : Codec) (found : Found) (val : ScVal) : Found :=
  (found.1 ++ (scValAddressString X val).toList, found.2 ++ val.amount.toList)

variable {X : Codec} {found : Found} {val : ScVal} {topics : List ScVal} {r : RawEvent}

/-! ### Values as trees -/

/-- The shift and the or of the two halves are their signed value. -/
theorem i128Value_eq (hi : Int64) (lo : UInt64) :
    i128Value hi lo = hi.toInt * 2 ^ 64 + lo.toNat := by
  have happend : (hi.toBitVec.signExtend 128) <<< 64 ||| lo.toBitVec.setWidth 128 =
      (hi.toBitVec ++ lo.toBitVec : BitVec (64 + 64)) := by
    ext i hi
    rw [BitVec.getElem_append]
    by_cases h : i < 64
    · simp [h]
    · have hsub : i - 64 < 64 := by omega
      have hlo : lo.toBitVec.getLsbD i = false := BitVec.getLsbD_of_ge _ _ (by omega)
      simp [h, BitVec.getElem_signExtend, hsub, hlo]
  rw [i128Value, happend, BitVec.toInt_append]
  simp [mul_comm]

/-- A value is larger than what is inside it. -/
theorem ScVal.sizeOf_lt_of_mem_children {c : ScVal} (h : c ∈ val.children) :
    sizeOf c < sizeOf val := by
  cases val with
  | vec v =>
    cases v with
    | none => cases h
    | some vals =>
      have hlt : sizeOf c < sizeOf vals := List.sizeOf_lt_of_mem h
      simp only [ScVal.vec.sizeOf_spec, Option.some.sizeOf_spec]
      omega
  | map m =>
    cases m with
    | none => cases h
    | some entries =>
      obtain ⟨entry, he, hc⟩ := List.mem_flatMap.1 h
      have hlt := List.sizeOf_lt_of_mem he
      have hentry : sizeOf c < sizeOf entry := by
        obtain ⟨key, value⟩ := entry
        simp only [List.mem_cons, List.not_mem_nil, or_false] at hc
        rcases hc with rfl | rfl
        · simp only [Prod.mk.sizeOf_spec]
          omega
        · simp only [Prod.mk.sizeOf_spec]
          omega
      simp only [ScVal.map.sizeOf_spec, Option.some.sizeOf_spec]
      omega
  | symbol sym => cases h
  | address addr => cases h
  | i128 hi lo => cases h
  | other => cases h

theorem ScVal.wellFounded_children : WellFounded fun c val : ScVal => c ∈ val.children :=
  Subrelation.wf ScVal.sizeOf_lt_of_mem_children (measure sizeOf).wf

/-! ### The walk -/

theorem walkScVec_eq (vec : List ScVal) (found : Found) :
    walkScVec X vec found = vec.foldl (fun found val => walkScVal X val found) found := by
  induction vec generalizing found with
  | nil => rw [walkScVec, List.foldl_nil]
  | cons val vec ih => rw [walkScVec, ih, List.foldl_cons]

theorem walkScMap_eq (map : List (ScVal × ScVal)) (found : Found) :
    walkScMap X map found =
      (map.flatMap fun entry => [entry.1, entry.2]).foldl
        (fun found val => walkScVal X val found) found := by
  induction map generalizing found with
  | nil => rw [walkScMap, List.flatMap_nil, List.foldl_nil]
  | cons entry map ih =>
    rw [walkScMap, ih, List.flatMap_cons, List.foldl_append]
    rfl

/-- **One node**: the walk visits it, and then walks over its children. -/
theorem walkScVal_eq (found : Found) (val : ScVal) : walkScVal X val found =
    val.children.foldl (fun found val => walkScVal X val found) (found.visit X val) := by
  cases val with
  | vec v =>
    cases v with
    | none => simp [walkScVal, ScVal.children, Found.visit, scValAddressString, ScVal.amount]
    | some vals =>
      rw [walkScVal, walkScVec_eq]
      simp [ScVal.children, Found.visit, scValAddressString, ScVal.amount]
  | map m =>
    cases m with
    | none => simp [walkScVal, ScVal.children, Found.visit, scValAddressString, ScVal.amount]
    | some entries =>
      rw [walkScVal, walkScMap_eq]
      simp [ScVal.children, Found.visit, scValAddressString, ScVal.amount]
  | symbol sym =>
    simp [walkScVal, ScVal.children, Found.visit, scValAddressString, ScVal.amount]
  | address addr =>
    simp [walkScVal, ScVal.children, Found.visit, scValAddressString, ScVal.amount]
  | i128 hi lo =>
    simp [walkScVal, ScVal.children, Found.visit, scValAddressString, ScVal.amount, i128Value_eq]
  | other => simp [walkScVal, ScVal.children, Found.visit, scValAddressString, ScVal.amount]

/-- Some nodes add their addresses and their amounts, in their order. -/
theorem foldl_visit (nodes : List ScVal) (found : Found) : nodes.foldl (Found.visit X) found =
    (found.1 ++ nodes.filterMap (scValAddressString X),
      found.2 ++ nodes.filterMap ScVal.amount) := by
  induction nodes generalizing found with
  | nil => simp
  | cons val nodes ih =>
    rw [List.foldl_cons, ih, Found.visit]
    cases haddress : scValAddressString X val <;> cases hamount : val.amount <;>
      simp [haddress, hamount]

/-- **The walk** collects the addresses and the amounts of all the nodes, in preorder. -/
theorem walkScVal_exact (X : Codec) (val : ScVal) :
    (∃ nodes, (∀ l, InPreorder (nodeAt ScVal.children val) l ↔ l = nodes) ∧
      ∀ found, walkScVal X val found =
        (found.1 ++ nodes.filterMap (scValAddressString X),
          found.2 ++ nodes.filterMap ScVal.amount)) ∧
    ∀ hi lo, i128Value hi lo = hi.toInt * 2 ^ 64 + lo.toNat := by
  refine ⟨?_, i128Value_eq⟩
  obtain ⟨nodes, hnodes, hwalk⟩ :=
    exists_foldl_tree ScVal.wellFounded_children (walkScVal_eq (X := X)) val
  refine ⟨nodes, fun l => ⟨fun hl => hl.unique hnodes, ?_⟩, fun found => ?_⟩
  · rintro rfl
    exact hnodes
  · rw [← foldl_visit]
    exact hwalk found

/-- A key comes before its value, and an absent map is empty. -/
example : walkScVal X (.vec (some [.map (some [(.i128 0 1, .address (.contract []))]), .map none,
      .i128 (-1) 5])) (["a"], [7]) =
    (["a", X.contractStrkey []], [7, 1, -2 ^ 64 + 5]) := rfl

/-- The walk over some values collects them from one value after the other. -/
theorem exists_walkScVec (X : Codec) (vals : List ScVal) :
    ∃ nodes, InPreorder (forestAt ScVal.children vals) nodes ∧ ∀ found, walkScVec X vals found =
      (found.1 ++ nodes.filterMap (scValAddressString X),
        found.2 ++ nodes.filterMap ScVal.amount) := by
  have hwalk := exists_foldl_tree ScVal.wellFounded_children (walkScVal_eq (X := X))
  obtain ⟨nodes, hnodes, hwalks⟩ := exists_foldl_forest vals fun val _ => hwalk val
  refine ⟨nodes, hnodes, fun found => ?_⟩
  rw [← foldl_visit, walkScVec_eq]
  exact hwalks found

/-- **The account and the amount** of an event: the first address of its payload, in preorder,
that is not the reserve, and the greatest I128. -/
theorem readEvent_nodes {value : ScVal} (h : readEvent X topics value = some r) :
    ∃ nodes, InPreorder (forestAt ScVal.children (topics.drop 1 ++ [value])) nodes ∧
      (nodes.filterMap (scValAddressString X)).find? (· ≠ r.reserveAsset) = some r.account ∧
      (nodes.filterMap ScVal.amount).max? = some r.rawAmount := by
  obtain ⟨nodes, hnodes, hwalk⟩ := exists_walkScVec X (topics.drop 1 ++ [value])
  refine ⟨nodes, hnodes, ?_⟩
  obtain ⟨eventName, -, h⟩ := Option.bind_eq_some_iff.1 h
  obtain ⟨kind, -, h⟩ := Option.bind_eq_some_iff.1 h
  obtain ⟨account, haccount, h⟩ := Option.bind_eq_some_iff.1 h
  obtain ⟨rawAmount, hmax, h⟩ := Option.bind_eq_some_iff.1 h
  obtain rfl := Option.some.inj h
  simp only [hwalk, List.nil_append] at haccount hmax
  exact ⟨haccount, hmax⟩

end Lumina
