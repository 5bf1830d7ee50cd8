import Mathlib.Data.List.Lex
import Mathlib.Data.List.Sort

/-!
# Walks over trees

A tree is given by the children of each node, and a node of it by its position, the path of child
indices from the root.  In the lexicographic order of positions a node comes before what is below
it, and what is below a child before what is below the children to its right: this is preorder.
A walk that visits a node and then walks over its children visits the nodes of a tree in
preorder, each of them once (`exists_foldl_tree`).

## Main definitions

* `nodeAt`, `forestAt` : the node at a position of a tree, and of a list of trees.
* `Positions` : all the positions, in their order.
* `InPreorder` : the nodes at all the positions, in preorder.
-/

namespace Lumina

namespace Tree

variable {α σ : Type*}

/-- The node of a tree at a position. -/
def nodeAt (children : α → List α) (t : α) : List ℕ → Option α
  | [] => some t
  | i :: p => (children t)[i]?.bind fun c => nodeAt children c p

/-- The node of a list of trees at a position, whose first index is that of the tree. -/
def forestAt (children : α → List α) (ts : List α) : List ℕ → Option α
  | [] => none
  | i :: p => ts[i]?.bind fun t => nodeAt children t p

/-- All the positions that have a node, in the lexicographic order. -/
structure Positions (node : List ℕ → Option α) (ps : List (List ℕ)) : Prop where
  mem_iff : ∀ p, p ∈ ps ↔ (node p).isSome
  sorted : ps.Pairwise (List.Lex (· < ·))

/-- The nodes at all the positions, in preorder. -/
def InPreorder (node : List ℕ → Option α) (nodes : List α) : Prop :=
  ∃ ps, Positions node ps ∧ ps.filterMap node = nodes

variable {children : α → List α} {node : List ℕ → Option α} {t n : α} {ts nodes nodes' : List α}
  {ps qs : List (List ℕ)}

/-! ### Nodes -/

/-- There is one list of the nodes. -/
theorem InPreorder.unique (h : InPreorder node nodes) (h' : InPreorder node nodes') :
    nodes = nodes' := by
  obtain ⟨ps, hps, rfl⟩ := h
  obtain ⟨qs, hqs, rfl⟩ := h'
  have hsame : ps = qs :=
    hps.sorted.eq_of_mem_iff hqs.sorted fun p => (hps.mem_iff p).trans (hqs.mem_iff p).symm
  rw [hsame]

/-- The list has the node of every position. -/
theorem InPreorder.mem_iff (h : InPreorder node nodes) :
    n ∈ nodes ↔ ∃ p, node p = some n := by
  obtain ⟨ps, hps, rfl⟩ := h
  rw [List.mem_filterMap]
  constructor
  · rintro ⟨p, -, hp⟩
    exact ⟨p, hp⟩
  · rintro ⟨p, hp⟩
    exact ⟨p, (hps.mem_iff p).2 (by rw [hp]; rfl), hp⟩

/-- The nodes of some trees are those of each of them. -/
theorem exists_forestAt_iff :
    (∃ p, forestAt children ts p = some n) ↔ ∃ t ∈ ts, ∃ p, nodeAt children t p = some n := by
  constructor
  · rintro ⟨p, hp⟩
    cases p with
    | nil => cases hp
    | cons i p =>
      obtain ⟨t, ht, hp⟩ := Option.bind_eq_some_iff.1 hp
      exact ⟨t, List.mem_of_getElem? ht, p, hp⟩
  · rintro ⟨t, ht, p, hp⟩
    obtain ⟨i, hi⟩ := List.getElem?_of_mem ht
    exact ⟨i :: p, Option.bind_eq_some_iff.2 ⟨t, hi, hp⟩⟩

/-- The nodes of a tree are its root and those below it. -/
theorem exists_nodeAt_iff : (∃ p, nodeAt children t p = some n) ↔
    t = n ∨ ∃ c ∈ children t, ∃ p, nodeAt children c p = some n := by
  rw [← exists_forestAt_iff]
  constructor
  · rintro ⟨p, hp⟩
    cases p with
    | nil => exact .inl (Option.some.inj hp)
    | cons i p => exact .inr ⟨i :: p, hp⟩
  · rintro (rfl | ⟨p, hp⟩)
    · exact ⟨[], rfl⟩
    · cases p with
      | nil => cases hp
      | cons i p => exact ⟨i :: p, hp⟩

/-! ### Positions -/

/-- The position of no tree is empty. -/
theorem Positions.exists_cons (h : Positions (forestAt children ts) ps) {p : List ℕ}
    (hp : p ∈ ps) : ∃ i q, p = i :: q := by
  cases p with
  | nil => exact absurd ((h.mem_iff []).1 hp) (by simp [forestAt])
  | cons i q => exact ⟨i, q, rfl⟩

/-- The order of positions is that of the positions one tree further. -/
theorem lex_modifyHead {p q : List ℕ} (h : List.Lex (· < ·) p q) :
    List.Lex (· < ·) (p.modifyHead (· + 1)) (q.modifyHead (· + 1)) := by
  cases h with
  | nil => exact .nil
  | cons h => exact .cons h
  | rel h => exact .rel (Nat.succ_lt_succ h)

/-- The positions of some trees: those of the first, and those of the others one tree further. -/
theorem Positions.cons (h : Positions (nodeAt children t) ps)
    (h' : Positions (forestAt children ts) qs) : Positions (forestAt children (t :: ts))
      (ps.map (0 :: ·) ++ qs.map (·.modifyHead (· + 1))) where
  mem_iff p := by
    rw [List.mem_append, List.mem_map, List.mem_map]
    cases p with
    | nil =>
      have hempty : [] ∉ qs := by
        intro hmem
        obtain ⟨j, q, heq⟩ := h'.exists_cons hmem
        cases heq
      simp [hempty, forestAt]
    | cons i p =>
      cases i with
      | zero =>
        have hlater : ¬ ∃ q ∈ qs, q.modifyHead (· + 1) = 0 :: p := by
          rintro ⟨q, hq, heq⟩
          obtain ⟨j, q, rfl⟩ := h'.exists_cons hq
          simp at heq
        simp [hlater, forestAt, h.mem_iff]
      | succ i =>
        have hlater : (∃ q ∈ qs, q.modifyHead (· + 1) = (i + 1) :: p) ↔ i :: p ∈ qs := by
          constructor
          · rintro ⟨q, hq, heq⟩
            obtain ⟨j, q, rfl⟩ := h'.exists_cons hq
            simp only [List.modifyHead_cons, List.cons.injEq, Nat.add_right_cancel_iff] at heq
            rwa [← heq.1, ← heq.2]
          · exact fun hq => ⟨i :: p, hq, rfl⟩
        rw [hlater, h'.mem_iff]
        simp [forestAt]
  sorted := by
    refine List.pairwise_append.2 ⟨?_, ?_, ?_⟩
    · exact List.pairwise_map.2 (h.sorted.imp fun hlt => .cons hlt)
    · exact List.pairwise_map.2 (h'.sorted.imp fun hlt => lex_modifyHead hlt)
    · intro p hp q hq
      obtain ⟨p', -, rfl⟩ := List.mem_map.1 hp
      obtain ⟨q', hq', rfl⟩ := List.mem_map.1 hq
      obtain ⟨j, r, rfl⟩ := h'.exists_cons hq'
      exact .rel (Nat.succ_pos j)

/-- The positions of a tree: its root, and those below it. -/
theorem Positions.tree (h : Positions (forestAt children (children t)) ps) :
    Positions (nodeAt children t) ([] :: ps) where
  mem_iff p := by
    cases p with
    | nil => simp [nodeAt]
    | cons i p =>
      have hp := h.mem_iff (i :: p)
      simpa [nodeAt, forestAt] using hp
  sorted := by
    refine List.pairwise_cons.2 ⟨fun p hp => ?_, h.sorted⟩
    obtain ⟨i, p, rfl⟩ := h.exists_cons hp
    exact .nil

/-! ### Preorder -/

theorem inPreorder_nil : InPreorder (forestAt children []) [] := by
  refine ⟨[], ⟨fun p => ?_, List.Pairwise.nil⟩, rfl⟩
  cases p <;> simp [forestAt]

/-- The nodes of some trees are those of the first and then those of the others. -/
theorem InPreorder.cons (h : InPreorder (nodeAt children t) nodes)
    (h' : InPreorder (forestAt children ts) nodes') :
    InPreorder (forestAt children (t :: ts)) (nodes ++ nodes') := by
  obtain ⟨ps, hps, rfl⟩ := h
  obtain ⟨qs, hqs, rfl⟩ := h'
  have hfirst : forestAt children (t :: ts) ∘ (0 :: ·) = nodeAt children t := by
    funext p
    simp [forestAt]
  have hlater : forestAt children (t :: ts) ∘ (·.modifyHead (· + 1)) = forestAt children ts := by
    funext p
    cases p <;> simp [forestAt]
  refine ⟨_, hps.cons hqs, ?_⟩
  rw [List.filterMap_append, List.filterMap_map, List.filterMap_map, hfirst, hlater]

/-- The nodes of a tree are its root and then those below it. -/
theorem InPreorder.tree (h : InPreorder (forestAt children (children t)) nodes) :
    InPreorder (nodeAt children t) (t :: nodes) := by
  obtain ⟨ps, hps, rfl⟩ := h
  have hbelow : ps.filterMap (nodeAt children t) =
      ps.filterMap (forestAt children (children t)) := by
    refine List.filterMap_congr fun p hp => ?_
    obtain ⟨i, p, rfl⟩ := hps.exists_cons hp
    rfl
  refine ⟨[] :: ps, hps.tree, ?_⟩
  rw [← hbelow]
  rfl

/-! ### Walks -/

section Walk

variable {visit walk : σ → α → σ}

/-- A walk over some trees visits the nodes of each in preorder, and so those of all. -/
theorem exists_foldl_forest (ts : List α) (h : ∀ t ∈ ts, ∃ nodes,
      InPreorder (nodeAt children t) nodes ∧ ∀ s, walk s t = nodes.foldl visit s) :
    ∃ nodes, InPreorder (forestAt children ts) nodes ∧
      ∀ s, ts.foldl walk s = nodes.foldl visit s := by
  induction ts with
  | nil => exact ⟨[], inPreorder_nil, fun s => rfl⟩
  | cons t ts ih =>
    obtain ⟨ht, hts⟩ := List.forall_mem_cons.1 h
    obtain ⟨nodes, hnodes, hwalk⟩ := ht
    obtain ⟨nodes', hnodes', hwalks⟩ := ih hts
    refine ⟨nodes ++ nodes', hnodes.cons hnodes', fun s => ?_⟩
    rw [List.foldl_append, List.foldl_cons, hwalk, hwalks]

/-- **A walk** that visits a node and then walks over its children visits the nodes of a tree in
preorder. -/
theorem exists_foldl_tree (hwf : WellFounded fun c t => c ∈ children t)
    (hwalk : ∀ s t, walk s t = (children t).foldl walk (visit s t)) (t : α) :
    ∃ nodes, InPreorder (nodeAt children t) nodes ∧ ∀ s, walk s t = nodes.foldl visit s := by
  induction t using hwf.induction with
  | _ t ih =>
    obtain ⟨nodes, hnodes, hbelow⟩ := exists_foldl_forest (children t) ih
    refine ⟨t :: nodes, hnodes.tree, fun s => ?_⟩
    rw [List.foldl_cons, hwalk, hbelow]

end Walk

end Tree

end Lumina
