import Mathlib.Algebra.Group.Defs
import Mathlib.Data.Nat.Find
import Mathlib.Order.Basic

/-!
# Walks from a root, layer by layer

The vertices of a graph whose edges have weights in a monoid are searched from a root in layers:
each round adds the vertices that one edge reaches from those known so far.  After `n` rounds
the known vertices are those at distance at most `n` (`Layered.succ`), and an edge that leaves
them starts in the last layer, so the weight found with a new vertex is that of a shortest walk
(`Layered.distance_source`).  A round that finds nothing ends the search (`Layered.closed`).

## Main definitions

* `Walk` : the walks from the root, with their length and weight.
* `Distance` : the length of the shortest walks to a vertex.
* `Layered` : the vertices at distance at most `n`.
-/

namespace Lumina

namespace Graph

variable {V M : Type*} [Monoid M] {edge : V → V → M → Prop} {root a b : V} {n m : ℕ} {x y : M}

/-- The walks from the root: the vertex reached, the length, and the product of the weights. -/
inductive Walk (edge : V → V → M → Prop) (root : V) : V → ℕ → M → Prop
  | root : Walk edge root root 0 1
  | step {a b : V} {n : ℕ} {x y : M} :
      Walk edge root a n x → edge a b y → Walk edge root b (n + 1) (x * y)

/-- The shortest walks to `b` have length `n`. -/
structure Distance (edge : V → V → M → Prop) (root b : V) (n : ℕ) : Prop where
  walk : ∃ x, Walk edge root b n x
  shortest : ∀ m x, Walk edge root b m x → n ≤ m

theorem distance_root : Distance edge root root 0 :=
  ⟨⟨1, .root⟩, fun _ _ _ => Nat.zero_le _⟩

theorem Distance.unique (h : Distance edge root b n) (h' : Distance edge root b m) : n = m := by
  obtain ⟨x, hx⟩ := h.walk
  obtain ⟨y, hy⟩ := h'.walk
  exact Nat.le_antisymm (h.shortest m y hy) (h'.shortest n x hx)

/-- A vertex that is reached has a distance. -/
theorem exists_distance (h : Walk edge root b n x) : ∃ m ≤ n, Distance edge root b m := by
  classical
  have hex : ∃ k, ∃ x, Walk edge root b k x := ⟨n, x, h⟩
  refine ⟨Nat.find hex, Nat.find_min' hex ⟨x, h⟩, Nat.find_spec hex, ?_⟩
  intro m y hm
  exact Nat.find_min' hex ⟨y, hm⟩

/-- The known vertices are those at distance at most `n`. -/
def Layered (edge : V → V → M → Prop) (root : V) (n : ℕ) (known : V → Prop) : Prop :=
  ∀ b, known b ↔ ∃ m ≤ n, Distance edge root b m

variable {known known' : V → Prop}

theorem layered_root : Layered edge root 0 (· = root) := by
  intro b
  constructor
  · rintro rfl
    exact ⟨0, le_rfl, distance_root⟩
  · rintro ⟨m, hm, hb⟩
    obtain rfl := Nat.le_zero.1 hm
    obtain ⟨x, hx⟩ := hb.walk
    cases hx
    rfl

/-- The known vertices are those that a walk of length at most `n` reaches. -/
theorem Layered.known_iff (h : Layered edge root n known) :
    known b ↔ ∃ m ≤ n, ∃ x, Walk edge root b m x := by
  rw [h b]
  constructor
  · rintro ⟨m, hm, hb⟩
    exact ⟨m, hm, hb.walk⟩
  · rintro ⟨m, hm, x, hx⟩
    obtain ⟨k, hk, hb⟩ := exists_distance hx
    exact ⟨k, hk.trans hm, hb⟩

/-- **An edge to a new vertex starts in the last layer**, and the new vertex is in the next. -/
theorem Layered.distance_source (h : Layered edge root n known) (ha : known a) (hb : ¬ known b)
    (hab : edge a b y) : Distance edge root a n ∧ Distance edge root b (n + 1) := by
  obtain ⟨m, hm, hdist⟩ := (h a).1 ha
  obtain ⟨x, hx⟩ := hdist.walk
  obtain ⟨k, hk, hbk⟩ := exists_distance (hx.step hab)
  -- `b` is not within `n`, and at most one further than `a`
  have hlt : n < k := by
    by_contra hle
    exact hb ((h b).2 ⟨k, not_lt.1 hle, hbk⟩)
  obtain rfl : m = n := by omega
  obtain rfl : k = m + 1 := by omega
  exact ⟨hdist, hbk⟩

/-- A vertex of the next layer is reached by an edge from a known one. -/
theorem Layered.exists_edge (h : Layered edge root n known) (hb : Distance edge root b (n + 1)) :
    ¬ known b ∧ ∃ a y, known a ∧ edge a b y := by
  constructor
  · intro hk
    obtain ⟨m, hm, hbm⟩ := (h b).1 hk
    have := hb.unique hbm
    omega
  · obtain ⟨x, hx⟩ := hb.walk
    cases hx with
    | @step a _ _ x y ha hab => exact ⟨a, y, h.known_iff.2 ⟨n, le_rfl, x, ha⟩, hab⟩

/-- **One round of the search.** -/
theorem Layered.succ (h : Layered edge root n known)
    (hround : ∀ b, known' b ↔ known b ∨ ¬ known b ∧ ∃ a y, known a ∧ edge a b y) :
    Layered edge root (n + 1) known' := by
  intro b
  rw [hround b]
  constructor
  · rintro (hb | ⟨hb, a, y, ha, hab⟩)
    · obtain ⟨m, hm, hbm⟩ := (h b).1 hb
      exact ⟨m, hm.trans (Nat.le_succ n), hbm⟩
    · exact ⟨n + 1, le_rfl, (h.distance_source ha hb hab).2⟩
  · rintro ⟨m, hm, hbm⟩
    rcases Nat.le_or_eq_of_le_succ hm with hm | rfl
    · exact .inl ((h b).2 ⟨m, hm, hbm⟩)
    · exact .inr (h.exists_edge hbm)

/-- A search whose round finds nothing knows all vertices that are reached at all. -/
theorem Layered.closed (h : Layered edge root n known)
    (hround : ∀ a b y, known a → edge a b y → known b) (hnm : n ≤ m) :
    Layered edge root m known := by
  induction m, hnm using Nat.le_induction with
  | base => exact h
  | succ m _ ih =>
    refine ih.succ fun b => ⟨.inl, ?_⟩
    rintro (hb | ⟨-, a, y, ha, hab⟩)
    · exact hb
    · exact hround a b y ha hab

end Graph

end Lumina
