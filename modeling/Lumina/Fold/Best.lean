import Mathlib.Data.List.Basic
import Mathlib.Order.Lattice

/-!
# The first of the best

A loop over a list that keeps the best candidate so far and replaces it by a strictly better one
ends with the first of the candidates of the greatest weight.  Not every element need be a
candidate, and the weight is a relation, so that a loop over pairs can be read as a loop over
their first parts (`FirstBest.of_flatMap`).  Where no two weights are the same the order of the
list does not matter (`FirstBest.perm`).

## Main definitions

* `FirstBest l C x w` : `x` is the first of the candidates `C` in `l` with the greatest weight `w`.
* `DistinctWeights C l` : no two candidates in `l` have the same weight.
-/

namespace Lumina

variable {α β W : Type*} [LinearOrder W] {C : α → W → Prop} {l : List α} {x y : α} {v w : W}

/-- The first of the candidates with the greatest weight: those before it weigh less, and those
after it no more. -/
def FirstBest (l : List α) (C : α → W → Prop) (x : α) (w : W) : Prop :=
  ∃ before after, l = before ++ x :: after ∧ C x w ∧
    (∀ y ∈ before, ∀ v, C y v → v < w) ∧ ∀ y ∈ after, ∀ v, C y v → v ≤ w

/-- No two places of a list have candidates of one weight. -/
def DistinctWeights (C : α → W → Prop) (l : List α) : Prop :=
  l.Pairwise fun y z => ∀ v v', C y v → C z v' → v ≠ v'

omit [LinearOrder W] in
theorem DistinctWeights.perm {l' : List α} (h : DistinctWeights C l) (hp : l.Perm l') :
    DistinctWeights C l' :=
  (hp.pairwise_iff fun {_ _} hyz v v' hv hv' => (hyz v' v hv' hv).symm).1 h

namespace FirstBest

theorem mem (h : FirstBest l C x w) : x ∈ l := by
  obtain ⟨before, after, rfl, -⟩ := h
  simp

theorem candidate (h : FirstBest l C x w) : C x w := by
  obtain ⟨before, after, rfl, hx, -⟩ := h
  exact hx

/-- No candidate weighs more. -/
theorem le (hC : ∀ v, C x v → v = w) (h : FirstBest l C x w) (hy : y ∈ l) (hv : C y v) :
    v ≤ w := by
  obtain ⟨before, after, rfl, -, hbefore, hafter⟩ := h
  rcases List.mem_append.1 hy with hy | hy
  · exact (hbefore y hy v hv).le
  · rcases List.mem_cons.1 hy with rfl | hy
    · exact (hC v hv).le
    · exact hafter y hy v hv

/-- There is at most one, where a candidate has one weight. -/
theorem unique (hC : ∀ y v v', C y v → C y v' → v = v') (h : FirstBest l C x w)
    (h' : FirstBest l C y v) : x = y ∧ w = v := by
  obtain ⟨before, after, hl, hx, hbefore, hafter⟩ := h
  obtain ⟨before', after', hl', hy, hbefore', hafter'⟩ := h'
  -- whichever stands first, the other one neither weighs more nor less
  rcases List.append_eq_append_iff.1 (hl.symm.trans hl') with
    ⟨mid, rfl, hmid⟩ | ⟨mid, rfl, hmid⟩
  · cases mid with
    | nil =>
      obtain ⟨rfl, -⟩ := List.cons.inj hmid
      exact ⟨rfl, hC x w v hx hy⟩
    | cons z mid =>
      obtain ⟨rfl, rfl⟩ := List.cons.inj hmid
      exact absurd (hbefore' x (by simp) w hx) (not_lt.2 (hafter y (by simp) v hy))
  · cases mid with
    | nil =>
      obtain ⟨rfl, -⟩ := List.cons.inj hmid
      exact ⟨rfl, hC y w v hx hy⟩
    | cons z mid =>
      obtain ⟨rfl, rfl⟩ := List.cons.inj hmid
      exact absurd (hbefore y (by simp) v hy) (not_lt.2 (hafter' x (by simp) w hx))

/-! ### One more element -/

/-- An element that does not weigh more changes nothing. -/
theorem snoc (h : FirstBest l C x w) (hy : ∀ v, C y v → v ≤ w) : FirstBest (l ++ [y]) C x w := by
  obtain ⟨before, after, rfl, hx, hbefore, hafter⟩ := h
  refine ⟨before, after ++ [y], by simp, hx, hbefore, fun z hz v hv => ?_⟩
  rcases List.mem_append.1 hz with hz | hz
  · exact hafter z hz v hv
  · obtain rfl := List.mem_singleton.1 hz
    exact hy v hv

/-- A candidate that weighs more than all before it. -/
theorem snoc_new (hx : C x w) (hl : ∀ y ∈ l, ∀ v, C y v → v < w) :
    FirstBest (l ++ [x]) C x w :=
  ⟨l, [], rfl, hx, hl, by simp⟩

/-! ### Another order -/

/-- Candidates of distinct weights have the same best one in every order. -/
theorem perm {l' : List α} (hd : DistinctWeights C l) (hC : ∀ y v v', C y v → C y v' → v = v')
    (hp : l.Perm l') (h : FirstBest l C x w) : FirstBest l' C x w := by
  have hx : C x w := h.candidate
  obtain ⟨before, after, rfl⟩ := List.append_of_mem (hp.mem_iff.1 h.mem)
  have hd' : DistinctWeights C (before ++ x :: after) := hd.perm hp
  have hle : ∀ y ∈ before ++ x :: after, ∀ v, C y v → v ≤ w := fun y hy v hv =>
    h.le (fun v hv => hC x v w hv hx) (hp.mem_iff.2 hy) hv
  obtain ⟨-, hafter, hcross⟩ := List.pairwise_append.1 hd'
  refine ⟨before, after, rfl, hx, fun y hy v hv => ?_, fun y hy v hv => ?_⟩
  · exact lt_of_le_of_ne (hle y (by simp [hy]) v hv) (hcross y hy x (by simp) v w hv hx)
  · exact hle y (by simp [hy]) v hv

/-! ### Blocks -/

/-- The block of the best element is the best block, where every candidate block has a candidate of
its weight. -/
theorem of_flatMap {l : List β} {g : β → List α} {C' : β → W → Prop}
    (h : FirstBest (l.flatMap g) C x w) (hC : ∀ b ∈ l, ∀ v, C' b v → ∃ y ∈ g b, C y v)
    (hx : ∀ b ∈ l, x ∈ g b → C' b w) : ∃ b, x ∈ g b ∧ FirstBest l C' b w := by
  induction l with
  | nil => exact absurd h.mem (by simp)
  | cons b l ih =>
    obtain ⟨before, after, hl, hcandidate, hbefore, hafter⟩ := h
    rw [List.flatMap_cons] at hl
    rcases List.append_eq_append_iff.1 hl with ⟨mid, rfl, hmid⟩ | ⟨mid, hb, hmid⟩
    · -- it is in a later block
      obtain ⟨b', hxb', before', after', rfl, hb', hbefore', hafter'⟩ :=
        ih ⟨mid, after, hmid, hcandidate, fun y hy => hbefore y (List.mem_append_right _ hy),
          hafter⟩ (fun b' hb' => hC b' (List.mem_cons_of_mem _ hb'))
          fun b' hb' => hx b' (List.mem_cons_of_mem _ hb')
      refine ⟨b', hxb', b :: before', after', rfl, hb', fun z hz v hv => ?_, hafter'⟩
      rcases List.mem_cons.1 hz with rfl | hz
      · obtain ⟨y, hy, hyv⟩ := hC z List.mem_cons_self v hv
        exact hbefore y (List.mem_append_left _ hy) v hyv
      · exact hbefore' z hz v hv
    · cases mid with
      | nil =>
        -- it is the first element after the block
        rw [List.append_nil] at hb
        rw [List.nil_append] at hmid
        obtain ⟨b', hxb', before', after', rfl, hb', hbefore', hafter'⟩ :=
          ih ⟨[], after, hmid.symm, hcandidate, by simp, hafter⟩
            (fun b' hb' => hC b' (List.mem_cons_of_mem _ hb'))
            fun b' hb' => hx b' (List.mem_cons_of_mem _ hb')
        refine ⟨b', hxb', b :: before', after', rfl, hb', fun z hz v hv => ?_, hafter'⟩
        rcases List.mem_cons.1 hz with rfl | hz
        · obtain ⟨y, hy, hyv⟩ := hC z List.mem_cons_self v hv
          exact hbefore y (hb ▸ hy) v hyv
        · exact hbefore' z hz v hv
      | cons z mid =>
        obtain ⟨rfl, rfl⟩ := List.cons.inj hmid
        have hxb : x ∈ g b := by
          rw [hb]
          simp
        refine ⟨b, hxb, [], l, rfl, hx b List.mem_cons_self hxb, by simp, fun b' hb' v hv => ?_⟩
        obtain ⟨y, hy, hyv⟩ := hC b' (List.mem_cons_of_mem _ hb') v hv
        exact hafter y (List.mem_append_right _ (List.mem_flatMap.2 ⟨b', hb', hy⟩)) v hyv

end FirstBest

end Lumina
