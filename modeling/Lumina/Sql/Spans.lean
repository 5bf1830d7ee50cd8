import Lumina.Sql.Latest
import Mathlib.Order.Lattice
import Mathlib.Order.OrderDual

/-!
# The first and the last row of each key

A query that joins, by their key, the first row of each key with the last one has one row for each
key whose rows have at least two times, whatever it chooses among rows that tie
(`exists_mem_spans_iff`, `nodup_spans`).

## Main definitions

* `Span` : the first and the last row of a key.
* `spans` : what the query joins.
-/

namespace Lumina

namespace Sql

variable {α β κ τ : Type*} [LinearOrder τ]

/-- A first and a last row of a key, at different times. -/
structure Span (key : α → κ) (time : α → τ) (rows : List α) (k : κ) (e l : α) : Prop where
  first_mem : e ∈ rows
  last_mem : l ∈ rows
  first_key : key e = k
  last_key : key l = k
  lt : time e < time l
  between : ∀ r ∈ rows, key r = k → time e ≤ time r ∧ time r ≤ time l

/-! ### Blocks -/

section Blocks

variable {key : α → κ} {rows : List α} {k : κ}

/-- Rows of one key each, of a list that has each key once. -/
theorem length_filter_key_le_one (h : (rows.map key).Nodup) (p : α → Bool)
    (hp : ∀ r, p r = true → key r = k) : (rows.filter p).length ≤ 1 := by
  have hnodup : ((rows.filter p).map key).Nodup := h.sublist (List.filter_sublist.map _)
  match hl : rows.filter p with
  | [] => exact Nat.zero_le 1
  | [_] => exact le_rfl
  | a :: b :: rest =>
    have ha : key a = k := hp a (List.mem_filter.1 (hl ▸ List.mem_cons_self)).2
    have hb : key b = k := hp b (List.mem_filter.1
      (hl ▸ List.mem_cons_of_mem _ List.mem_cons_self)).2
    rw [hl, List.map_cons, List.map_cons, ha, hb] at hnodup
    exact absurd List.mem_cons_self (List.nodup_cons.1 hnodup).1

/-- Blocks of at most one row each, whose keys differ. -/
theorem nodup_flatMap_of_key {f : α → List β} {key' : β → κ} (h : (rows.map key).Nodup)
    (hkey : ∀ a ∈ rows, ∀ b ∈ f a, key' b = key a)
    (hlength : ∀ a ∈ rows, (f a).length ≤ 1) : ((rows.flatMap f).map key').Nodup := by
  induction rows with
  | nil => exact List.nodup_nil
  | cons a rows ih =>
    rw [List.map_cons, List.nodup_cons] at h
    have hrest := ih h.2 (fun a' ha' => hkey a' (List.mem_cons_of_mem _ ha'))
      fun a' ha' => hlength a' (List.mem_cons_of_mem _ ha')
    rw [List.flatMap_cons, List.map_append, List.nodup_append]
    refine ⟨?_, hrest, fun x hx y hy hxy => h.1 ?_⟩
    · match hf : f a, hlength a List.mem_cons_self with
      | [], _ => exact List.nodup_nil
      | [b], _ => exact List.nodup_singleton _
      | _ :: _ :: _, hle => simp at hle
    · obtain ⟨b, hb, rfl⟩ := List.mem_map.1 hx
      obtain ⟨b', hb', rfl⟩ := List.mem_map.1 hy
      obtain ⟨a', ha', hb'⟩ := List.mem_flatMap.1 hb'
      rw [← hkey a List.mem_cons_self b hb, hxy, hkey a' (List.mem_cons_of_mem _ ha') b' hb']
      exact List.mem_map_of_mem ha'

end Blocks

/-! ### One row for each key -/

section DistinctOn

variable [DecidableEq κ] {tie : κ → ℕ} {key : α → κ} {time : α → τ} {rows : List α} {k : κ} {r : α}

/-- There is one row for each key. -/
theorem map_key_distinctOn : (distinctOn tie key time rows).map key = (rows.map key).dedup := by
  have hkey : ∀ k ∈ (rows.map key).dedup,
      (latest (tie k) time (rows.filter fun r => decide (key r = k))).map key = some k := by
    intro k hk
    obtain ⟨r, hr, rfl⟩ := List.mem_map.1 (List.mem_dedup.1 hk)
    cases h : latest (tie (key r)) time (rows.filter fun q => decide (key q = key r)) with
    | none =>
      have hmem : r ∈ rows.filter fun q => decide (key q = key r) :=
        List.mem_filter.2 ⟨hr, decide_eq_true rfl⟩
      rw [latest_eq_none_iff.1 h] at hmem
      cases hmem
    | some q =>
      have hq := (mem_newest.1 (latest_mem h)).1
      rw [Option.map_some, of_decide_eq_true (List.mem_filter.1 hq).2]
  rw [distinctOn, List.map_filterMap, List.filterMap_congr hkey, List.filterMap_some]

theorem nodup_key_distinctOn : ((distinctOn tie key time rows).map key).Nodup := by
  rw [map_key_distinctOn]
  exact List.nodup_dedup _

/-- The row of a key is one of its newest. -/
theorem newest_of_mem_distinctOn (h : r ∈ distinctOn tie key time rows) :
    r ∈ rows ∧ ∀ q ∈ rows, key q = key r → time q ≤ time r := by
  obtain ⟨hr, hmax⟩ := mem_newest.1 (latest_mem (mem_distinctOn.1 h))
  exact ⟨(List.mem_filter.1 hr).1, fun q hq hk =>
    hmax q (List.mem_filter.2 ⟨hq, decide_eq_true hk⟩)⟩

theorem exists_mem_distinctOn (hr : r ∈ rows) :
    ∃ q ∈ distinctOn tie key time rows, key q = key r := by
  have hk : key r ∈ (distinctOn tie key time rows).map key := by
    rw [map_key_distinctOn, List.mem_dedup]
    exact List.mem_map_of_mem hr
  exact List.mem_map.1 hk

end DistinctOn

/-! ### The join of the two -/

section Spans

variable [DecidableEq κ] {tieFirst tieLast : κ → ℕ} {key : α → κ} {time : α → τ} {rows : List α}
  {k : κ} {e l : α}

/-- The first row of each key with the last one, where that is later. -/
def spans (tieFirst tieLast : κ → ℕ) (key : α → κ) (time : α → τ) (rows : List α) :
    List (α × α) :=
  (distinctOn tieFirst key (fun r => OrderDual.toDual (time r)) rows).flatMap fun e =>
    ((distinctOn tieLast key time rows).filter fun l => key l = key e && time e < time l).map
      fun l => (e, l)

theorem span_of_mem_spans (h : (e, l) ∈ spans tieFirst tieLast key time rows) :
    Span key time rows (key e) e l := by
  obtain ⟨e', he, h⟩ := List.mem_flatMap.1 h
  obtain ⟨l', hl, h⟩ := List.mem_map.1 h
  obtain ⟨rfl, rfl⟩ := Prod.mk.inj h
  obtain ⟨hl, hcond⟩ := List.mem_filter.1 hl
  obtain ⟨hkey, hlt⟩ := Bool.and_eq_true_iff.1 hcond
  obtain ⟨hemem, hfirst⟩ := newest_of_mem_distinctOn he
  obtain ⟨hlmem, hlast⟩ := newest_of_mem_distinctOn hl
  exact
    { first_mem := hemem
      last_mem := hlmem
      first_key := rfl
      last_key := of_decide_eq_true hkey
      lt := of_decide_eq_true hlt
      between := fun r hr hk =>
        ⟨hfirst r hr hk, hlast r hr (hk.trans (of_decide_eq_true hkey).symm)⟩ }

/-- **A key has a row** if its rows have two times. -/
theorem exists_mem_spans_iff :
    (∃ p ∈ spans tieFirst tieLast key time rows, key p.1 = k) ↔
      ∃ a ∈ rows, ∃ b ∈ rows, key a = k ∧ key b = k ∧ time a < time b := by
  constructor
  · rintro ⟨⟨e, l⟩, h, rfl⟩
    have hspan := span_of_mem_spans h
    exact ⟨e, hspan.first_mem, l, hspan.last_mem, rfl, hspan.last_key, hspan.lt⟩
  · rintro ⟨a, ha, b, hb, rfl, hkey, hlt⟩
    obtain ⟨e, he, hek⟩ := @exists_mem_distinctOn _ _ _ _ _ tieFirst key
      (fun r => OrderDual.toDual (time r)) rows a ha
    obtain ⟨l, hl, hlk⟩ := @exists_mem_distinctOn _ _ _ _ _ tieLast key time rows b hb
    have hea : time e ≤ time a := (newest_of_mem_distinctOn he).2 a ha hek.symm
    have hbl : time b ≤ time l := (newest_of_mem_distinctOn hl).2 b hb hlk.symm
    refine ⟨(e, l), List.mem_flatMap.2 ⟨e, he, List.mem_map.2 ⟨l, List.mem_filter.2 ⟨hl, ?_⟩, rfl⟩⟩,
      hek⟩
    rw [Bool.and_eq_true_iff]
    exact ⟨decide_eq_true ((hlk.trans hkey).trans hek.symm),
      decide_eq_true ((hea.trans_lt hlt).trans_le hbl)⟩

theorem nodup_spans : ((spans tieFirst tieLast key time rows).map fun p => key p.1).Nodup := by
  refine nodup_flatMap_of_key nodup_key_distinctOn (fun e _ p hp => ?_) fun e _ => ?_
  · obtain ⟨l, -, rfl⟩ := List.mem_map.1 hp
    rfl
  · rw [List.length_map]
    exact length_filter_key_le_one nodup_key_distinctOn _ fun l hl =>
      of_decide_eq_true (Bool.and_eq_true_iff.1 hl).1

end Spans

end Sql

end Lumina
