import Mathlib.Data.List.Lemmas
import Mathlib.Data.List.Dedup
import Mathlib.Order.Defs.LinearOrder

/-!
# The newest row of a query

`ORDER BY time DESC LIMIT 1` returns a row with the greatest time.  When several rows have it,
the database may return any of them, and another one the next time it is asked.  `latest` takes
the choice as a number: row number `tie` among the tied rows, counted round.

## Main definitions

* `newest` : the rows that the query may return.
* `latest` : the row it returns.
* `distinctOn` : `DISTINCT ON (key) … ORDER BY key, time DESC`, one such row for each key.
-/

namespace Lumina

namespace Sql

variable {α κ τ : Type*} [LinearOrder τ]

/-- The rows that no row is later than. -/
def newest (time : α → τ) (rows : List α) : List α :=
  rows.filter fun r => rows.all fun r' => decide (time r' ≤ time r)

/-- `ORDER BY time DESC LIMIT 1`, with `tie` choosing among the rows that tie. -/
def latest (tie : ℕ) (time : α → τ) (rows : List α) : Option α :=
  (newest time rows)[tie % (newest time rows).length]?

/-- `DISTINCT ON (key) … ORDER BY key, time DESC`, with `tie k` choosing for the key `k`. -/
def distinctOn [DecidableEq κ] (tie : κ → ℕ) (key : α → κ) (time : α → τ) (rows : List α) :
    List α :=
  (rows.map key).dedup.filterMap fun k =>
    latest (tie k) time (rows.filter fun r => decide (key r = k))

variable {time : α → τ} {rows : List α} {tie : ℕ} {r : α}

theorem mem_newest : r ∈ newest time rows ↔ r ∈ rows ∧ ∀ r' ∈ rows, time r' ≤ time r := by
  simp [newest]

theorem latest_mem (h : latest tie time rows = some r) : r ∈ newest time rows :=
  List.mem_of_getElem? h

/-- Any row with the greatest time may be returned. -/
theorem exists_latest (h : r ∈ newest time rows) : ∃ tie, latest tie time rows = some r := by
  obtain ⟨i, hi, rfl⟩ := List.getElem_of_mem h
  exact ⟨i, by rw [latest, Nat.mod_eq_of_lt hi, List.getElem?_eq_getElem hi]⟩

@[simp] theorem latest_nil : latest tie time ([] : List α) = none := by simp [latest, newest]

theorem newest_append_of_lt (h : ∀ r' ∈ rows, time r' < time r) :
    newest time (rows ++ [r]) = [r] := by
  have hold :
      rows.filter (fun q => (rows ++ [r]).all fun r' => decide (time r' ≤ time q)) = [] := by
    rw [List.filter_eq_nil_iff]
    intro q hq
    simp [not_le.2 (h q hq)]
  have hnew : ∀ r' ∈ rows, time r' ≤ time r := fun r' hr' => (h r' hr').le
  rw [newest, List.filter_append, hold]
  simpa using hnew

/-- A row later than all others is returned, whatever the choice. -/
theorem latest_append_of_lt (h : ∀ r' ∈ rows, time r' < time r) :
    latest tie time (rows ++ [r]) = some r := by
  rw [latest, newest_append_of_lt h]
  simp [Nat.mod_one]

theorem exists_newest (time : α → τ) (h : rows ≠ []) : ∃ r, r ∈ newest time rows := by
  induction rows with
  | nil => exact absurd rfl h
  | cons a rows ih =>
    by_cases hr : rows = []
    · exact ⟨a, by simp [mem_newest, hr]⟩
    · obtain ⟨b, hb⟩ := ih hr
      rw [mem_newest] at hb
      rcases le_total (time b) (time a) with hab | hab
      · refine ⟨a, mem_newest.2 ⟨List.mem_cons_self, fun r' hr' => ?_⟩⟩
        rcases List.mem_cons.1 hr' with rfl | hr'
        · exact le_rfl
        · exact (hb.2 r' hr').trans hab
      · refine ⟨b, mem_newest.2 ⟨List.mem_cons_of_mem _ hb.1, fun r' hr' => ?_⟩⟩
        rcases List.mem_cons.1 hr' with rfl | hr'
        · exact hab
        · exact hb.2 r' hr'

/-- The query returns no row only where there is none. -/
theorem latest_eq_none_iff : latest tie time rows = none ↔ rows = [] := by
  constructor
  · intro h
    by_contra hne
    obtain ⟨r, hr⟩ := exists_newest time hne
    have hpos : 0 < (newest time rows).length := List.length_pos_of_mem hr
    rw [latest, List.getElem?_eq_none_iff] at h
    exact absurd (Nat.mod_lt tie hpos) (not_lt.2 h)
  · rintro rfl
    exact latest_nil

theorem mem_distinctOn [DecidableEq κ] {tie : κ → ℕ} {key : α → κ} :
    r ∈ distinctOn tie key time rows ↔
      latest (tie (key r)) time (rows.filter fun q => decide (key q = key r)) = some r := by
  simp only [distinctOn, List.mem_filterMap, List.mem_dedup, List.mem_map]
  constructor
  · rintro ⟨k, -, h⟩
    have hk := (mem_newest.1 (latest_mem h)).1
    rw [List.mem_filter, decide_eq_true_eq] at hk
    rw [hk.2]
    exact h
  · intro h
    have hr := (mem_newest.1 (latest_mem h)).1
    rw [List.mem_filter] at hr
    exact ⟨key r, ⟨r, hr.1, rfl⟩, h⟩

/-! ### Rows with a further column -/

section Map

variable {β : Type*} (f : β → α) (l : List β)

theorem newest_map : newest time (l.map f) = (newest (fun b => time (f b)) l).map f := by
  simp only [newest, List.filter_map, List.all_map, Function.comp_def]

theorem latest_map : latest tie time (l.map f) = (latest tie (fun b => time (f b)) l).map f := by
  rw [latest, latest, newest_map, List.length_map, List.getElem?_map]

variable (time) in
theorem distinctOn_map [DecidableEq κ] (tie : κ → ℕ) (key : α → κ) :
    distinctOn tie key time (l.map f) =
      (distinctOn tie (fun b => key (f b)) (fun b => time (f b)) l).map f := by
  simp only [distinctOn, List.map_map, Function.comp_def, List.filter_map, latest_map,
    List.map_filterMap]

end Map

/-! ### Rows without ties -/

/-- Of rows with distinct times one is the newest. -/
theorem length_newest_le_one (h : rows.Pairwise fun a b => time a ≠ time b) :
    (newest time rows).length ≤ 1 := by
  have hsub : (newest time rows).Pairwise fun a b => time a ≠ time b :=
    h.sublist List.filter_sublist
  match hn : newest time rows with
  | [] => exact Nat.zero_le 1
  | [_] => exact le_rfl
  | a :: b :: rest =>
    have ha : a ∈ newest time rows := by simp [hn]
    have hb : b ∈ newest time rows := by simp [hn]
    rw [hn] at hsub
    have heq : time a = time b := le_antisymm
      ((mem_newest.1 hb).2 a (mem_newest.1 ha).1) ((mem_newest.1 ha).2 b (mem_newest.1 hb).1)
    exact absurd heq ((List.pairwise_cons.1 hsub).1 b (by simp))

/-- Without ties there is nothing to choose. -/
theorem latest_congr (h : rows.Pairwise fun a b => time a ≠ time b) (tie tie' : ℕ) :
    latest tie time rows = latest tie' time rows := by
  have hlen := length_newest_le_one h
  have hfirst : ∀ t, (newest time rows)[t % (newest time rows).length]? =
      (newest time rows)[0]? := by
    intro t
    match hn : newest time rows with
    | [] => rfl
    | [_] => simp [Nat.mod_one]
    | _ :: _ :: _ => simp [hn] at hlen
  rw [latest, latest, hfirst tie, hfirst tie']

theorem distinctOn_congr [DecidableEq κ] {key : α → κ}
    (h : rows.Pairwise fun a b => key a = key b → time a ≠ time b) (tie tie' : κ → ℕ) :
    distinctOn tie key time rows = distinctOn tie' key time rows := by
  refine List.filterMap_congr fun k _ => latest_congr ?_ _ _
  refine (h.sublist List.filter_sublist).imp_of_mem fun {a b} ha hb hab => ?_
  have hka : key a = k := of_decide_eq_true (List.mem_filter.1 ha).2
  have hkb : key b = k := of_decide_eq_true (List.mem_filter.1 hb).2
  exact hab (hka.trans hkb.symm)

end Sql

end Lumina
