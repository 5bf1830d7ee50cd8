import Lumina.Model.Liquidations
import Mathlib.Algebra.BigOperators.Group.List.Lemmas
import Mathlib.Algebra.GroupWithZero.Nat

/-!
# The dashboard and the ingester agree

The summary of `/liquidations` is computed in the database by a `CASE`, and the level of a
position in the program by `riskLevelWithBands`.  With the cutoffs of the same rules they agree:
the summary is the grouping of the positions of the same answer by their level
(`liquidations_grouped`), as long as no two rows of one position share a time.

## Main definitions

* `IsGrouping` : a summary is the grouping of some positions by level.
* `DistinctTimes` : no two rows of one position share a time.
-/

namespace Lumina

/-- The positions at a level. -/
def atLevel (bands : LtvBands) (positions : List LendingPositionRow) (level : RiskLevel) :
    List LendingPositionRow :=
  positions.filter fun p => p.level bands = some level

/-- The summary has one bucket for each level that a position has, with the number and the debt of
the positions at that level, and counts each position with an LTV once. -/
structure IsGrouping (bands : LtvBands) (positions : List LendingPositionRow)
    (summary : List LiquidationRiskBucket) : Prop where
  once : (summary.map (·.riskLevel)).Nodup
  names : ∀ name, name ∈ summary.map (·.riskLevel) ↔
    ∃ level, name = level.asStr ∧ atLevel bands positions level ≠ []
  bucket : ∀ b ∈ summary, ∀ level : RiskLevel, b.riskLevel = level.asStr →
    b.positionCount = (atLevel bands positions level).length ∧
      b.totalDebt = ((atLevel bands positions level).map (·.debtAmount)).sum
  counted : (summary.map (·.positionCount)).sum = (positions.filter (·.ltv.isSome)).length

/-- No two rows of one position share a time. -/
def DistinctTimes (db : Db) : Prop :=
  db.lendingPositions.Pairwise fun a b => a.key = b.key → a.time ≠ b.time

variable {bands : LtvBands} {positions l : List LendingPositionRow} {db : Db} {level : RiskLevel}

theorem RiskLevel.asStr_injective : Function.Injective RiskLevel.asStr := by
  intro a b h
  cases a <;> cases b <;> first | rfl | exact absurd h (by decide)

/-- The two implementations of the bands. -/
theorem caseRiskLevel_eq (ltv : Decimal) (bands : LtvBands) :
    caseRiskLevel bands.medium bands.high bands.critical ltv =
      (riskLevelWithBands ltv bands).asStr := by
  unfold caseRiskLevel riskLevelWithBands
  split_ifs <;> rfl

/-! ### Grouping -/

/-- The rows of the summary before they are grouped. -/
def banded (bands : LtvBands) (l : List LendingPositionRow) : List (String × Decimal) :=
  l.filterMap fun r => (r.level bands).map fun level => (level.asStr, r.debtAmount)

theorem banded_filter (l : List LendingPositionRow) (level : RiskLevel) :
    ((banded bands l).filter fun b => b.1 = level.asStr) =
      (atLevel bands l level).map fun p => (level.asStr, p.debtAmount) := by
  induction l with
  | nil => rfl
  | cons p l ih =>
    have hcons : banded bands (p :: l) =
        ((p.level bands).map fun level => (level.asStr, p.debtAmount)).toList ++
          banded bands l := by
      unfold banded
      rw [List.filterMap_cons]
      cases p.level bands <;> rfl
    rw [hcons, List.filter_append, ih]
    cases hp : p.level bands with
    | none => simp [atLevel, hp]
    | some level' =>
      by_cases heq : level' = level
      · simp [atLevel, hp, heq]
      · have hne : level'.asStr ≠ level.asStr := fun h => heq (RiskLevel.asStr_injective h)
        simp [atLevel, hp, heq, hne]

theorem mem_banded_names {name : String} :
    name ∈ (banded bands l).map (·.1) ↔
      ∃ level, name = level.asStr ∧ atLevel bands l level ≠ [] := by
  simp only [banded, List.map_filterMap, List.mem_filterMap, Option.map_map, Option.map_eq_some_iff,
    Function.comp_apply]
  constructor
  · rintro ⟨p, hp, level, hlevel, rfl⟩
    exact ⟨level, rfl, List.ne_nil_of_mem (List.mem_filter.2 ⟨hp, decide_eq_true hlevel⟩)⟩
  · rintro ⟨level, rfl, hne⟩
    obtain ⟨p, hp⟩ := List.exists_mem_of_ne_nil _ hne
    obtain ⟨hp, hlevel⟩ := List.mem_filter.1 hp
    exact ⟨p, hp, level, of_decide_eq_true hlevel, rfl⟩

theorem length_banded (l : List LendingPositionRow) :
    (banded bands l).length = (l.filter (·.ltv.isSome)).length := by
  induction l with
  | nil => rfl
  | cons p l ih =>
    unfold banded at ih ⊢
    rw [List.filterMap_cons, List.filter_cons, LendingPositionRow.level]
    cases p.ltv <;> simp [ih]

/-- The query groups the rows by level. -/
theorem isGrouping_summary (tie : String × String × String → ℕ) (bands : LtvBands) (db : Db) :
    IsGrouping bands (Sql.distinctOn tie LendingPositionRow.key (·.time) db.lendingPositions)
      (liquidationRiskSummary tie bands.medium bands.high bands.critical db) := by
  have hbanded : ∀ l : List LendingPositionRow, (l.filterMap fun r => r.ltv.map fun ltv =>
      (caseRiskLevel bands.medium bands.high bands.critical ltv, r.debtAmount)) =
        banded bands l := by
    intro l
    refine List.filterMap_congr fun r _ => ?_
    rw [LendingPositionRow.level, Option.map_map]
    simp only [caseRiskLevel_eq, Function.comp_def]
  unfold liquidationRiskSummary
  simp only [hbanded]
  generalize Sql.distinctOn tie LendingPositionRow.key (·.time) db.lendingPositions = l
  have hperm : (((banded bands l).map (·.1)).dedup.insertionSort (· ≤ ·)).Perm
      ((banded bands l).map (·.1)).dedup := List.perm_insertionSort _ _
  constructor
  · rw [List.map_map, Function.comp_def]
    simp only [List.map_id']
    exact hperm.nodup_iff.2 (List.nodup_dedup _)
  · intro name
    rw [List.map_map, Function.comp_def]
    simp only [List.map_id']
    rw [hperm.mem_iff, List.mem_dedup, mem_banded_names]
  · intro b hb level hlevel
    obtain ⟨name, -, rfl⟩ := List.mem_map.1 hb
    obtain rfl : name = level.asStr := hlevel
    rw [banded_filter]
    simp [Function.comp_def]
  · rw [List.map_map, Function.comp_def, ← length_banded, (hperm.map _).sum_eq]
    have hcount : ∀ name : String, ((banded bands l).filter fun b => b.1 = name).length =
        ((banded bands l).map (·.1)).count name := by
      intro name
      rw [List.count, List.countP_map, List.countP_eq_length_filter]
      rfl
    simp only [hcount]
    rw [List.sum_map_count_dedup_eq_length, List.length_map]

/-- The order of the positions does not matter. -/
theorem IsGrouping.perm {summary : List LiquidationRiskBucket} (h : IsGrouping bands l summary)
    (hp : l.Perm positions) : IsGrouping bands positions summary := by
  have hlevel : ∀ level, (atLevel bands l level).Perm (atLevel bands positions level) :=
    fun level => hp.filter _
  refine ⟨h.once, fun name => ?_, fun b hb level hname => ?_, ?_⟩
  · rw [h.names]
    refine exists_congr fun level => and_congr_right fun _ => not_congr ?_
    exact ⟨fun hnil => List.Perm.nil_eq (hnil ▸ hlevel level) |>.symm,
      fun hnil => List.Perm.eq_nil (hnil ▸ hlevel level)⟩
  · obtain ⟨hcount, hdebt⟩ := h.bucket b hb level hname
    exact ⟨hcount.trans (hlevel level).length_eq, hdebt.trans ((hlevel level).map _).sum_eq⟩
  · exact h.counted.trans (hp.filter _).length_eq

/-! ### The answer -/

/-- The newest rows do not depend on the choices where no two rows of one position tie. -/
theorem listLendingPositions_eq (h : DistinctTimes db) (tie tie' : String × String × String → ℕ) :
    listLendingPositions tie db =
      Sql.distinctOn tie' LendingPositionRow.key (·.time) db.lendingPositions := by
  have hmap := Sql.distinctOn_map (·.time) (·.1) db.lendingPositions.zipIdx tie
    LendingPositionRow.key
  rw [List.zipIdx_map_fst] at hmap
  rw [Sql.distinctOn_congr h tie' tie, hmap]
  rfl

/-- The answer, by what happens at each query. -/
theorem liquidations_fst (env : LiquidationsEnv) (s : Store) :
    let bands := resolveLtvBands (listAlertRules s.db)
    let summary := liquidationRiskSummary env.tieSummary bands.medium bands.high bands.critical s.db
    let positions := sortByLtv (env.visit.order (listLendingPositions env.tiePositions s.db))
    (liquidations env s).1 = match env.rules, env.summary, env.positions with
      | .ok, .ok, .ok =>
        .ret (.json (.liquidations summary positions (liquidationsNote positions summary)))
      | .ok, .ok, .stop => .stop
      | .ok, .stop, _ => .stop
      | .stop, _, _ => .stop
      | _, _, _ => .ret (err .db) := by
  intro bands summary positions
  unfold liquidations
  cases env.rules <;> cases env.summary <;> cases env.positions <;> rfl

/-- An answer with a summary comes from three queries that went through. -/
theorem liquidations_eq_ret {env : LiquidationsEnv} {s : Store}
    {summary : List LiquidationRiskBucket} {note : String}
    (h : (liquidations env s).1 = .ret (.json (.liquidations summary positions note))) :
    let bands := resolveLtvBands (listAlertRules s.db)
    summary = liquidationRiskSummary env.tieSummary bands.medium bands.high bands.critical s.db ∧
      positions = sortByLtv (env.visit.order (listLendingPositions env.tiePositions s.db)) := by
  intro bands
  rw [liquidations_fst] at h
  split at h
  · simp only [Outcome.ret.injEq, Response.json, Response.mk.injEq, Body.liquidations.injEq] at h
    exact ⟨h.2.1.symm, h.2.2.1.symm⟩
  · simp at h
  · simp at h
  · simp at h
  · simp [Response.json, err] at h

/-- **The dashboard bands as the ingester does.**  Whatever the rules, the summary is the grouping
of the positions of the same answer by the level that `riskLevelWithBands` gives them; and a
higher LTV never has a lower level. -/
theorem liquidations_grouped (h : DistinctTimes db) :
    (∀ (env : LiquidationsEnv) (s : Store) summary positions note, s.db = db →
      (liquidations env s).1 = .ret (.json (.liquidations summary positions note)) →
        IsGrouping (resolveLtvBands (listAlertRules db)) positions summary) ∧
      ∀ (bands : LtvBands) (ltv ltv' : Decimal), ltv ≤ ltv' →
        riskRank (riskLevelWithBands ltv bands) ≤ riskRank (riskLevelWithBands ltv' bands) := by
  refine ⟨fun env s summary positions note hs hret => ?_, fun bands ltv ltv' => riskRank_mono bands⟩
  subst hs
  obtain ⟨rfl, rfl⟩ := liquidations_eq_ret hret
  refine (isGrouping_summary env.tieSummary _ s.db).perm ?_
  rw [← listLendingPositions_eq h env.tiePositions]
  exact ((List.perm_insertionSort _ _).trans (env.visit.perm _)).symm

end Lumina

/-! ### Cutoffs out of order -/

namespace Lumina.Sample

/-- A rule that puts the cutoff of `HIGH` below that of `MEDIUM`. -/
def highRule : AlertRuleRow := ⟨1, "high", "ltv_band", none, none, 60, true⟩

def positionAt (account : String) (time : Time) (debt : Decimal) (ltv : Option Decimal) :
    LendingPositionRow :=
  ⟨time, "blend", "C1", account, "USDC", 100, "EURC", debt, ltv, none⟩

/-- An older row of one position, and the newest rows of three. -/
def dashboardDb : Db :=
  { Db.empty with
    alertRules := [highRule]
    lendingPositions := [positionAt "GA" 0 10 (some 10), positionAt "GA" 1 65 (some 65),
      positionAt "GB" 1 62 (some 62), positionAt "GC" 1 5 none] }

def dashboardEnv : LiquidationsEnv := ⟨.ok, .ok, fun _ => 0, .ok, fun _ => 0, .stored⟩

def dashboardSummary : List LiquidationRiskBucket := [⟨"HIGH", 2, 127⟩]

/-- Two positions are in the band `HIGH`, and the summary says so. -/
theorem dashboard_grouped :
    (liquidations dashboardEnv { Store.empty with db := dashboardDb }).1 =
        .ret (.json (.liquidations dashboardSummary
          [positionAt "GA" 1 65 (some 65), positionAt "GB" 1 62 (some 62),
            positionAt "GC" 1 5 none] "Live data.")) ∧
      IsGrouping ⟨70, 60, 95⟩ [positionAt "GA" 1 65 (some 65), positionAt "GB" 1 62 (some 62),
        positionAt "GC" 1 5 none] dashboardSummary := by
  have hret : (liquidations dashboardEnv { Store.empty with db := dashboardDb }).1 =
      .ret (.json (.liquidations dashboardSummary
        [positionAt "GA" 1 65 (some 65), positionAt "GB" 1 62 (some 62),
          positionAt "GC" 1 5 none] "Live data.")) := by
    decide +kernel
  have hdistinct : DistinctTimes dashboardDb := by
    unfold DistinctTimes
    decide +kernel
  exact ⟨hret, (liquidations_grouped hdistinct).1 dashboardEnv
    { Store.empty with db := dashboardDb } _ _ _ rfl hret⟩

end Lumina.Sample
