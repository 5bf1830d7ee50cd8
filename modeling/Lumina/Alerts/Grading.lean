import Lumina.Snapshots.DropGate
import Lumina.Rules.MostRecent

/-!
# Rules and the grading of alerts

An operator's rule may have any positive threshold.  The severity of a drop doubles the threshold,
which the drop has cleared and which is therefore at most a hundred.  The severity of a whale
payment divides its amount by the threshold, and nothing bounds that quotient: it has a severity
exactly if the amount is no more than the greatest decimal times the threshold
(`rule_grades_iff`).
-/

namespace Lumina

variable {D : RustDecimal} {amount threshold before now drop : Decimal}

/-- A whale payment has a severity exactly if its multiple of the threshold fits. -/
theorem severityForWhaleMultiple_isSome_iff (hP : D.PanicsBeyond) (hpos : 0 < threshold)
    (hamount : 0 ≤ amount) :
    (∃ severity, severityForWhaleMultiple D amount threshold = some severity) ↔
      amount ≤ maxDecimal * threshold := by
  have hdiv : (∃ ratio, D.round (amount / threshold) = some ratio) ↔
      amount ≤ maxDecimal * threshold := by
    rw [← Option.ne_none_iff_exists', Ne, hP, not_lt,
      abs_of_nonneg (div_nonneg hamount hpos.le), div_le_iff₀ hpos]
  rw [← hdiv]
  simp only [severityForWhaleMultiple, RustDecimal.div, if_neg hpos.ne', Option.bind_eq_bind,
    Option.bind_eq_some_iff]
  constructor
  · rintro ⟨severity, ratio, hratio, -⟩
    exact ⟨ratio, hratio⟩
  · rintro ⟨ratio, hratio⟩
    exact ⟨_, ratio, hratio, rfl⟩

/-- A payment of twenty times the threshold is critical: the rounded multiple is no less than
twenty, since twenty is a decimal. -/
theorem severityForWhaleMultiple_critical (hD : D.RoundsToNearest) (hpos : 0 < threshold)
    {severity : Severity} (h : severityForWhaleMultiple D amount threshold = some severity)
    (h20 : 20 * threshold ≤ amount) : severity = .critical := by
  simp only [severityForWhaleMultiple, RustDecimal.div, if_neg hpos.ne', Option.bind_eq_bind] at h
  obtain ⟨ratio, hratio, h⟩ := Option.bind_eq_some_iff.1 h
  have htwenty : IsDecimal ((20 : ℤ) : ℚ) := IsDecimal.of_int (by norm_num)
  have hle : ((20 : ℤ) : ℚ) ≤ ratio := (hD.nearest _ _ hratio).le_of_ge htwenty (by
    push_cast
    rwa [le_div_iff₀ hpos])
  push_cast at hle
  rw [if_pos hle] at h
  exact (Option.some.inj h).symm

/-- A drop that clears the gate is at most a hundred percent, and no less than the threshold. -/
theorem dropGate_bounds (hD : D.RoundsToNearest) (hb : HorizonAmount before)
    (hn : HorizonAmount now) (h : dropGate D before now threshold = some (some drop)) :
    threshold ≤ drop ∧ drop ≤ 100 := by
  have hpos : 0 < before := by
    rcases hb.nonneg.eq_or_lt with rfl | hpos
    · simp [dropGate, percentChange] at h
    · exact hpos
  obtain ⟨r, hr, hpct⟩ := percentChange_eq hD hb hn hpos
  obtain ⟨hlow, -⟩ := rounded_change_bounds hb hn hpos hr
  unfold dropGate at h
  rw [hpct] at h
  simp only [Option.bind_eq_bind, Option.bind_some] at h
  split_ifs at h with hneg hlt
  · exact absurd h (by simp)
  · obtain rfl : -(r * 100) = drop := Option.some.inj (Option.some.inj h)
    exact ⟨not_lt.1 hlt, by linarith⟩
  · exact absurd h (by simp)

/-- A drop that clears the gate has a severity. -/
theorem severityForDrop_isSome (hD : D.RoundsToNearest) (hpos : 0 < threshold)
    (hb : HorizonAmount before) (hn : HorizonAmount now)
    (h : dropGate D before now threshold = some (some drop)) :
    ∃ severity, severityForDrop D drop threshold = some severity := by
  obtain ⟨hle, h100⟩ := dropGate_bounds hD hb hn h
  obtain ⟨twice, htwice⟩ := hD.fits (threshold * 2) (by
    rw [abs_of_nonneg (by linarith)]
    calc threshold * 2 ≤ 200 := by linarith
      _ ≤ maxDecimal := by norm_num [maxDecimal])
  refine ⟨if twice ≤ drop then .critical else .warning, ?_⟩
  simp only [severityForDrop, RustDecimal.mul, htwice, Option.bind_eq_bind, Option.bind_some,
    Option.pure_def]

variable {state : AppState} {s₀ s : Store} {es : List RuleEvent} {r : AlertRuleRow}

/-- **What a rule can grade.**  With the threshold of any rule that the operator's requests have
left, every drop of shares or holders that clears the gate has a severity, and a payment that meets
the threshold has one, critical from twenty times the threshold on, exactly if its amount is no
more than the greatest decimal times the threshold. -/
theorem rule_grades_iff (hD : D.RoundsToNearest) (hP : D.PanicsBeyond)
    (hs : s₀.db.alertRules = []) (hrun : RuleRun state s₀ es s) (hr : r ∈ s.db.alertRules) :
    (∀ opType raw amount, HorizonAmount amount →
      whaleAmount opType raw r.threshold = some amount →
      ((∃ severity, severityForWhaleMultiple D amount r.threshold = some severity ∧
          (20 * r.threshold ≤ amount → severity = .critical)) ↔
        amount ≤ maxDecimal * r.threshold)) ∧
    (∀ before now drop, HorizonAmount before → HorizonAmount now →
      dropGate D before now r.threshold = some (some drop) →
      ∃ severity, severityForLiquidityDrop D drop r.threshold = some severity) ∧
    ∀ (before now : ℤ) (drop : Decimal), 0 ≤ before → before < 2 ^ 31 → 0 ≤ now → now < 2 ^ 31 →
      dropGate D before now r.threshold = some (some drop) →
      ∃ severity, severityForHolderDrop D drop r.threshold = some severity := by
  have hpos := hrun.threshold_pos hs hr
  refine ⟨fun opType raw amount hamount _ => ?_, ?_, ?_⟩
  · rw [← severityForWhaleMultiple_isSome_iff hP hpos hamount.nonneg]
    constructor
    · rintro ⟨severity, hseverity, -⟩
      exact ⟨severity, hseverity⟩
    · rintro ⟨severity, hseverity⟩
      exact ⟨severity, hseverity, severityForWhaleMultiple_critical hD hpos hseverity⟩
  · intro before now drop hb hn h
    exact severityForDrop_isSome hD hpos hb hn h
  · intro before now drop hb hb' hn hn' h
    exact severityForDrop_isSome hD hpos (.of_i32 hb hb') (.of_i32 hn hn') h

end Lumina

/-! ### A rule of one unit in the last place -/

namespace Lumina.Sample

/-- A rule with the least threshold that a decimal can have. -/
def leastRule : RuleCall := ruleCall (.create (usdcRule "whale_threshold" (1 / 10 ^ 28)))

def leastRow : AlertRuleRow := usdcRow 1 "whale_threshold" (1 / 10 ^ 28) true

theorem run_leastRule :
    RuleRun openServer Store.empty [.created leastRow] (afterCall Store.empty leastRule) := by
  have h : Accepts openServer Store.empty leastRule (.created leastRow)
      (afterCall Store.empty leastRule) :=
    accepts_afterCall (.created (.alertRule leastRow)) (by decide +kernel) rfl
  exact RuleRun.nil.snoc h

/-- **A payment of a hundred USDC cannot be graded** under that rule. -/
theorem least_rule_overflows : ¬ ∀ D : RustDecimal, D.RoundsToNearest → D.PanicsBeyond →
    ∀ (state : AppState) (s₀ s : Store) (es : List RuleEvent), s₀.db.alertRules = [] →
      RuleRun state s₀ es s → ∀ r ∈ s.db.alertRules, ∀ opType raw amount, HorizonAmount amount →
        whaleAmount opType raw r.threshold = some amount →
        ∃ severity, severityForWhaleMultiple D amount r.threshold = some severity := by
  intro hall
  obtain ⟨severity, h⟩ := hall (.rounding shares.fromStr) (RustDecimal.rounding_roundsToNearest _)
    (RustDecimal.rounding_panicsBeyond _) openServer Store.empty _ _ rfl run_leastRule leastRow
    (by decide +kernel) "payment" (some 100) 100 ⟨100 * 10 ^ 7, by norm_num, by norm_num⟩
    (by decide +kernel)
  have hfits := (severityForWhaleMultiple_isSome_iff (RustDecimal.rounding_panicsBeyond _)
    (by norm_num [leastRow, usdcRow]) (by norm_num)).1 ⟨severity, h⟩
  norm_num [leastRow, usdcRow, maxDecimal] at hfits

/-- The first rule of the sample is not so small: it grades a payment of a hundred thousand. -/
theorem first_rule_grades : ∃ severity,
    severityForWhaleMultiple (.rounding shares.fromStr) 100000 2000 = some severity ∧
      severity = .critical := by
  have hgrades := rule_grades_iff (RustDecimal.rounding_roundsToNearest shares.fromStr)
    (RustDecimal.rounding_panicsBeyond _) rfl run_threeCalls
    (r := usdcRow 2 "whale_threshold" 2000 false) (by decide +kernel)
  obtain ⟨severity, hseverity, hcritical⟩ := (hgrades.1 "payment" (some 100000) 100000
    ⟨100000 * 10 ^ 7, by norm_num, by norm_num⟩ (by decide +kernel)).2
    (by norm_num [usdcRow, maxDecimal])
  exact ⟨severity, hseverity, hcritical (by norm_num [usdcRow])⟩

end Lumina.Sample
