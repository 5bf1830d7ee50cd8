import Mathlib.Order.Interval.Set.Infinite
import Lumina.Model.Ingest
import Lumina.Payments.Whale
import Lumina.Rules.MostRecent

/-!
# Rules that can take effect

The API accepts a rule by its fields, and the ingester looks for the rules of a record by a key of
its own for each kind of record.  An accepted rule is the newest of its target, and so it takes
effect on every record of the target.  Some record has it, unless the rule is about the holders of
an asset and names no issuer: every token has an issuer (`accepted_takesEffect_iff`).

## Main definitions

* `Ingested` : a record of the ingester, with the thresholds that it is judged by.
* `TakesEffect` : some record is judged by the rule.
-/

namespace Lumina

/-- A record of the ingester. -/
inductive Ingested where
  | pool (lp : LiquidityPool)
  | token (a : AssetRecord)
  | payment (p : PaymentRecord)
  | position (row : LendingPositionRow)

/-- The thresholds that a record is judged by.  A payment without an amount is not judged, and
neither is a position without an LTV. -/
def Ingested.thresholds (D : RustDecimal) (config : Config) (rules : List AlertRuleRow) :
    Ingested → List Decimal
  | pool lp => [resolveLiquidityDropThresholdPct rules lp.id config.liquidityDropThresholdPct]
  | token a =>
    [resolveHolderDropThresholdPct rules a.assetCode (some a.assetIssuer)
      config.holderDropThresholdPct]
  | payment p =>
    if p.amount.isSome then [whaleThreshold D config.whaleThreshold rules p] else []
  | position row =>
    let bands := resolveLtvBands rules
    if row.ltv.isSome then [bands.medium, bands.high, bands.critical] else []

/-- Some record is judged by the threshold of the rule, and by every other one that the operator
gives it. -/
def TakesEffect (D : RustDecimal) (config : Config) (s : Store) (r : AlertRuleRow) : Prop :=
  ∃ record : Ingested, r.threshold ∈ record.thresholds D config (listAlertRules s.db) ∧
    ∀ threshold > 0, threshold ∈ record.thresholds D config
      (listAlertRules (updateAlertRule r.id threshold r.enabled s).2.db)

/-- The rule is about the holders of an asset and names no issuer. -/
def AlertRuleRow.NamesNoToken (r : AlertRuleRow) : Prop :=
  r.ruleType = "holder_drop_pct" ∧ r.assetIssuer = none

variable {D : RustDecimal} {config : Config} {rules : List AlertRuleRow} {r : AlertRuleRow}
  {s s' : Store} {state : AppState} {call : RuleCall} {target : RuleTarget}

/-! ### Records and targets -/

/-- What the thresholds of a record are the values of. -/
def Ingested.targets : Ingested → List RuleTarget
  | pool lp => [.liquidity lp.id]
  | token a => [.holders a.assetCode (some a.assetIssuer)]
  | payment p =>
    let asset := resolvePaymentAsset p.assetType p.assetCode p.assetIssuer
    if p.amount.isSome then [.whale asset.1 asset.2] else []
  | position row => if row.ltv.isSome then [.medium, .high, .critical] else []

/-- The default of a kind of record. -/
def Ingested.fallback (D : RustDecimal) (config : Config) : Ingested → Decimal
  | pool _ => config.liquidityDropThresholdPct
  | token _ => config.holderDropThresholdPct
  | payment _ => (D.tryFromF64 config.whaleThreshold).getD 0
  | position _ => 0

theorem Ingested.thresholds_eq (record : Ingested) : record.thresholds D config rules =
    record.targets.map fun target => target.effective rules (record.fallback D config) := by
  cases record with
  | pool lp => rfl
  | token a => rfl
  | payment p =>
    simp only [thresholds, targets]
    split_ifs <;> rfl
  | position row =>
    simp only [thresholds, targets]
    split_ifs <;> rfl

/-- A payment of an asset: of XLM as Horizon has it, and of an issuer's asset.  The type of the
records has one without an issuer for every other code too, which Horizon does not send: it names
the issuer of every asset that is not native. -/
def paymentOf (assetCode : String) (assetIssuer : Option String) : PaymentRecord where
  id := "1"
  pagingToken := "1"
  opType := "payment"
  transactionHash := ""
  fromAccount := none
  toAccount := none
  sourceAccount := none
  assetType :=
    if assetIssuer = none ∧ assetCode = "XLM" then some "native"
    else if assetCode.length ≤ 4 then some "credit_alphanum4" else some "credit_alphanum12"
  assetCode := if assetIssuer = none ∧ assetCode = "XLM" then none else some assetCode
  assetIssuer := assetIssuer
  amount := some "1.0000000"

theorem resolve_paymentOf (code : String) (issuer : Option String) :
    resolvePaymentAsset (paymentOf code issuer).assetType (paymentOf code issuer).assetCode
      (paymentOf code issuer).assetIssuer = (code, issuer) := by
  simp only [paymentOf]
  split_ifs with hnative hshort
  · obtain ⟨rfl, rfl⟩ := hnative
    rfl
  · rfl
  · rfl

/-- A pool of XLM and an asset. -/
def pairPool (poolId : String) : LiquidityPool where
  id := poolId
  feeBp := 30
  totalTrustlines := "12"
  totalShares := "400.0000000"
  reserves := [⟨"native", "1000.0000000"⟩,
    ⟨"USDC:GA5ZSEJYB37JRC5AVCIA5MOP4RHTM335X2KGX3IHOJAPP5RE34K4KZVN", "200.0000000"⟩]

/-- **The records of a rule.**  Every target has one, but the holders of an asset without an
issuer. -/
theorem exists_record (target : RuleTarget) (h : ∀ code, target ≠ .holders code none) :
    ∃ record : Ingested, target ∈ record.targets := by
  have hposition : ∀ target ∈ [RuleTarget.medium, .high, .critical],
      ∃ record : Ingested, target ∈ record.targets := by
    intro target htarget
    exact ⟨.position ⟨0, "blend", "", "", "", 1, "", 0, some 0, none⟩, htarget⟩
  cases target with
  | whale code issuer =>
    refine ⟨.payment (paymentOf code issuer), ?_⟩
    rw [Ingested.targets, resolve_paymentOf]
    exact List.mem_singleton_self _
  | holders code issuer =>
    cases issuer with
    | none => exact absurd rfl (h code)
    | some issuer => exact ⟨.token ⟨code, issuer, 0, "0", 0⟩, List.mem_singleton_self _⟩
  | liquidity poolId => exact ⟨.pool (pairPool poolId), List.mem_singleton_self _⟩
  | medium => exact hposition .medium (by simp)
  | high => exact hposition .high (by simp)
  | critical => exact hposition .critical (by simp)

/-- No token is a target of such a rule. -/
theorem not_names_of_namesNoToken (hr : r.NamesNoToken) (record : Ingested) :
    ∀ target ∈ record.targets, ¬ target.Names r := by
  obtain ⟨htype, hissuer⟩ := hr
  intro target htarget hnames
  cases record with
  | pool lp =>
    obtain rfl := List.mem_singleton.1 htarget
    exact absurd (htype.symm.trans hnames.1) (by decide)
  | token a =>
    obtain rfl := List.mem_singleton.1 htarget
    exact absurd (hissuer.symm.trans hnames.2.2) nofun
  | payment p =>
    simp only [Ingested.targets] at htarget
    split_ifs at htarget
    · obtain rfl := List.mem_singleton.1 htarget
      exact absurd (htype.symm.trans hnames.1) (by decide)
    · cases htarget
  | position row =>
    simp only [Ingested.targets] at htarget
    split_ifs at htarget
    · simp only [List.mem_cons, List.not_mem_nil, or_false] at htarget
      rcases htarget with rfl | rfl | rfl <;>
        exact absurd (htype.symm.trans hnames.1) (by decide)
    · cases htarget

/-! ### The newest rule -/

/-- The rules in the order of their ids, with a newer one. -/
theorem listAlertRules_append {db : Db} (hnew : ∀ q ∈ db.alertRules, q.id < r.id) :
    listAlertRules { db with alertRules := db.alertRules ++ [r] } = listAlertRules db ++ [r] := by
  have hinsert : ∀ (q : AlertRuleRow) (l : List AlertRuleRow), q.id ≤ r.id →
      (l ++ [r]).orderedInsert (fun a b => a.id ≤ b.id) q =
        l.orderedInsert (fun a b => a.id ≤ b.id) q ++ [r] := by
    intro q l hq
    induction l with
    | nil => simp [hq]
    | cons a l ih =>
      by_cases ha : q.id ≤ a.id
      · simp [ha]
      · simp [ha, ih]
  unfold listAlertRules
  generalize db.alertRules = l at hnew
  induction l with
  | nil => rfl
  | cons a l ih =>
    have hl := ih fun q hq => hnew q (List.mem_cons_of_mem _ hq)
    simp only [List.cons_append, List.insertionSort_cons] at hl ⊢
    rw [hl, hinsert a _ (hnew a List.mem_cons_self).le]

/-- **The newest rule** decides the targets that it names, and no others. -/
theorem RuleTarget.effective_append (hsorted : rules.Pairwise fun a b => a.id ≤ b.id)
    (hnew : ∀ q ∈ rules, q.id < r.id) (hr : r.enabled = true) (target : RuleTarget)
    (default : Decimal) : target.effective (rules ++ [r]) default =
      if target.Names r then r.threshold else target.effective rules default := by
  have happend : (rules ++ [r]).Pairwise fun a b => a.id ≤ b.id := by
    refine List.pairwise_append.2 ⟨hsorted, List.pairwise_singleton _ _, fun a ha b hb => ?_⟩
    rw [List.mem_singleton.1 hb]
    exact (hnew a ha).le
  rw [target.effective_eq happend, target.effective_eq hsorted, List.filter_append]
  by_cases hnames : target.Names r
  · simp [hr, hnames]
  · simp [hnames]

/-- The thresholds of a record under a newer rule. -/
theorem Ingested.thresholds_append {db : Db} (hnew : ∀ q ∈ db.alertRules, q.id < r.id)
    (hr : r.enabled = true) (record : Ingested) :
    record.thresholds D config (listAlertRules { db with alertRules := db.alertRules ++ [r] }) =
      record.targets.map fun target => if target.Names r then r.threshold
        else target.effective (listAlertRules db) (record.fallback D config) := by
  rw [listAlertRules_append hnew, record.thresholds_eq]
  refine List.map_congr_left fun target _ => ?_
  exact RuleTarget.effective_append (pairwise_listAlertRules db)
    (fun q hq => hnew q (mem_listAlertRules.1 hq)) hr target _

theorem AlertRuleRow.names_edit {threshold : Decimal} {enabled : Bool} :
    target.Names (r.edit threshold enabled) ↔ target.Names r := by
  cases target <;> exact Iff.rfl

/-- The newest rule edited. -/
theorem updateAlertRule_newest {rules : List AlertRuleRow} (hrules : s.db.alertRules = rules ++ [r])
    (hnew : ∀ q ∈ rules, q.id < r.id) (threshold : Decimal) (enabled : Bool) :
    (updateAlertRule r.id threshold enabled s).2.db =
      { s.db with alertRules := rules ++ [r.edit threshold enabled] } := by
  have hold : rules.map (fun q => if (q.id : ℤ) = r.id then q.edit threshold enabled else q) =
      rules := by
    refine (List.map_congr_left fun q hq => ?_).trans (List.map_id rules)
    rw [if_neg (by exact_mod_cast (hnew q hq).ne)]
    rfl
  unfold updateAlertRule
  rw [hrules, List.map_append, hold]
  simp

/-- The newest rule takes effect exactly if it names a target of some record. -/
theorem takesEffect_newest_iff (hrules : s.db.alertRules = rules ++ [r])
    (hnew : ∀ q ∈ rules, q.id < r.id) (hr : r.enabled = true) : TakesEffect D config s r ↔
      ∃ record : Ingested, ∃ target ∈ record.targets, target.Names r := by
  let db : Db := { s.db with alertRules := rules }
  have hdb : s.db = { db with alertRules := db.alertRules ++ [r] } := by
    rw [← hrules]
  have hedit : ∀ threshold, (updateAlertRule r.id threshold r.enabled s).2.db =
      { db with alertRules := db.alertRules ++ [r.edit threshold r.enabled] } :=
    fun threshold => updateAlertRule_newest hrules hnew threshold r.enabled
  unfold TakesEffect
  refine exists_congr fun record => ?_
  rw [hdb, record.thresholds_append hnew hr]
  constructor
  · rintro ⟨-, hall⟩
    by_contra hnone
    -- otherwise the thresholds of the record do not depend on the rule
    have hfixed : ∀ target ∈ record.targets, ∀ threshold,
        ¬ target.Names (r.edit threshold r.enabled) := fun target htarget threshold hnames =>
      hnone ⟨target, htarget, AlertRuleRow.names_edit.1 hnames⟩
    obtain ⟨threshold, hpos, hne⟩ := (Set.Ioi_infinite (0 : ℚ)).exists_notMem_finset
      (record.targets.map fun target =>
        target.effective (listAlertRules db) (record.fallback D config)).toFinset
    have hmem := hall threshold hpos
    rw [hedit, record.thresholds_append (r := r.edit threshold r.enabled) hnew hr] at hmem
    rw [List.map_congr_left fun target htarget => if_neg (hfixed target htarget threshold)] at hmem
    exact hne (List.mem_toFinset.2 hmem)
  · rintro ⟨target, htarget, hnames⟩
    refine ⟨List.mem_map.2 ⟨target, htarget, if_pos hnames⟩, fun threshold _ => ?_⟩
    rw [hedit, record.thresholds_append (r := r.edit threshold r.enabled) hnew hr]
    exact List.mem_map.2 ⟨target, htarget, if_pos (AlertRuleRow.names_edit.2 hnames)⟩

/-! ### Accepted rules -/

/-- What the validation asks of a rule of each type. -/
theorem NewAlertRule.valid_cases {body : NewAlertRule} (h : body.invalid = none) :
    (body.ruleType = "whale_threshold" ∨ body.ruleType = "holder_drop_pct" ∨
        body.ruleType = "liquidity_drop_pct") ∧ (∃ code, body.assetCode = some code) ∨
      body.ruleType = "ltv_band" ∧ toAsciiUppercase body.name ∈ ["MEDIUM", "HIGH", "CRITICAL"] := by
  unfold NewAlertRule.invalid at h
  split_ifs at h with hname hthreshold hasset hcode hpool hcode hband hlevel
  · refine .inl ⟨hasset.elim .inl fun hholders => .inr (.inl hholders), ?_⟩
    exact Option.ne_none_iff_exists'.1 hcode
  · exact .inl ⟨.inr (.inr hpool), Option.ne_none_iff_exists'.1 hcode⟩
  · exact .inr ⟨hband, hlevel⟩

/-- A rule that the API accepts has the fields of a valid request. -/
theorem Accepts.valid (h : Accepts state s call (.created r) s') :
    (⟨r.name, r.ruleType, r.assetCode, r.assetIssuer, r.threshold, r.enabled⟩ :
      NewAlertRule).invalid = none := by
  obtain ⟨resp, hret, hevent⟩ := h
  unfold RuleCall.handle at hret
  cases hreq : call.request with
  | create body =>
    simp only [hreq] at hret hevent
    have hresp : resp ≠ unauthorized := by
      rintro rfl
      simp [RuleRequest.event, unauthorized] at hevent
    have hret := guarded_ret hret hresp
    cases hinvalid : body.invalid with
    | some message =>
      simp only [hinvalid, Proc.pure_apply, Prod.mk.injEq, Outcome.ret.injEq] at hret
      rw [← hret.1] at hevent
      simp [RuleRequest.event, badRequest] at hevent
    | none =>
      simp only [hinvalid] at hret
      rcases answer_exec_ret hret with ⟨rfl, -⟩ | ⟨rfl, -⟩
      · obtain rfl : _ = r := RuleEvent.created.inj (Option.some.inj hevent)
        exact hinvalid
      · simp [RuleRequest.event, err] at hevent
  | edit id body =>
    simp only [hreq] at hevent
    unfold RuleRequest.event at hevent
    split at hevent <;> simp_all
  | remove id =>
    simp only [hreq] at hevent
    unfold RuleRequest.event at hevent
    split at hevent <;> simp_all

/-- **The targets of an accepted rule.**  It names one that some record has, unless it is about
holders and names no issuer. -/
theorem exists_target_iff (h : (⟨r.name, r.ruleType, r.assetCode, r.assetIssuer, r.threshold,
      r.enabled⟩ : NewAlertRule).invalid = none) :
    (∃ record : Ingested, ∃ target ∈ record.targets, target.Names r) ↔ ¬ r.NamesNoToken := by
  constructor
  · rintro ⟨record, target, htarget, hnames⟩ hno
    exact not_names_of_namesNoToken hno record target htarget hnames
  · intro hno
    obtain ⟨target, hnames, hrecord⟩ : ∃ target : RuleTarget, target.Names r ∧
        ∀ code, target ≠ .holders code none := by
      rcases NewAlertRule.valid_cases h with ⟨htype, code, hcode⟩ | ⟨htype, hband⟩
      · rcases htype with htype | htype | htype
        · exact ⟨.whale code r.assetIssuer, ⟨htype, hcode, rfl⟩, by simp⟩
        · refine ⟨.holders code r.assetIssuer, ⟨htype, hcode, rfl⟩, fun code' heq => ?_⟩
          exact hno ⟨htype, (RuleTarget.holders.inj heq).2⟩
        · exact ⟨.liquidity code, ⟨htype, hcode⟩, by simp⟩
      · simp only [List.mem_cons, List.not_mem_nil, or_false] at hband
        rcases hband with hband | hband | hband
        · exact ⟨.medium, ⟨htype, hband⟩, by simp⟩
        · exact ⟨.high, ⟨htype, hband⟩, by simp⟩
        · exact ⟨.critical, ⟨htype, hband⟩, by simp⟩
    obtain ⟨record, htarget⟩ := exists_record target hrecord
    exact ⟨record, target, htarget, hnames⟩

/-- **An accepted rule can take effect**, whatever rules there are, exactly if it is not about the
holders of an asset without an issuer. -/
theorem accepted_takesEffect_iff (hids : ∀ q ∈ s.db.alertRules, q.id < s.alertRuleSeq)
    (h : Accepts state s call (.created r) s') (hr : r.enabled = true) :
    TakesEffect D config s' r ↔ ¬ (r.ruleType = "holder_drop_pct" ∧ r.assetIssuer = none) := by
  obtain ⟨hrules, -, hcreated, -⟩ := h.spec
  have hnew : ∀ q ∈ s.db.alertRules, q.id < r.id :=
    fun q hq => (hids q hq).trans_le (hcreated r rfl).1
  rw [takesEffect_newest_iff hrules hnew hr, exists_target_iff h.valid]
  rfl

end Lumina

/-! ### A rule about the holders of USDC -/

namespace Lumina.Sample

/-- A rule about the holders of an asset of any issuer. -/
def anyIssuer : NewAlertRule := ⟨"usdc holders", "holder_drop_pct", some "USDC", none, 5, true⟩

def anyIssuerRow : AlertRuleRow :=
  ⟨1, "usdc holders", "holder_drop_pct", some "USDC", none, 5, true⟩

/-- **The rule is accepted and never takes effect.** -/
theorem any_issuer_dead : ¬ ∀ (D : RustDecimal) (config : Config) (state : AppState)
    (s s' : Store) (call : RuleCall) (r : AlertRuleRow),
    (∀ q ∈ s.db.alertRules, q.id < s.alertRuleSeq) → Accepts state s call (.created r) s' →
      r.enabled = true → TakesEffect D config s' r := by
  intro hall
  have haccepts : Accepts openServer Store.empty (ruleCall (.create anyIssuer))
      (.created anyIssuerRow) (afterCall Store.empty (ruleCall (.create anyIssuer))) :=
    accepts_afterCall (.created (.alertRule anyIssuerRow)) (by decide +kernel) rfl
  have h := hall amounts Config.default openServer Store.empty _ _ anyIssuerRow
    (by simp [Store.empty, Db.empty]) haccepts rfl
  have hrows : (afterCall Store.empty (ruleCall (.create anyIssuer))).db.alertRules =
      [] ++ [anyIssuerRow] := by decide +kernel
  obtain ⟨record, target, htarget, hnames⟩ := (takesEffect_newest_iff hrows (by simp) rfl).1 h
  exact not_names_of_namesNoToken ⟨rfl, rfl⟩ record target htarget hnames

/-- The rule about the holders of the USDC of one issuer does. -/
theorem holders_rule_takesEffect : TakesEffect amounts Config.default
    (afterCall threeCalls holdersRule) (usdcRow 3 "holder_drop_pct" 10 true) := by
  have hstep : Accepts openServer threeCalls holdersRule
      (.created (usdcRow 3 "holder_drop_pct" 10 true)) (afterCall threeCalls holdersRule) :=
    accepts_afterCall (.created (.alertRule (usdcRow 3 "holder_drop_pct" 10 true)))
      (by decide +kernel) rfl
  exact (accepted_takesEffect_iff (by decide +kernel) hstep rfl).2 (by decide)

end Lumina.Sample
