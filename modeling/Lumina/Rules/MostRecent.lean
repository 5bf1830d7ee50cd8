import Lumina.Model.AlertConfig

/-!
# The most recent rule wins

The operator creates, edits and deletes rules one request at a time, and the ingester resolves a
threshold from the list of the rules that are left.  Three resolvers take the matching rule with
the greatest id and the fourth lets each rule overwrite the one before.  On a list in the order
of the ids both are the last matching rule (`RuleTarget.effective_eq`), so after any history the
value in use is that of the newest live and enabled rule of its target, and no request about
another target changes it (`rules_mostRecent`).

## Main definitions

* `RuleTarget` : what a rule may override, with the value in use (`RuleTarget.effective`).
* `RuleEvent`, `RuleRun` : the accepted requests, and a run of them.
* `ruleAfter` : the state of a rule after some requests.
* `IsEffective` : the value of the newest live and enabled rule, else the default.
-/

namespace Lumina

/-! ### Targets -/

/-- What a rule overrides. -/
inductive RuleTarget where
  | whale (assetCode : String) (assetIssuer : Option String)
  | holders (assetCode : String) (assetIssuer : Option String)
  | liquidity (poolId : String)
  | medium
  | high
  | critical
  deriving DecidableEq

namespace RuleTarget

/-- The rule is of the target's type and names it. -/
def Names (r : AlertRuleRow) : RuleTarget → Prop
  | whale code issuer =>
    r.ruleType = "whale_threshold" ∧ r.assetCode = some code ∧ r.assetIssuer = issuer
  | holders code issuer =>
    r.ruleType = "holder_drop_pct" ∧ r.assetCode = some code ∧ r.assetIssuer = issuer
  | liquidity poolId => r.ruleType = "liquidity_drop_pct" ∧ r.assetCode = some poolId
  | medium => r.ruleType = "ltv_band" ∧ toAsciiUppercase r.name = "MEDIUM"
  | high => r.ruleType = "ltv_band" ∧ toAsciiUppercase r.name = "HIGH"
  | critical => r.ruleType = "ltv_band" ∧ toAsciiUppercase r.name = "CRITICAL"

instance (r : AlertRuleRow) (target : RuleTarget) : Decidable (Names r target) := by
  cases target <;> unfold Names <;> infer_instance

/-- The value without any rule; the cutoffs have their own. -/
def fallback (default : Decimal) : RuleTarget → Decimal
  | medium => LtvBands.default.medium
  | high => LtvBands.default.high
  | critical => LtvBands.default.critical
  | _ => default

/-- The value in use under a list of rules. -/
def effective (rules : List AlertRuleRow) (default : Decimal) : RuleTarget → Decimal
  | whale code issuer => resolveWhaleThreshold rules code issuer default
  | holders code issuer => resolveHolderDropThresholdPct rules code issuer default
  | liquidity poolId => resolveLiquidityDropThresholdPct rules poolId default
  | medium => (resolveLtvBands rules).medium
  | high => (resolveLtvBands rules).high
  | critical => (resolveLtvBands rules).critical

end RuleTarget

/-! ### Requests -/

/-- What an accepted request did. -/
inductive RuleEvent where
  | created (row : AlertRuleRow)
  | edited (id : ℤ) (threshold : Decimal) (enabled : Bool)
  | removed (id : ℤ)
  deriving DecidableEq

inductive RuleRequest where
  | create (body : NewAlertRule)
  | edit (id : ℤ) (body : UpdateAlertRule)
  | remove (id : ℤ)
  deriving DecidableEq

/-- One request. -/
structure RuleCall where
  /-- How many ids the sequence has given to no row since the last request. -/
  skipped : ℕ
  fault : Fault
  headers : HeaderMap
  request : RuleRequest

/-- The handler of a request. -/
def RuleCall.handle (state : AppState) (call : RuleCall) : Proc Store Error Response :=
  match call.request with
  | .create body => createAlertRule state call.fault call.headers body
  | .edit id body => editAlertRule state call.fault call.headers id body
  | .remove id => removeAlertRule state call.fault call.headers id

/-- What a request did, by its answer. -/
def RuleRequest.event : RuleRequest → Response → Option RuleEvent
  | .create _, ⟨201, .alertRule row⟩ => some (.created row)
  | .edit id body, ⟨200, .alertRule _⟩ => some (.edited id body.threshold body.enabled)
  | .remove id, ⟨204, .empty⟩ => some (.removed id)
  | _, _ => none

/-- The request is accepted with the given event. -/
def Accepts (state : AppState) (s : Store) (call : RuleCall) (e : RuleEvent) (s' : Store) : Prop :=
  ∃ resp, call.handle state { s with alertRuleSeq := s.alertRuleSeq + call.skipped } =
    (.ret resp, s') ∧ call.request.event resp = some e

/-- A run of accepted requests. -/
inductive RuleRun (state : AppState) (s₀ : Store) : List RuleEvent → Store → Prop where
  | nil : RuleRun state s₀ [] s₀
  | snoc {es : List RuleEvent} {s s' : Store} {call : RuleCall} {e : RuleEvent}
      (run : RuleRun state s₀ es s) (step : Accepts state s call e s') :
      RuleRun state s₀ (es ++ [e]) s'

/-- What an event leaves of the rule with the given id. -/
def RuleEvent.after (id : ℕ) (rule : Option AlertRuleRow) : RuleEvent → Option AlertRuleRow
  | created row => if row.id = id then some row else rule
  | edited id' threshold enabled =>
    if id = id' then rule.map fun r => r.edit threshold enabled else rule
  | removed id' => if id = id' then none else rule

/-- The rule with the given id after some requests, if it is live. -/
def ruleAfter (es : List RuleEvent) (id : ℕ) : Option AlertRuleRow :=
  es.foldl (fun rule e => e.after id rule) none

/-- The rule is live after some requests, as it is now. -/
def Live (es : List RuleEvent) (r : AlertRuleRow) : Prop := ruleAfter es r.id = some r

/-- The threshold of the newest live and enabled rule of the target, else the default. -/
def IsEffective (es : List RuleEvent) (target : RuleTarget) (default value : Decimal) : Prop :=
  (∃ r, Live es r ∧ r.enabled = true ∧ target.Names r ∧
      (∀ r', Live es r' → r'.enabled = true → target.Names r' → r'.id ≤ r.id) ∧
      value = r.threshold) ∨
    (∀ r, Live es r → r.enabled = true → ¬ target.Names r) ∧ value = target.fallback default

/-- The request was about the target. -/
def RuleEvent.Concerns (es : List RuleEvent) (target : RuleTarget) : RuleEvent → Prop
  | created row => target.Names row
  | edited id _ _ => ∃ r, Live es r ∧ r.id = id ∧ target.Names r
  | removed id => ∃ r, Live es r ∧ r.id = id ∧ target.Names r

variable {state : AppState} {s₀ s s' : Store} {es : List RuleEvent} {e : RuleEvent}
  {call : RuleCall} {target : RuleTarget} {default value value' : Decimal}
  {rules : List AlertRuleRow} {r : AlertRuleRow}

/-! ### Two mechanisms, one rule -/

/-- `max_by_key` on a list in the order of the ids. -/
theorem maxById_eq_getLast? (h : rules.Pairwise fun a b => a.id ≤ b.id) :
    maxById rules = rules.getLast? := by
  induction rules using List.reverseRecOn with
  | nil => rfl
  | append_singleton l a ih =>
    rw [List.pairwise_append] at h
    have hlast := ih h.1
    rw [maxById, List.foldl_append, List.foldl_cons, List.foldl_nil, ← maxById, hlast,
      List.getLast?_append, List.getLast?_singleton, Option.some_or]
    cases hl : l.getLast? with
    | none => rfl
    | some b =>
      have hle : b.id ≤ a.id := h.2.2 b (List.mem_of_getLast? hl) a (List.mem_singleton_self a)
      simp [hle]

/-- A field that matching rules overwrite holds the threshold of the last of them. -/
theorem foldl_overwrite {β : Type} (f : β → AlertRuleRow → β) (field : β → Decimal)
    (p : AlertRuleRow → Bool)
    (h : ∀ b r, field (f b r) = if p r = true then r.threshold else field b) (init : β) :
    field (rules.foldl f init) =
      (((rules.filter p).getLast?).map (·.threshold)).getD (field init) := by
  induction rules using List.reverseRecOn with
  | nil => rfl
  | append_singleton l a ih =>
    rw [List.foldl_append, List.foldl_cons, List.foldl_nil, h, List.filter_append]
    by_cases hp : p a = true
    · simp [hp]
    · simp [hp, ih]

section Apply

variable (bands : LtvBands) (r : AlertRuleRow)

theorem LtvBands.apply_medium : (bands.apply r).medium =
    if toAsciiUppercase r.name = "MEDIUM" then r.threshold else bands.medium := by
  unfold LtvBands.apply
  split_ifs <;> rfl

theorem LtvBands.apply_high : (bands.apply r).high =
    if toAsciiUppercase r.name = "HIGH" then r.threshold else bands.high := by
  unfold LtvBands.apply
  split_ifs with h <;> simp_all

theorem LtvBands.apply_critical : (bands.apply r).critical =
    if toAsciiUppercase r.name = "CRITICAL" then r.threshold else bands.critical := by
  unfold LtvBands.apply
  split_ifs with h <;> simp_all

end Apply

/-- **The value in use** is that of the last enabled rule of the target, where the rules come in
the order of their ids. -/
theorem RuleTarget.effective_eq (h : rules.Pairwise fun a b => a.id ≤ b.id) (target : RuleTarget)
    (default : Decimal) :
    target.effective rules default =
      (((rules.filter fun r => r.enabled && decide (target.Names r)).getLast?).map
        (·.threshold)).getD (target.fallback default) := by
  have hmax : ∀ p : AlertRuleRow → Bool, maxById (rules.filter p) = (rules.filter p).getLast? :=
    fun p => maxById_eq_getLast? (h.sublist List.filter_sublist)
  cases target with
  | whale code issuer =>
    simp only [effective, resolveWhaleThreshold, resolveRule, List.filter_filter, hmax, Names,
      fallback]
    congr 4
    funext r
    grind
  | holders code issuer =>
    simp only [effective, resolveHolderDropThresholdPct, resolveRule, List.filter_filter, hmax,
      Names, fallback]
    congr 4
    funext r
    grind
  | liquidity poolId =>
    simp only [effective, resolveLiquidityDropThresholdPct, resolveRule, List.filter_filter, hmax,
      Names, fallback]
    congr 4
    funext r
    grind
  | medium =>
    simp only [effective, resolveLtvBands, Names, fallback]
    rw [foldl_overwrite LtvBands.apply (·.medium) (fun r => toAsciiUppercase r.name = "MEDIUM")
      (by simp [LtvBands.apply_medium]), List.filter_filter]
    congr 4
    funext r
    grind
  | high =>
    simp only [effective, resolveLtvBands, Names, fallback]
    rw [foldl_overwrite LtvBands.apply (·.high) (fun r => toAsciiUppercase r.name = "HIGH")
      (by simp [LtvBands.apply_high]), List.filter_filter]
    congr 4
    funext r
    grind
  | critical =>
    simp only [effective, resolveLtvBands, Names, fallback]
    rw [foldl_overwrite LtvBands.apply (·.critical) (fun r => toAsciiUppercase r.name = "CRITICAL")
      (by simp [LtvBands.apply_critical]), List.filter_filter]
    congr 4
    funext r
    grind

/-! ### Runs -/

/-- What a request does to the table. -/
def RuleEvent.apply (rules : List AlertRuleRow) : RuleEvent → List AlertRuleRow
  | created row => rules ++ [row]
  | edited id threshold enabled =>
    rules.map fun r => if r.id = id then r.edit threshold enabled else r
  | removed id => rules.filter fun r => r.id ≠ id

/-- The threshold that a request sets is positive. -/
def RuleEvent.Positive : RuleEvent → Prop
  | created row => 0 < row.threshold
  | edited _ threshold _ => 0 < threshold
  | removed _ => True

theorem NewAlertRule.threshold_pos {body : NewAlertRule} (h : body.invalid = none) :
    0 < body.threshold := by
  by_contra hle
  unfold NewAlertRule.invalid at h
  rw [if_pos (not_lt.1 hle)] at h
  split_ifs at h

/-- **One accepted request** does to the table what its event says; a new rule has a new id, and
thresholds are positive. -/
theorem Accepts.spec (h : Accepts state s call e s') :
    s'.db.alertRules = e.apply s.db.alertRules ∧ s.alertRuleSeq ≤ s'.alertRuleSeq ∧
      (∀ row, e = .created row → s.alertRuleSeq ≤ row.id ∧ row.id < s'.alertRuleSeq) ∧
      e.Positive := by
  obtain ⟨resp, hret, hevent⟩ := h
  have hresp : resp ≠ unauthorized := by
    rintro rfl
    cases hreq : call.request <;> simp [hreq, RuleRequest.event, unauthorized] at hevent
  have herr : resp ≠ err .db := by
    rintro rfl
    cases hreq : call.request <;> simp [hreq, RuleRequest.event, err] at hevent
  have hbad : ∀ message, resp ≠ badRequest message := by
    rintro message rfl
    cases hreq : call.request <;> simp [hreq, RuleRequest.event, badRequest] at hevent
  unfold RuleCall.handle at hret
  cases hreq : call.request with
  | create body =>
    simp only [hreq] at hret hevent
    have hret := guarded_ret hret hresp
    cases hinvalid : body.invalid with
    | some message =>
      simp only [hinvalid, Proc.pure_apply, Prod.mk.injEq, Outcome.ret.injEq] at hret
      exact absurd hret.1.symm (hbad message)
    | none =>
      simp only [hinvalid] at hret
      obtain ⟨rfl, rfl⟩ := (answer_exec_ret hret).resolve_right fun h => herr h.1
      obtain rfl : _ = e := Option.some.inj hevent
      refine ⟨rfl, ?_, ?_, body.threshold_pos hinvalid⟩
      · simp only [insertAlertRule]
        omega
      · rintro row heq
        obtain rfl := RuleEvent.created.inj heq
        simp only [insertAlertRule]
        omega
  | edit id body =>
    simp only [hreq] at hret hevent
    have hret := guarded_ret hret hresp
    split_ifs at hret with hle
    · simp only [Proc.pure_apply, Prod.mk.injEq, Outcome.ret.injEq] at hret
      exact absurd hret.1.symm (hbad _)
    · obtain ⟨rfl, rfl⟩ := (answer_exec_ret hret).resolve_right fun h => herr h.1
      have he : e = .edited id body.threshold body.enabled := by
        cases hrow : (updateAlertRule id body.threshold body.enabled
          { s with alertRuleSeq := s.alertRuleSeq + call.skipped }).1 with
        | none => simp [hrow, RuleRequest.event, Response.notFound] at hevent
        | some row =>
          simpa [hrow, RuleRequest.event, Response.json, eq_comm] using hevent
      subst he
      exact ⟨rfl, Nat.le_add_right _ _, by simp, not_le.1 hle⟩
  | remove id =>
    simp only [hreq] at hret hevent
    have hret := guarded_ret hret hresp
    obtain ⟨rfl, rfl⟩ := (answer_exec_ret hret).resolve_right fun h => herr h.1
    have he : e = .removed id := by
      unfold foundOrNot at hevent
      split_ifs at hevent
      · simpa [RuleRequest.event, Response.noContent, eq_comm] using hevent
      · simp [RuleRequest.event, Response.notFound] at hevent
    subst he
    exact ⟨rfl, Nat.le_add_right _ _, by simp, trivial⟩

theorem ruleAfter_snoc (es : List RuleEvent) (e : RuleEvent) (id : ℕ) :
    ruleAfter (es ++ [e]) id = e.after id (ruleAfter es id) := by
  rw [ruleAfter, List.foldl_append, List.foldl_cons, List.foldl_nil, ← ruleAfter]

@[simp] theorem AlertRuleRow.edit_id (threshold : Decimal) (enabled : Bool) (r : AlertRuleRow) :
    (r.edit threshold enabled).id = r.id := rfl

/-- The rules of the table are the live ones, and the sequence is past their ids. -/
structure TableIs (es : List RuleEvent) (s : Store) : Prop where
  live : ∀ r, r ∈ s.db.alertRules ↔ Live es r
  id : ∀ id r, ruleAfter es id = some r → r.id = id
  below : ∀ r ∈ s.db.alertRules, r.id < s.alertRuleSeq

/-- What an event leaves of a live rule. -/
theorem TableIs.live_apply (h : TableIs es s)
    (hnew : ∀ row, e = .created row → ∀ r ∈ s.db.alertRules, r.id < row.id) (r : AlertRuleRow) :
    r ∈ e.apply s.db.alertRules ↔ e.after r.id (ruleAfter es r.id) = some r := by
  cases e with
  | created row =>
    simp only [RuleEvent.apply, RuleEvent.after, List.mem_append, List.mem_singleton]
    by_cases hid : row.id = r.id
    · have hold : r ∉ s.db.alertRules := fun hr => (hnew row rfl r hr).ne' hid
      simp only [hold, false_or, if_pos hid, Option.some.injEq]
      exact eq_comm
    · have hne : r ≠ row := fun heq => hid (congrArg _ heq.symm)
      simp only [hne, or_false, if_neg hid]
      exact h.live r
  | edited id threshold enabled =>
    simp only [RuleEvent.apply, RuleEvent.after, List.mem_map]
    constructor
    · rintro ⟨q, hq, rfl⟩
      have hlive : ruleAfter es q.id = some q := (h.live q).1 hq
      by_cases hid : (q.id : ℤ) = id
      · simp [hid, hlive]
      · simp [hid, hlive]
    · intro hr
      by_cases hid : (r.id : ℤ) = id
      · rw [if_pos hid, Option.map_eq_some_iff] at hr
        obtain ⟨q, hq, rfl⟩ := hr
        have hqid : q.id = (q.edit threshold enabled).id := rfl
        exact ⟨q, (h.live q).2 hq, by rw [if_pos (by rw [hqid]; exact hid)]⟩
      · rw [if_neg hid] at hr
        exact ⟨r, (h.live r).2 hr, by rw [if_neg hid]⟩
  | removed id =>
    simp only [RuleEvent.apply, RuleEvent.after, List.mem_filter, decide_eq_true_eq]
    by_cases hid : (r.id : ℤ) = id
    · simp [hid]
    · simp only [if_neg hid]
      exact ⟨fun hr => (h.live r).1 hr.1, fun hr => ⟨(h.live r).2 hr, hid⟩⟩

theorem TableIs.step (h : TableIs es s) (hstep : Accepts state s call e s') :
    TableIs (es ++ [e]) s' := by
  obtain ⟨hrules, hseq, hcreated, -⟩ := hstep.spec
  have hnew : ∀ row, e = .created row → ∀ r ∈ s.db.alertRules, r.id < row.id :=
    fun row hrow r hr => (h.below r hr).trans_le (hcreated row hrow).1
  refine ⟨fun r => ?_, fun id r hr => ?_, fun r hr => ?_⟩
  · rw [hrules, Live, ruleAfter_snoc]
    exact h.live_apply hnew r
  · rw [ruleAfter_snoc] at hr
    cases e with
    | created row =>
      simp only [RuleEvent.after] at hr
      split_ifs at hr with hid
      · exact Option.some.inj hr ▸ hid
      · exact h.id id r hr
    | edited id' threshold enabled =>
      simp only [RuleEvent.after] at hr
      split_ifs at hr with hid
      · obtain ⟨q, hq, rfl⟩ := Option.map_eq_some_iff.1 hr
        exact h.id id q hq
      · exact h.id id r hr
    | removed id' =>
      simp only [RuleEvent.after] at hr
      split_ifs at hr with hid
      exact h.id id r hr
  · rw [hrules] at hr
    cases e with
    | created row =>
      rcases List.mem_append.1 hr with hr | hr
      · exact (h.below r hr).trans_le hseq
      · rw [List.mem_singleton.1 hr]
        exact (hcreated row rfl).2
    | edited id' threshold enabled =>
      obtain ⟨q, hq, rfl⟩ := List.mem_map.1 hr
      have hid : (if (q.id : ℤ) = id' then q.edit threshold enabled else q).id = q.id := by
        split_ifs <;> rfl
      rw [hid]
      exact (h.below q hq).trans_le hseq
    | removed id' => exact (h.below r (List.mem_of_mem_filter hr)).trans_le hseq

/-- **After any run the table holds the live rules.** -/
theorem RuleRun.tableIs (hs : s₀.db.alertRules = []) (h : RuleRun state s₀ es s) :
    TableIs es s := by
  induction h with
  | nil => exact ⟨by simp [hs, Live, ruleAfter], by simp [ruleAfter], by simp [hs]⟩
  | snoc _ hstep ih => exact ih.step hstep

/-! ### The value in use -/

/-- The thresholds of the table are positive. -/
theorem RuleRun.threshold_pos (hs : s₀.db.alertRules = []) (h : RuleRun state s₀ es s)
    (hr : r ∈ s.db.alertRules) : 0 < r.threshold := by
  induction h generalizing r with
  | nil => simp [hs] at hr
  | @snoc es s s' call e run step ih =>
    obtain ⟨hrules, -, -, hpositive⟩ := step.spec
    rw [hrules] at hr
    cases e with
    | created row =>
      rcases List.mem_append.1 hr with hr | hr
      · exact ih hr
      · obtain rfl := List.mem_singleton.1 hr
        exact hpositive
    | edited id threshold enabled =>
      obtain ⟨r', hr', rfl⟩ := List.mem_map.1 hr
      split_ifs
      · exact hpositive
      · exact ih hr'
    | removed id => exact ih (List.mem_filter.1 hr).1

theorem mem_listAlertRules {db : Db} : r ∈ listAlertRules db ↔ r ∈ db.alertRules :=
  (List.perm_insertionSort _ _).mem_iff

theorem pairwise_listAlertRules (db : Db) :
    (listAlertRules db).Pairwise fun a b => a.id ≤ b.id := by
  have : Std.Total fun a b : AlertRuleRow => a.id ≤ b.id := ⟨fun a b => le_total a.id b.id⟩
  have : IsTrans AlertRuleRow fun a b : AlertRuleRow => a.id ≤ b.id :=
    ⟨fun _ _ _ hab hbc => hab.trans hbc⟩
  exact List.pairwise_insertionSort _ _

/-- The value in use is that of the newest live and enabled rule. -/
theorem TableIs.isEffective (h : TableIs es s) (target : RuleTarget) (default : Decimal) :
    IsEffective es target default (target.effective (listAlertRules s.db) default) := by
  have hsorted := pairwise_listAlertRules s.db
  rw [target.effective_eq hsorted]
  have hmem : ∀ r, r ∈ (listAlertRules s.db).filter
      (fun r => r.enabled && decide (target.Names r)) ↔
        Live es r ∧ r.enabled = true ∧ target.Names r := by
    intro r
    rw [List.mem_filter, mem_listAlertRules, h.live, Bool.and_eq_true, decide_eq_true_eq]
  have hlast := hsorted.filter fun r => r.enabled && decide (target.Names r)
  generalize (listAlertRules s.db).filter (fun r => r.enabled && decide (target.Names r)) = l at *
  rcases List.eq_nil_or_concat l with rfl | ⟨init, r, rfl⟩
  · exact .inr ⟨fun r hr hen hn => List.not_mem_nil ((hmem r).2 ⟨hr, hen, hn⟩), rfl⟩
  · rw [List.concat_eq_append] at *
    obtain ⟨hlive, hen, hn⟩ := (hmem r).1 (by simp)
    refine .inl ⟨r, hlive, hen, hn, fun r' hr' hen' hn' => ?_, by simp⟩
    rcases List.mem_append.1 ((hmem r').2 ⟨hr', hen', hn'⟩) with hr' | hr'
    · exact (List.pairwise_append.1 hlast).2.2 r' hr' r (List.mem_singleton_self r)
    · rw [List.mem_singleton.1 hr']

/-- The value depends on the live rules of the target only. -/
theorem IsEffective.unique {es' : List RuleEvent} (h : IsEffective es target default value)
    (h' : IsEffective es' target default value')
    (hlive : ∀ r, r.enabled = true → target.Names r → (Live es r ↔ Live es' r)) :
    value = value' := by
  rcases h with ⟨r, hr, hen, hn, hmax, rfl⟩ | ⟨hnone, rfl⟩
  · rcases h' with ⟨r', hr', hen', hn', hmax', rfl⟩ | ⟨hnone', -⟩
    · have hr'' := (hlive r' hen' hn').2 hr'
      have hid : r.id = r'.id :=
        le_antisymm (hmax' r ((hlive r hen hn).1 hr) hen hn) (hmax r' hr'' hen' hn')
      have heq : some r = some r' := by
        rw [← hr, ← hr'', hid]
      rw [Option.some.inj heq]
    · exact absurd hn (hnone' r ((hlive r hen hn).1 hr) hen)
  · rcases h' with ⟨r', hr', hen', hn', -, -⟩ | ⟨-, rfl⟩
    · exact absurd hn' (hnone r' ((hlive r' hen' hn').2 hr') hen')
    · rfl

/-- A request about another target leaves the live rules of a target as they are. -/
theorem TableIs.live_iff_of_not_concerns (h : TableIs es s)
    (hnew : ∀ row, e = .created row → ∀ r ∈ s.db.alertRules, r.id < row.id)
    (he : ¬ e.Concerns es target) (hn : target.Names r) : Live es r ↔ Live (es ++ [e]) r := by
  rw [← h.live, Live, ruleAfter_snoc, ← h.live_apply hnew]
  cases e with
  | created row =>
    have hne : r ≠ row := fun heq => he (heq ▸ hn)
    simp [RuleEvent.apply, hne]
  | edited id threshold enabled =>
    simp only [RuleEvent.apply, List.mem_map]
    constructor
    · intro hr
      have hid : (r.id : ℤ) ≠ id := fun hid => he ⟨r, (h.live r).1 hr, hid, hn⟩
      exact ⟨r, hr, if_neg hid⟩
    · rintro ⟨q, hq, rfl⟩
      split_ifs at hn ⊢ with hid
      · have hq' : target.Names q := by
          cases target <;> exact hn
        exact absurd ⟨q, (h.live q).1 hq, hid, hq'⟩ he
      · exact hq
  | removed id =>
    simp only [RuleEvent.apply, List.mem_filter, decide_eq_true_eq]
    exact ⟨fun hr => ⟨hr, fun hid => he ⟨r, (h.live r).1 hr, hid, hn⟩⟩, fun hr => hr.1⟩

/-- **The most recent rule wins, and only for its own target.**  After any accepted requests the
value in use is that of the newest live and enabled rule of the target; a further request about
another target does not change it. -/
theorem rules_mostRecent (hs : s₀.db.alertRules = []) (h : RuleRun state s₀ es s) :
    (∀ target default,
      IsEffective es target default (target.effective (listAlertRules s.db) default)) ∧
      ∀ call e s', Accepts state s call e s' → ∀ target, ¬ e.Concerns es target → ∀ default,
        target.effective (listAlertRules s'.db) default =
          target.effective (listAlertRules s.db) default := by
  have htable := h.tableIs hs
  refine ⟨htable.isEffective, fun call e s' hstep target he default => ?_⟩
  have hnew : ∀ row, e = .created row → ∀ r ∈ s.db.alertRules, r.id < row.id :=
    fun row hrow r hr => (htable.below r hr).trans_le (hstep.spec.2.2.1 row hrow).1
  exact ((htable.isEffective target default).unique
    ((htable.step hstep).isEffective target default)
    fun r _ hn => htable.live_iff_of_not_concerns hnew he hn).symm

end Lumina

/-! ### A newer rule that is disabled -/

namespace Lumina.Sample

/-- A server without an admin key. -/
def openServer : AppState := ⟨none⟩

def ruleCall (request : RuleRequest) : RuleCall := ⟨0, .ok, [], request⟩

def usdcRule (ruleType : String) (threshold : Decimal) : NewAlertRule :=
  ⟨"usdc", ruleType, some "USDC", some "GA5ZSEJY", threshold, true⟩

/-- The store after a request. -/
def afterCall (s : Store) (call : RuleCall) : Store :=
  (call.handle openServer { s with alertRuleSeq := s.alertRuleSeq + call.skipped }).2

def firstRule : RuleCall := ruleCall (.create (usdcRule "whale_threshold" 5000))

def secondRule : RuleCall := ruleCall (.create (usdcRule "whale_threshold" 2000))

def disableSecond : RuleCall := ruleCall (.edit 2 ⟨2000, false⟩)

def holdersRule : RuleCall := ruleCall (.create (usdcRule "holder_drop_pct" 10))

/-- The row of a rule for USDC. -/
def usdcRow (id : ℕ) (ruleType : String) (threshold : Decimal) (enabled : Bool) : AlertRuleRow :=
  ⟨id, "usdc", ruleType, some "USDC", some "GA5ZSEJY", threshold, enabled⟩

/-- The events of the first three requests. -/
def threeEvents : List RuleEvent :=
  [.created (usdcRow 1 "whale_threshold" 5000 true),
    .created (usdcRow 2 "whale_threshold" 2000 true), .edited 2 2000 false]

def threeCalls : Store := [firstRule, secondRule, disableSecond].foldl afterCall Store.empty

theorem accepts_afterCall {s : Store} {call : RuleCall} {e : RuleEvent} (resp : Response)
    (hresp : (call.handle openServer { s with alertRuleSeq := s.alertRuleSeq + call.skipped }).1 =
      .ret resp) (he : call.request.event resp = some e) :
    Accepts openServer s call e (afterCall s call) :=
  ⟨resp, Prod.ext hresp rfl, he⟩

theorem run_threeCalls : RuleRun openServer Store.empty threeEvents threeCalls := by
  have h₁ : Accepts openServer Store.empty firstRule
      (.created (usdcRow 1 "whale_threshold" 5000 true)) (afterCall Store.empty firstRule) :=
    accepts_afterCall (.created (.alertRule (usdcRow 1 "whale_threshold" 5000 true)))
      (by decide +kernel) rfl
  have h₂ : Accepts openServer (afterCall Store.empty firstRule) secondRule
      (.created (usdcRow 2 "whale_threshold" 2000 true))
      (afterCall (afterCall Store.empty firstRule) secondRule) :=
    accepts_afterCall (.created (.alertRule (usdcRow 2 "whale_threshold" 2000 true)))
      (by decide +kernel) rfl
  have h₃ : Accepts openServer (afterCall (afterCall Store.empty firstRule) secondRule)
      disableSecond (.edited 2 2000 false) threeCalls :=
    accepts_afterCall (.json (.alertRule (usdcRow 2 "whale_threshold" 2000 false)))
      (by decide +kernel) rfl
  exact ((RuleRun.nil.snoc h₁).snoc h₂).snoc h₃

/-- With the second rule disabled the first one is in use again; a rule on the holders of the same
asset leaves it so. -/
theorem usdc_firstRule :
    (RuleTarget.whale "USDC" (some "GA5ZSEJY")).effective (listAlertRules threeCalls.db) 10000 =
        5000 ∧
      IsEffective threeEvents (.whale "USDC" (some "GA5ZSEJY")) 10000
        ((RuleTarget.whale "USDC" (some "GA5ZSEJY")).effective (listAlertRules threeCalls.db)
          10000) ∧
      (RuleTarget.whale "USDC" (some "GA5ZSEJY")).effective
          (listAlertRules (afterCall threeCalls holdersRule).db) 10000 =
        (RuleTarget.whale "USDC" (some "GA5ZSEJY")).effective (listAlertRules threeCalls.db)
          10000 := by
  have h := rules_mostRecent rfl run_threeCalls
  have hstep : Accepts openServer threeCalls holdersRule
      (.created (usdcRow 3 "holder_drop_pct" 10 true)) (afterCall threeCalls holdersRule) :=
    accepts_afterCall (.created (.alertRule (usdcRow 3 "holder_drop_pct" 10 true)))
      (by decide +kernel) rfl
  refine ⟨by decide +kernel, h.1 _ _, h.2 _ _ _ hstep _ ?_ _⟩
  rintro ⟨htype, -⟩
  exact absurd htype (by decide)

end Lumina.Sample
