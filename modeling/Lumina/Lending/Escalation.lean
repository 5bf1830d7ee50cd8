import Lumina.Lending.Run

/-!
# Escalation alerts

An event raises an alert when its position is in a higher band than the previous row's LTV is
*now*, under the bands used for the event.  The level at which that row was judged when it was
written is not kept.  An edit of the bands between two events can therefore lift a position
into `HIGH` or `CRITICAL` without an alert: exactly when the edit puts the LTV that the earlier
event left, which was below the band under the old bands, into the band that the later event
reaches, or above it (`Run.alertedSince_iff`).

## Main definitions

* `AlertFor` : an alert of a position at a level or above.
* `AlertedSince` : the alert was recorded since the position was last below its level.
* `Overtaken` : an edit of the bands overtook the position between two events.
-/

namespace Lumina

variable {D : RustDecimal} {X : Codec} {config : Config} {w w' w₀ w₁ : World}
  {init steps : List (Step D X)} {m s : Step D X} {contract account : String}
  {level : RiskLevel}

theorem RiskLevel.alertable_iff : level.alertable = true ↔ 2 ≤ riskRank level := by
  cases level <;> decide

/-- An alert of the position at the level or above. -/
def AlertFor (contract account : String) (level : RiskLevel) (a : AlertRow) : Prop :=
  a.kind = "liquidation_risk" ∧ ("account", some [.str account]) ∈ a.details ∧
    ("pool_contract", some [.str contract]) ∈ a.details ∧
    ∃ level', riskRank level ≤ riskRank level' ∧
      ("risk_level", some [.str level'.asStr]) ∈ a.details

/-- After the event, the position is at the level or above, under the bands of the event. -/
def AtLeast (level : RiskLevel) (s : Step D X) : Prop :=
  ∃ level', s.row.level s.bands = some level' ∧ riskRank level ≤ riskRank level'

/-- If the event `s` leaves the position in `HIGH` or `CRITICAL`, then an alert of at least that
level has been recorded after the events `early`, the last of which is the last one before `s`
that left the position below that level, if there is one. -/
def AlertedSince (config : Config) (contract account : String) (w : World)
    (init : List (Step D X)) (s : Step D X) (w' : World) : Prop :=
  ∀ level, s.row.level s.bands = some level → level.alertable = true →
    ∀ early late w₀, init = early ++ late → Run config w early w₀ →
      (∀ m ∈ late, AtLeast level m) → (∀ m ∈ early.getLast?, ¬ AtLeast level m) →
        ∃ a ∈ w'.db.alerts.drop w₀.db.alerts.length, AlertFor contract account level a

/-- The LTV of a position after a list of events. -/
def ltvAfter (D : RustDecimal) (prices : PriceMap) (es : List Decoded) : Option Decimal :=
  (foldHoldings D es).bind fun h =>
    (computeLendingRisk D h.collateralAmount (prices h.collateralAsset) h.debtAmount
      (prices h.debtAsset)).bind (·.1)

/-- The band of a position after a list of events. -/
def levelAfter (D : RustDecimal) (prices : PriceMap) (bands : LtvBands) (es : List Decoded) :
    Option RiskLevel :=
  (ltvAfter D prices es).map fun ltv => riskLevelWithBands ltv bands

/-- The event `s` reaches an alertable band which the LTV after the event `m` before it was
below under the bands of `m`, but is not below under the bands of `s`. -/
def Overtaken (init : List (Step D X)) (m s : Step D X) : Prop :=
  ∃ level, levelAfter D s.prices s.bands ((init ++ [m, s]).map (·.decoded)) = some level ∧
    level.alertable = true ∧
    (∃ l, levelAfter D m.prices m.bands ((init ++ [m]).map (·.decoded)) = some l ∧
      riskRank l < riskRank level) ∧
    ∃ l, levelAfter D m.prices s.bands ((init ++ [m]).map (·.decoded)) = some l ∧
      riskRank level ≤ riskRank l

/-- Every alert is recorded. -/
def Recording (steps : List (Step D X)) : Prop := ∀ s ∈ steps, s.env.record.insertAlert = .ok

/-! ### Levels -/

theorem AtLeast.mono {level' : RiskLevel} (h : AtLeast level' s)
    (hl : riskRank level ≤ riskRank level') : AtLeast level s := by
  obtain ⟨l, hs, hr⟩ := h
  exact ⟨l, hs, hl.trans hr⟩

theorem AlertFor.mono {level' : RiskLevel} {a : AlertRow}
    (h : AlertFor contract account level' a) (hl : riskRank level ≤ riskRank level') :
    AlertFor contract account level a := by
  obtain ⟨hk, ha, hp, l, hr, hd⟩ := h
  exact ⟨hk, ha, hp, l, hl.trans hr, hd⟩

/-- The test for an escalation. -/
theorem escalation_eq_some_iff {bands : LtvBands} {latest : Option LendingPositionRow}
    {row : LendingPositionRow} {ltv : Decimal} :
    escalation bands latest row = some (ltv, level) ↔
      row.ltv = some ltv ∧ riskLevelWithBands ltv bands = level ∧ level.alertable = true ∧
        ∀ prev, latest.bind (·.level bands) = some prev → riskRank prev < riskRank level := by
  unfold escalation
  cases hv : row.ltv with
  | none => simp
  | some v =>
    simp only [Option.bind_some, Option.some.injEq]
    constructor
    · intro h
      split_ifs at h with hc
      obtain ⟨rfl, rfl⟩ : v = ltv ∧ riskLevelWithBands v bands = level := by simpa using h
      rw [Bool.and_eq_true] at hc
      refine ⟨rfl, rfl, hc.1, ?_⟩
      intro prev hp
      rw [hp] at hc
      simpa using hc.2
    · rintro ⟨rfl, rfl, ha, hp⟩
      rw [if_pos]
      rw [Bool.and_eq_true]
      refine ⟨ha, ?_⟩
      cases hb : latest.bind (·.level bands) with
      | none => rfl
      | some prev => simpa using hp prev hb

/-- The level of a stored row is that of the events up to it. -/
theorem Run.row_level (h : Run config w (init ++ [s]) w')
    (hc : Concerns contract account (init ++ [s])) (hw : NoRows contract account w.db)
    (hi : Increasing init) (bands : LtvBands) :
    s.row.level bands = levelAfter D s.prices bands ((init ++ [s]).map (·.decoded)) := by
  obtain ⟨_, -, -, hr⟩ := h.snoc_cases
  have hrisk := (nextPosition_eq_some hr).2.2.2.2.2
  have hltv : ltvAfter D s.prices ((init ++ [s]).map (·.decoded)) = s.row.ltv := by
    rw [ltvAfter, h.foldHoldings_eq hc hw hi, Option.bind_some]
    exact (congrArg (Option.bind · Prod.fst) hrisk).trans rfl
  rw [levelAfter, hltv, LendingPositionRow.level]

/-! ### The alerts of a run -/

/-- The alert of an escalation is one of the position, at the level reached. -/
theorem alertFor_of_lendingAlert {bands : LtvBands} {latest : Option LendingPositionRow}
    {row : LendingPositionRow} {ltv : Decimal} {alert : Option PendingAlert}
    (he : escalation bands latest row = some (ltv, level))
    (ha : lendingAlert bands latest row = some alert) :
    ∃ p, alert = some p ∧ ∀ id time,
      AlertFor row.poolContract row.account level
        ⟨id, time, p.kind, p.severity.asStr, p.message, p.details, none⟩ := by
  simp only [lendingAlert, he, Option.bind_eq_bind, Option.bind_eq_some_iff] at ha
  obtain ⟨_, -, _, -, ha⟩ := ha
  obtain rfl := Option.some.inj ha
  exact ⟨_, rfl, fun id time => ⟨rfl, by simp, by simp, level, le_rfl, by simp⟩⟩

/-- What an event adds to the alerts: an alert at its level if it escalated, else nothing. -/
theorem Run.alerts_snoc (h : Run config w (init ++ [s]) w')
    (hc : Concerns contract account (init ++ [s])) (hw : NoRows contract account w.db)
    (hi : Increasing init) (hrec : Recording (init ++ [s])) :
    ∃ w₁, Run config w init w₁ ∧
      ((escalation s.bands ((init.getLast?).map (·.row)) s.row = none ∧
        w'.db.alerts = w₁.db.alerts) ∨
      ∃ ltv level a,
        escalation s.bands ((init.getLast?).map (·.row)) s.row = some (ltv, level) ∧
        AlertFor contract account level a ∧ w'.db.alerts = w₁.db.alerts ++ [a]) := by
  obtain ⟨w₁, h₁, hp, hr⟩ := h.snoc_cases
  obtain ⟨alert, ha, hdb⟩ := processEvent_step hp hr
  obtain ⟨-, -, hpc, hpa⟩ := h.row_spec s (by simp)
  obtain ⟨hsc, hsa⟩ := hc s (by simp)
  have hcontract : s.row.poolContract = contract := hpc.trans hsc
  have haccount : s.row.account = account := hpa.trans hsa
  rw [alertAfter, hcontract, haccount, h₁.latest_holdings hc.init hw hi] at ha
  refine ⟨w₁, h₁, ?_⟩
  cases he : escalation s.bands ((init.getLast?).map (·.row)) s.row with
  | none =>
    obtain rfl : none = alert := by simpa [lendingAlert, he] using ha
    exact .inl ⟨rfl, by rw [hdb]; rfl⟩
  | some r =>
    obtain ⟨ltv, level⟩ := r
    obtain ⟨p, rfl, hfor⟩ := alertFor_of_lendingAlert he ha
    rw [hcontract, haccount] at hfor
    refine .inr ⟨ltv, level, _, rfl, hfor w₁.db.alertSeq s.env.record.now, ?_⟩
    rw [hdb, recordedDb, if_pos (hrec s (by simp))]
    rfl

/-- A list of events leads to one world. -/
theorem Run.unique (h : Run config w steps w₀) (h' : Run config w steps w₁) : w₀ = w₁ := by
  induction steps using List.reverseRecOn generalizing w₀ w₁ with
  | nil =>
    have hnil : ∀ {l : List (Step D X)} {v : World}, l = [] → Run config w l v → v = w := by
      intro l v hl hv
      cases hv with
      | nil => rfl
      | snoc => simp at hl
    rw [hnil rfl h, hnil rfl h']
  | append_singleton init s ih =>
    obtain ⟨v, hv, hp, -⟩ := h.snoc_cases
    obtain ⟨v', hv', hp', -⟩ := h'.snoc_cases
    obtain rfl := ih hv hv'
    simpa using hp.symm.trans hp'

/-- From below an alertable level, an event that reaches it escalates, unless an edit of the
bands overtook the position. -/
theorem Run.escalates {reached : RiskLevel} (h : Run config w (init ++ [s]) w')
    (hc : Concerns contract account (init ++ [s])) (hw : NoRows contract account w.db)
    (hi : Increasing (init ++ [s])) (hover : ∀ pre m, init = pre ++ [m] → ¬ Overtaken pre m s)
    (ha : reached.alertable = true) (hs : s.row.level s.bands = some reached)
    (hbelow : ∀ m ∈ init.getLast?, ¬ AtLeast reached m) :
    ∃ ltv, escalation s.bands ((init.getLast?).map (·.row)) s.row = some (ltv, reached) := by
  obtain ⟨ltv, hltv, hband⟩ := Option.map_eq_some_iff.1 hs
  refine ⟨ltv, escalation_eq_some_iff.2 ⟨hltv, hband, ha, fun prev hprev => ?_⟩⟩
  rcases List.eq_nil_or_concat init with rfl | ⟨pre, m, rfl⟩
  · simp at hprev
  · simp only [List.concat_eq_append] at *
    obtain ⟨w₁, h₁, -⟩ := h.snoc_cases
    simp only [List.getLast?_append, List.getLast?_singleton, Option.some_or, Option.map_some,
      Option.bind_some] at hprev
    by_contra hle
    -- the LTV left by `m` was below the level under the old bands and is not under the new ones
    obtain ⟨v, hv, -⟩ := Option.map_eq_some_iff.1 hprev
    have hm : m.row.level m.bands = some (riskLevelWithBands v m.bands) := by
      simp [LendingPositionRow.level, hv]
    have hlow : riskRank (riskLevelWithBands v m.bands) < riskRank reached := by
      by_contra hge
      exact hbelow m (by simp) ⟨_, hm, not_lt.1 hge⟩
    rw [h.row_level hc hw hi.init] at hs
    rw [h₁.row_level hc.init hw hi.init.init] at hm hprev
    exact hover pre m rfl ⟨reached, by simpa using hs, ha, ⟨_, hm, hlow⟩, prev, hprev,
      not_lt.1 hle⟩

/-- **An alertable level has been alerted since the position was last below it**, where no edit
of the bands overtook the position. -/
theorem Run.alerted (h : Run config w (init ++ [s]) w')
    (hc : Concerns contract account (init ++ [s])) (hw : NoRows contract account w.db)
    (hi : Increasing (init ++ [s])) (hrec : Recording (init ++ [s]))
    (hover : ∀ pre m s', pre ++ [m, s'] <+: init ++ [s] → ¬ Overtaken pre m s')
    (ha : level.alertable = true) (hs : AtLeast level s) {early late : List (Step D X)}
    (hinit : init = early ++ late) (h₀ : Run config w early w₀)
    (hlate : ∀ m ∈ late, AtLeast level m) (hearly : ∀ m ∈ early.getLast?, ¬ AtLeast level m) :
    ∃ a ∈ w'.db.alerts.drop w₀.db.alerts.length, AlertFor contract account level a := by
  induction late using List.reverseRecOn generalizing init s w' with
  | nil =>
    -- the event before `s`, if any, was below the level: `s` escalates
    rw [List.append_nil] at hinit
    subst hinit
    obtain ⟨reached, hreached, hrank⟩ := hs
    have ha' : reached.alertable = true := by
      rw [RiskLevel.alertable_iff] at ha ⊢
      exact ha.trans hrank
    obtain ⟨ltv, hesc⟩ := h.escalates hc hw hi
      (fun pre m hinit => hover pre m s (by simp [hinit])) ha' hreached
      fun m hm hm' => hearly m hm (hm'.mono hrank)
    obtain ⟨w₁, h₁, hcases⟩ := h.alerts_snoc hc hw hi.init hrec
    obtain rfl := h₀.unique h₁
    rcases hcases with ⟨hnone, -⟩ | ⟨ltv', reached', a, hsome, hfor, halerts⟩
    · rw [hesc] at hnone
      simp at hnone
    · obtain ⟨-, rfl⟩ : ltv = ltv' ∧ reached = reached' := by simpa [hesc] using hsome
      rw [halerts]
      exact ⟨a, by simp, hfor.mono hrank⟩
  | append_singleton late m ih =>
    -- the event before `s` was at the level already: its alert is still there
    have hinit' : init = (early ++ late) ++ [m] := by rw [hinit, List.append_assoc]
    subst hinit'
    obtain ⟨w₁, h₁, hcases⟩ := h.alerts_snoc hc hw hi.init hrec
    obtain ⟨a, hmem, hfor⟩ := ih h₁ hc.init hi.init
      (fun s' hs' => hrec s' (List.mem_append_left _ hs'))
      (fun pre m' s' hp => hover pre m' s' (hp.trans (List.prefix_append _ _)))
      (hlate m (by simp)) rfl fun m' hm' => hlate m' (List.mem_append_left _ hm')
    refine ⟨a, ?_, hfor⟩
    rcases hcases with ⟨-, halerts⟩ | ⟨-, -, b, -, -, halerts⟩
    · rw [halerts]
      exact hmem
    · rw [halerts, List.drop_append]
      exact List.mem_append_left _ hmem

/-- **After every event the position's level has been alerted since it was last below it,
exactly when no edit of the bands overtook the position.** -/
theorem Run.alertedSince_iff (h : Run config w steps w') (hc : Concerns contract account steps)
    (hw : NoRows contract account w.db) (hi : Increasing steps) (hrec : Recording steps) :
    (∀ init s w₁, init ++ [s] <+: steps → Run config w (init ++ [s]) w₁ →
      AlertedSince config contract account w init s w₁) ↔
      ∀ init m s, init ++ [m, s] <+: steps → ¬ Overtaken init m s := by
  constructor
  · -- an overtaken position has no alert: `m` was below the level, and `s` does not escalate
    rintro hall init m s hp ⟨level, hlevel, ha, ⟨l, hl, hlow⟩, l', hl', hhigh⟩
    have hp' : (init ++ [m]) ++ [s] <+: steps := by simpa using hp
    obtain ⟨w₁, h₁⟩ := h.of_prefix hp'
    have hi' := hi.of_prefix hp'
    have hc' := hc.of_prefix hp'
    obtain ⟨w₀, h₀, hcases⟩ := h₁.alerts_snoc hc' hw hi'.init fun s' hs' =>
      hrec s' (hp'.subset hs')
    have hm : ∀ bands, m.row.level bands =
        levelAfter D m.prices bands ((init ++ [m]).map (·.decoded)) :=
      h₀.row_level hc'.init hw hi'.init.init
    have hs : s.row.level s.bands = some level := by
      rw [h₁.row_level hc' hw hi'.init, ← hlevel]
      simp
    have hbelow : ¬ AtLeast level m := by
      rintro ⟨l'', hl'', hr⟩
      rw [hm, hl, Option.some.injEq] at hl''
      subst hl''
      omega
    obtain ⟨a, hmem, -⟩ := hall _ s w₁ hp' h₁ level hs ha (init ++ [m]) [] w₀ (by simp) h₀
      (by simp) (by simpa using hbelow)
    rcases hcases with ⟨-, halerts⟩ | ⟨ltv, reached, -, hesc, -⟩
    · rw [halerts, List.drop_length] at hmem
      simp at hmem
    · obtain ⟨hltv, hband, -, hprev⟩ := escalation_eq_some_iff.1 hesc
      have hreached : s.row.level s.bands = some reached := by
        simp [LendingPositionRow.level, hltv, hband]
      obtain rfl : reached = level := by simpa [hs] using hreached.symm
      have hlt := hprev l' (by simpa using (hm s.bands).trans hl')
      omega
  · intro hover init s w₁ hp h₁ level hs ha early late w₀ hinit h₀ hlate hearly
    exact h₁.alerted (hc.of_prefix hp) hw (hi.of_prefix hp)
      (fun s' hs' => hrec s' (hp.subset hs'))
      (fun pre m s' hp' => hover pre m s' (hp'.trans hp)) ha ⟨level, hs, le_rfl⟩ hinit h₀
      hlate hearly

end Lumina

/-! ### Two priced reserves -/

namespace Lumina.Sample

/-- Both reserves are worth one dollar. -/
def dollar : PriceMap := fun asset => if asset = usdc ∨ asset = eurc then some 1 else none

/-- An event processed with these prices and the given bands. -/
def priced (bands : LtvBands) (d : Delivery decimal codec) : Delivery decimal codec :=
  { d with prices := dollar, bands := bands }

/-- The bands after an operator has lowered `HIGH` to 75%. -/
def lowered : LtvBands := ⟨70, 75, 95⟩

/-- 80 are borrowed, 80% of the collateral. -/
def borrow80 : Delivery decimal codec :=
  delivery (event .borrow eurc 80 "2026-01-01T00:00:05Z")
    ⟨.borrow, eurc, account, 80, 1767225605000000⟩ (by decide +kernel)

/-- 10 more are borrowed. -/
def borrow10 : Delivery decimal codec :=
  delivery (event .borrow eurc 10 "2026-01-01T00:00:10Z")
    ⟨.borrow, eurc, account, 10, 1767225610000000⟩ (by decide +kernel)

def borrow80Row : LendingPositionRow :=
  ⟨1767225605000000, "blend", pool, account, usdc, 100, eurc, 80, some 80, some (5 / 4)⟩

def borrow10Row : LendingPositionRow :=
  ⟨1767225610000000, "blend", pool, account, usdc, 100, eurc, 90, some 90, some (10 / 9)⟩

def steps80 : List (Step decimal codec) :=
  [⟨priced .default supply, supplyRow⟩, ⟨priced .default borrow80, borrow80Row⟩]

def borrowed80 : World :=
  { supplied with db := insertLendingPosition borrow80Row supplied.db }

def borrowed90 : World :=
  { borrowed80 with db := insertLendingPosition borrow10Row borrowed80.db }

theorem run_supply_priced :
    Run Config.default World.empty [⟨priced .default supply, supplyRow⟩] supplied :=
  Run.nil.snoc_quiet rfl rfl (by decide +kernel) (by decide +kernel)

theorem run_borrow80 : Run Config.default World.empty steps80 borrowed80 :=
  run_supply_priced.snoc_quiet rfl rfl (by decide +kernel) (by decide +kernel)

/-- A position at 80%, `MEDIUM`, moves to 90% after `HIGH` was lowered to 75%: it is `HIGH`, and
no alert was ever recorded. -/
theorem borrow10_unalerted :
    Run Config.default World.empty (steps80 ++ [⟨priced lowered borrow10, borrow10Row⟩])
        borrowed90 ∧
      Increasing (steps80 ++ [⟨priced lowered borrow10, borrow10Row⟩]) ∧
      borrow80Row.level .default = some .medium ∧ borrow10Row.level lowered = some .high ∧
      borrowed90.db.alerts = [] ∧
      ¬ AlertedSince Config.default pool account World.empty steps80
        ⟨priced lowered borrow10, borrow10Row⟩ borrowed90 := by
  refine ⟨run_borrow80.snoc_quiet rfl rfl (by decide +kernel) (by decide +kernel), ?_,
    by decide +kernel, by decide +kernel, rfl, ?_⟩
  · simp [Increasing, steps80, priced, supply, borrow80, borrow10, delivery]
  · intro h
    obtain ⟨a, ha, -⟩ := h .high (by decide +kernel) (by decide) steps80 [] borrowed80 (by simp)
      run_borrow80 (by simp) (by
        rintro m hm ⟨level, hlevel, hr⟩
        obtain rfl : m = ⟨priced .default borrow80, borrow80Row⟩ := by
          simpa [steps80, eq_comm] using hm
        have hmedium : borrow80Row.level .default = some .medium := by decide +kernel
        obtain rfl : RiskLevel.medium = level := Option.some.inj (hmedium.symm.trans hlevel)
        exact absurd hr (by decide))
    have hnil : borrowed90.db.alerts.drop borrowed80.db.alerts.length = [] := rfl
    rw [hnil] at ha
    simp at ha

/-- All of the collateral is borrowed. -/
def borrow100 : Delivery decimal codec :=
  delivery (event .borrow eurc 100 "2026-01-01T00:00:05Z")
    ⟨.borrow, eurc, account, 100, 1767225605000000⟩ (by decide +kernel)

def borrow100Row : LendingPositionRow :=
  ⟨1767225605000000, "blend", pool, account, usdc, 100, eurc, 100, some 100, some 1⟩

def steps100 : List (Step decimal codec) :=
  [⟨priced .default supply, supplyRow⟩, ⟨priced .default borrow100, borrow100Row⟩]

/-- A loan of all the collateral is alerted as `CRITICAL`. -/
theorem borrow100_alerted :
    ∃ w', Run Config.default World.empty steps100 w' ∧
      ∀ init s w₁, init ++ [s] <+: steps100 → Run Config.default World.empty (init ++ [s]) w₁ →
        AlertedSince Config.default pool account World.empty init s w₁ := by
  have hrun : Run Config.default World.empty steps100 _ :=
    run_supply_priced.snoc_computed (by decide +kernel) (by decide +kernel)
  have hc : Concerns pool account steps100 := by
    intro s hs
    simp only [steps100, List.mem_cons, List.not_mem_nil, or_false] at hs
    rcases hs with rfl | rfl <;> exact ⟨rfl, rfl⟩
  have hi : Increasing steps100 := by
    simp [Increasing, steps100, priced, supply, borrow100, delivery]
  have hrec : Recording steps100 := by
    intro s hs
    simp only [steps100, List.mem_cons, List.not_mem_nil, or_false] at hs
    rcases hs with rfl | rfl <;> rfl
  refine ⟨_, hrun, (hrun.alertedSince_iff hc rfl hi hrec).2 ?_⟩
  rintro init m s hp ⟨-, -, -, ⟨l, hl, -⟩, -⟩
  -- the only event before another one leaves no LTV
  obtain ⟨more, hmore⟩ := hp
  cases init with
  | nil =>
    obtain ⟨rfl, -⟩ : m = ⟨priced .default supply, supplyRow⟩ ∧ _ := by
      simpa [steps100] using hmore
    have hnone : levelAfter decimal dollar .default [supply.decoded] = none := by decide +kernel
    exact absurd (hnone.symm.trans hl) (by simp)
  | cons a init =>
    have hlen := congrArg List.length hmore
    simp [steps100] at hlen
    omega

end Lumina.Sample
