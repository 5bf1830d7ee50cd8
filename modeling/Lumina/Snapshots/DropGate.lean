import Lumina.Snapshots.Isolated
import Lumina.Number.Rounding

/-!
# The drop gate

A pool or a token has an alert if what it had in its previous snapshot fell by the threshold or
more, in percent.  The program computes that percentage by a division, whose result is rounded, and
then multiplies by a hundred.  The rounding never changes the answer: the quotient of two amounts
of 63 bits that is not the threshold is farther from it than a decimal is from the quotient
(`percent_le_iff`).  So the comparison is that of the exact numbers (`DropReported`).

## Main definitions

* `Percentage` : the thresholds, in percent, with at most six decimal places.
* `DropReported` : the alert of an exact comparison.
* `ComparesExactly` : a pool or token ends with the alert of the exact comparison.
-/

namespace Lumina

/-- A positive number up to `bound` with at most six decimal places. -/
def Percentage (bound : ℕ) (t : Decimal) : Prop :=
  ∃ n : ℕ, 0 < n ∧ n ≤ bound * 10 ^ 6 ∧ t = n / 10 ^ 6

/-- There is an alert exactly if the quantity fell by the threshold or more since the previous
snapshot, and it is critical exactly if it fell by twice the threshold. -/
def DropReported (previous : Option Decimal) (now thresholdPct : Decimal)
    (alert : Option PendingAlert) : Prop :=
  (alert.isSome ↔
    ∃ before ∈ previous, 0 < before ∧ thresholdPct * before ≤ 100 * (before - now)) ∧
  ∀ a ∈ alert, (a.severity = .critical ↔
    ∃ before ∈ previous, 2 * thresholdPct * before ≤ 100 * (before - now))

/-- How the ingestion of one pool or token ends, whose quantity is `now` and was `previous`: it does
not panic, its alert is that of the exact comparison, and it returns where it parses and its
statements go through. -/
structure ComparesExactly (goesThrough : Prop) (previous : Option Decimal)
    (now thresholdPct : Decimal) (out : Outcome Error (Option PendingAlert)) : Prop where
  ne_panic : out ≠ .panic
  reported : ∀ alert, out = .ret alert → DropReported previous now thresholdPct alert
  returns : goesThrough → ∃ alert, out = .ret alert

variable {D : RustDecimal} {before now t r : Decimal} {env : SnapshotEnv} {time : Time}
  {lp : LiquidityPool} {a : AssetRecord} {rules : List AlertRuleRow} {thresholdPct : Decimal}
  {w : World}

/-! ### Numbers -/

theorem Percentage.pos {bound : ℕ} (h : Percentage bound t) : 0 < t := by
  obtain ⟨n, hn, -, rfl⟩ := h
  exact div_pos (by exact_mod_cast hn) (by norm_num)

theorem Percentage.mono {bound bound' : ℕ} (hle : bound ≤ bound') (h : Percentage bound t) :
    Percentage bound' t := by
  obtain ⟨n, hn, hbound, rfl⟩ := h
  exact ⟨n, hn, hbound.trans (Nat.mul_le_mul_right _ hle), rfl⟩

theorem Percentage.double {bound : ℕ} (h : Percentage bound t) :
    Percentage (2 * bound) (t * 2) := by
  obtain ⟨n, hn, hbound, rfl⟩ := h
  exact ⟨2 * n, by omega, by rw [mul_assoc]; omega, by push_cast; ring⟩

/-- A threshold is a decimal, and so is the fraction that it stands for. -/
theorem Percentage.isDecimal (h : Percentage 200 t) : IsDecimal t ∧ IsDecimal (-(t / 100)) := by
  obtain ⟨n, -, hn, rfl⟩ := h
  have habs : |(n : ℤ)| ≤ 2 ^ 96 - 1 := by
    rw [abs_of_nonneg (Int.natCast_nonneg n)]
    omega
  refine ⟨?_, ?_⟩
  · have hdec : IsDecimal (((n : ℤ) : ℚ) / 10 ^ 6) := IsDecimal.of_div habs (by norm_num)
    rwa [Int.cast_natCast] at hdec
  · have hdec : IsDecimal (((n : ℤ) : ℚ) / 10 ^ 8) := IsDecimal.of_div habs (by norm_num)
    have heq : (n : ℚ) / 10 ^ 6 / 100 = ((n : ℤ) : ℚ) / 10 ^ 8 := by
      rw [Int.cast_natCast, div_div]
      norm_num
    rw [heq]
    exact Scaled.neg hdec

/-- A holder count is an amount like any other. -/
theorem HorizonAmount.of_i32 {n : ℤ} (hn : 0 ≤ n) (hn' : n < 2 ^ 31) :
    HorizonAmount (n : Decimal) := by
  lift n to ℕ using hn
  refine ⟨n * 10 ^ 7, by omega, ?_⟩
  push_cast
  ring

/-- The difference of two amounts is not rounded. -/
theorem HorizonAmount.isDecimal_sub (h : HorizonAmount now) (h' : HorizonAmount before) :
    IsDecimal (now - before) := by
  obtain ⟨m, hm, rfl⟩ := h
  obtain ⟨n, hn, rfl⟩ := h'
  have habs : |(m : ℤ) - n| ≤ 2 ^ 96 - 1 := abs_le.2 ⟨by omega, by omega⟩
  have hdec : IsDecimal (((m : ℤ) - n : ℤ) / 10 ^ 7) := IsDecimal.of_div habs (by norm_num)
  have heq : (m : ℚ) / 10 ^ 7 - n / 10 ^ 7 = (((m : ℤ) - n : ℤ) : ℚ) / 10 ^ 7 := by
    push_cast
    ring
  rw [heq]
  exact hdec

/-! ### The rounded quotient -/

/-- The change from one amount to another is at least a full loss and less than `2 ^ 63` times. -/
theorem change_bounds (hb : HorizonAmount before) (hn : HorizonAmount now) (hpos : 0 < before) :
    -1 ≤ (now - before) / before ∧ (now - before) / before ≤ 2 ^ 63 := by
  have hratio : (now - before) / before = now / before - 1 := by
    rw [sub_div, div_self hpos.ne']
  have hnonneg : 0 ≤ now / before := div_nonneg hn.nonneg hb.nonneg
  obtain ⟨P, hP, rfl⟩ := hb
  obtain ⟨C, hC, rfl⟩ := hn
  have hP1 : (1 : ℚ) ≤ P := by
    have : P ≠ 0 := by rintro rfl; simp at hpos
    exact_mod_cast Nat.pos_of_ne_zero this
  have hle : (C : ℚ) / 10 ^ 7 / (P / 10 ^ 7) ≤ 2 ^ 63 := by
    rw [div_div_div_cancel_right₀ (by norm_num)]
    calc (C : ℚ) / P ≤ C := div_le_self (Nat.cast_nonneg C) hP1
      _ ≤ 2 ^ 63 := by exact_mod_cast hC.trans (by norm_num)
  rw [hratio]
  exact ⟨by linarith, by linarith⟩

/-- The rounded quotient stays within the same bounds. -/
theorem rounded_change_bounds (hb : HorizonAmount before) (hn : HorizonAmount now)
    (hpos : 0 < before) (hr : Nearest IsDecimal ((now - before) / before) r) :
    -1 ≤ r ∧ r ≤ 2 ^ 63 := by
  obtain ⟨hlow, hhigh⟩ := change_bounds hb hn hpos
  have hint : ∀ n : ℤ, |n| ≤ 2 ^ 63 → IsDecimal (n : ℚ) := fun n hn =>
    IsDecimal.of_int (hn.trans (by norm_num))
  have hrlow : ((-1 : ℤ) : ℚ) ≤ r := hr.le_of_ge (hint (-1) (by norm_num)) (by
    push_cast
    exact hlow)
  have hrhigh : r ≤ ((2 ^ 63 : ℤ) : ℚ) := hr.le_of_le (hint (2 ^ 63) (by norm_num)) (by
    push_cast
    exact hhigh)
  push_cast at hrlow hrhigh
  exact ⟨hrlow, by norm_num; exact hrhigh⟩

/-- **The gap**: a loss that is less than the threshold is less by more than the distance of the
loss from a decimal. -/
theorem exists_nearer (hb : HorizonAmount before) (hn : HorizonAmount now) (hpos : 0 < before)
    (hloss : now ≤ before) (ht : Percentage 200 t) (hlt : 100 * (before - now) < t * before) :
    ∃ c, IsDecimal c ∧
      |(now - before) / before - c| < (now - before) / before - -(t / 100) := by
  obtain ⟨hlow, -⟩ := change_bounds hb hn hpos
  have hhigh : (now - before) / before ≤ 0 := div_nonpos_of_nonpos_of_nonneg (by linarith) hb.nonneg
  obtain ⟨c, hc, hnear⟩ := exists_scaled_near (b := 10) (S := 28) (M := 2 ^ 96 - 1)
    (q := (now - before) / before) (by norm_num) (by
      have : |(now - before) / before| ≤ 1 := abs_le.2 ⟨hlow, by linarith⟩
      push_cast
      linarith)
  refine ⟨c, hc, hnear.trans_lt ?_⟩
  rw [Nat.cast_ofNat]
  obtain ⟨P, hP, rfl⟩ := hb
  obtain ⟨C, hC, rfl⟩ := hn
  obtain ⟨n, -, hn, rfl⟩ := ht
  have hPpos : (0 : ℚ) < P := by
    have : P ≠ 0 := by rintro rfl; simp at hpos
    exact_mod_cast Nat.pos_of_ne_zero this
  have hP63 : (P : ℚ) ≤ 2 ^ 63 := by exact_mod_cast hP.trans (by norm_num)
  -- both sides are integers over the same denominator
  have hint : (1 : ℚ) ≤ n * P - 10 ^ 8 * (P - C) := by
    have hlt' : (10 ^ 8 * ((P : ℤ) - C) : ℤ) < n * P := by
      have : (10 : ℚ) ^ 8 * (P - C) < n * P := by linarith
      exact_mod_cast this
    have : (1 : ℤ) ≤ n * P - 10 ^ 8 * (P - C) := by omega
    exact_mod_cast this
  have hgap : ((C : ℚ) / 10 ^ 7 - P / 10 ^ 7) / (P / 10 ^ 7) - -(n / 10 ^ 6 / 100) =
      (n * P - 10 ^ 8 * (P - C)) / (10 ^ 8 * P) := by
    field_simp
    ring
  rw [hgap]
  calc (1 : ℚ) / (2 * 10 ^ 28) < 1 / (10 ^ 8 * 2 ^ 63) := by norm_num
    _ ≤ (1 : ℚ) / (10 ^ 8 * P) := by gcongr
    _ ≤ ((n : ℚ) * P - 10 ^ 8 * (P - C)) / (10 ^ 8 * P) := by gcongr

/-- **The rounded percentage clears a threshold exactly if the exact one does.** -/
theorem percent_le_iff (hb : HorizonAmount before) (hn : HorizonAmount now) (hpos : 0 < before)
    (ht : Percentage 200 t) (hr : Nearest IsDecimal ((now - before) / before) r) :
    t ≤ -(r * 100) ↔ t * before ≤ 100 * (before - now) := by
  obtain ⟨-, hdec⟩ := ht.isDecimal
  constructor
  · intro hle
    by_contra hlt
    rcases le_total now before with hloss | hgain
    · obtain ⟨c, hc, hnear⟩ := exists_nearer hb hn hpos hloss ht (not_le.1 hlt)
      have := hr.gt_of_near hc hnear
      linarith
    · -- a gain is not rounded to a loss
      have hzero : IsDecimal ((0 : ℤ) : ℚ) := IsDecimal.of_int (by norm_num)
      have : ((0 : ℤ) : ℚ) ≤ r := hr.le_of_ge hzero (by
        rw [Int.cast_zero]
        exact div_nonneg (by linarith) hb.nonneg)
      have := ht.pos
      push_cast at *
      linarith
  · intro hle
    have hq : (now - before) / before ≤ -(t / 100) := by
      rw [div_le_iff₀ hpos]
      linarith
    have := hr.le_of_le hdec hq
    linarith

/-! ### The gate -/

/-- The percentage of the change between two amounts: a hundred times the rounded quotient. -/
theorem percentChange_eq (hD : D.RoundsToNearest) (hb : HorizonAmount before)
    (hn : HorizonAmount now) (hpos : 0 < before) :
    ∃ r, Nearest IsDecimal ((now - before) / before) r ∧
      percentChange D before now = some (some (r * 100)) := by
  obtain ⟨hlow, hhigh⟩ := change_bounds hb hn hpos
  obtain ⟨r, hr⟩ := hD.fits ((now - before) / before) (by
    have : |(now - before) / before| ≤ 2 ^ 63 := abs_le.2 ⟨by linarith, hhigh⟩
    exact this.trans (by norm_num [maxDecimal]))
  have hnear := hD.nearest _ r hr
  obtain ⟨hrlow, hrhigh⟩ := rounded_change_bounds hb hn hpos hnear
  have hmul : IsDecimal (r * 100) := hnear.mem.mul_hundred (by
    have : |r * 100| ≤ 2 ^ 63 * 100 := abs_le.2 ⟨by linarith, by linarith⟩
    exact this.trans (by norm_num [maxDecimal]))
  refine ⟨r, hnear, ?_⟩
  unfold percentChange
  rw [if_neg hpos.ne']
  simp only [RustDecimal.sub, RustDecimal.div, RustDecimal.mul,
    hD.round_eq (hn.isDecimal_sub hb), if_neg hpos.ne', hr, hD.round_eq hmul, Option.bind_eq_bind,
    Option.bind_some, Option.pure_def]

/-- **The gate compares the exact numbers**, and the severity of what passes it as well. -/
theorem dropGate_exact (hD : D.RoundsToNearest) (hb : HorizonAmount before)
    (hn : HorizonAmount now) (hpos : 0 < before) (ht : Percentage 100 t) :
    ∃ found, dropGate D before now t = some found ∧
      (found.isSome ↔ t * before ≤ 100 * (before - now)) ∧
      ∀ drop ∈ found, ∃ severity, severityForDrop D drop t = some severity ∧
        (severity = .critical ↔ 2 * t * before ≤ 100 * (before - now)) := by
  obtain ⟨r, hr, hpct⟩ := percentChange_eq hD hb hn hpos
  have hclears := percent_le_iff hb hn hpos (ht.mono (by norm_num)) hr
  have htwice := percent_le_iff hb hn hpos ht.double hr
  have ht0 := ht.pos
  unfold dropGate
  rw [hpct]
  simp only [Option.bind_eq_bind, Option.bind_some]
  by_cases hle : t ≤ -(r * 100)
  · refine ⟨some (-(r * 100)), ?_, ?_, ?_⟩
    · rw [if_neg (not_not.2 (by linarith)), if_neg (not_lt.2 hle)]
      rfl
    · exact iff_of_true rfl (hclears.1 hle)
    · intro drop hdrop
      obtain rfl := Option.mem_some_iff.1 hdrop
      refine ⟨if t * 2 ≤ -(r * 100) then .critical else .warning, ?_, ?_⟩
      · simp only [severityForDrop, RustDecimal.mul, hD.round_eq ht.double.isDecimal.1,
          Option.bind_eq_bind, Option.bind_some, Option.pure_def]
      · rw [mul_comm 2 t, ← htwice]
        split_ifs with h <;> simp [h]
  · refine ⟨none, ?_, ?_, fun drop hdrop => absurd hdrop (Option.not_mem_none _)⟩
    · split_ifs with h₁ h₂
      · rfl
      · exact absurd (not_lt.1 h₂) hle
      · rfl
    · exact iff_of_false (by simp) (mt hclears.2 hle)

/-! ### The alerts -/

/-- An alert that is made of the drop and its severity, where the gate lets it pass. -/
theorem dropReported_of_gate {mk : Decimal → Severity → PendingAlert}
    (hmk : ∀ drop severity, (mk drop severity).severity = severity) (hD : D.RoundsToNearest)
    (hb : HorizonAmount before) (hn : HorizonAmount now) (ht : Percentage 100 t) :
    ∃ alert, ((do
        match ← dropGate D before now t with
        | none => return none
        | some drop => do
          let severity ← severityForDrop D drop t
          return some (mk drop severity) : Option (Option PendingAlert))) = some alert ∧
      DropReported (some before) now t alert := by
  rcases hb.nonneg.eq_or_lt with rfl | hpos
  · -- nothing is compared with zero
    refine ⟨none, by simp [dropGate, percentChange], ?_, by simp⟩
    refine iff_of_false (by simp) ?_
    rintro ⟨b, hb, hpos, -⟩
    exact absurd hpos (by simp [← Option.mem_some_iff.1 hb])
  obtain ⟨found, hgate, hfound, hseverity⟩ := dropGate_exact hD hb hn hpos ht
  rw [hgate]
  cases found with
  | none =>
    refine ⟨none, rfl, ?_, by simp⟩
    simpa [hpos] using hfound
  | some drop =>
    obtain ⟨severity, hs, hcritical⟩ := hseverity drop rfl
    refine ⟨some (mk drop severity), ?_, ?_, ?_⟩
    · simp [hs]
    · simpa [hpos] using hfound
    · intro a ha
      obtain rfl := Option.mem_some_iff.1 ha
      simpa [hmk] using hcritical

/-- The alert of a pool. -/
theorem poolAlert_exact {assetA assetB : PoolReserve} {previous : Option Decimal}
    (hD : D.RoundsToNearest) (hprevious : ∀ before ∈ previous, HorizonAmount before)
    (hn : HorizonAmount now) (ht : Percentage 100 t) :
    ∃ alert, poolAlert D lp assetA assetB t previous now = some alert ∧
      DropReported previous now t alert := by
  cases previous with
  | none => exact ⟨none, rfl, by simp [DropReported]⟩
  | some before => exact dropReported_of_gate (fun _ _ => rfl) hD (hprevious before rfl) hn ht

/-- The alert of a token. -/
theorem tokenAlert_exact {previous : Option ℤ} (hD : D.RoundsToNearest)
    (hprevious : ∀ before ∈ previous, HorizonAmount (before : Decimal))
    (hn : HorizonAmount (a.accountsAuthorized : Decimal)) (ht : Percentage 100 t) :
    ∃ alert, tokenAlert D a t previous = some alert ∧
      DropReported (previous.map fun n => (n : Decimal)) a.accountsAuthorized t alert := by
  cases previous with
  | none => exact ⟨none, rfl, by simp [DropReported]⟩
  | some before => exact dropReported_of_gate (fun _ _ => rfl) hD (hprevious before rfl) hn ht

/-! ### Pools and tokens -/

/-- The shares in the row of a pool are those that Horizon reported. -/
theorem poolSnapshot_totalShares {row : PoolReserve × PoolReserve × PoolSnapshotRow}
    (h : poolSnapshot D time lp = .ret row) :
    D.fromStr lp.totalShares = some row.2.2.totalShares := by
  unfold poolSnapshot at h
  split at h
  · obtain ⟨reserveA, -, h⟩ := Outcome.bind_eq_ret.1 h
    obtain ⟨reserveB, -, h⟩ := Outcome.bind_eq_ret.1 h
    obtain ⟨totalShares, hshares, h⟩ := Outcome.bind_eq_ret.1 h
    obtain rfl := Outcome.ret.inj h
    cases hq : D.fromStr lp.totalShares with
    | none => simp [hq] at hshares
    | some q =>
      rw [hq, Outcome.ofOption_some] at hshares
      rw [Outcome.ret.inj hshares]
  · exact absurd h (by simp)

/-- Reading a pool does not panic. -/
theorem poolSnapshot_ne_panic : poolSnapshot D time lp ≠ .panic := by
  unfold poolSnapshot
  split
  · rename_i assetA assetB _ _
    cases D.fromStr assetA.amount with
    | none => simp
    | some reserveA =>
      cases D.fromStr assetB.amount with
      | none => simp
      | some reserveB => cases D.fromStr lp.totalShares <;> simp
  · simp

/-- A record whose comparison is exact. -/
theorem comparesExactly_snapshotOf {β γ : Type} {parsed : Outcome Error γ} {latest : Db → β}
    {upsert insert : γ → Db → Db} {alert : γ → β → Option (Option PendingAlert)}
    {previous : Option Decimal} (s : Tx World) (hparsed : parsed ≠ .panic)
    (halert : ∀ row, parsed = .ret row → ∃ found, alert row (latest s.view.db) = some found ∧
      DropReported previous now t found) :
    ComparesExactly (s.aborted = false ∧ env.fault = .ok ∧ ∃ row, parsed = .ret row) previous now t
      (snapshotOf env parsed latest upsert insert alert s).1 := by
  obtain ⟨w, aborted⟩ := s
  cases aborted with
  | false =>
    rcases snapshotOf_cases env parsed latest upsert insert alert w with
      ⟨hp, -, hne⟩ | ⟨row, hp, ⟨hf, h⟩ | ⟨hf, w', h⟩ | ⟨hf, w', h⟩⟩
    · refine ⟨?_, fun found hfound => absurd hfound (hne found), ?_⟩
      · cases hparse : parsed with
        | ret row => exact absurd hparse (hp row)
        | err e => simp [snapshotOf, Proc.bind_apply]
        | stop => simp [snapshotOf, Proc.bind_apply]
        | panic => exact absurd hparse hparsed
      · rintro ⟨-, -, row, hrow⟩
        exact absurd hrow (hp row)
    · obtain ⟨found, hfound, hreported⟩ := halert row hp
      rw [h, hfound]
      exact ⟨by simp, fun _ h => Outcome.ret.inj h ▸ hreported, fun _ => ⟨found, rfl⟩⟩
    · rw [h]
      exact ⟨by simp, fun _ h => absurd h (by simp), fun hok => by simp [hf] at hok⟩
    · rw [h]
      exact ⟨by simp, fun _ h => absurd h (by simp), fun hok => by simp [hf] at hok⟩
  | true =>
    -- the first statement fails
    have hends : (snapshotOf env parsed latest upsert insert alert ⟨w, true⟩).1 ≠ .panic ∧
        ∀ found, (snapshotOf env parsed latest upsert insert alert ⟨w, true⟩).1 ≠ .ret found := by
      unfold snapshotOf
      rw [Proc.bind_apply, Proc.lift_apply]
      cases hparse : parsed with
      | ret row => cases env.latest <;> simp [Tx.fetch, Proc.bind_apply]
      | err e => simp
      | stop => simp
      | panic => exact absurd hparse hparsed
    exact ⟨hends.1, fun found h => absurd h (hends.2 found), fun h => absurd h.1 (by simp)⟩

/-- **The drop gate is exact**, for pools and for tokens. -/
theorem drop_gate_exact (hD : D.RoundsToNearest) (env : SnapshotEnv) (time : Time)
    (defaultPct : Decimal) (rules : List AlertRuleRow) (s : Tx World) :
    (∀ lp shares, D.fromStr lp.totalShares = some shares → HorizonAmount shares →
      (∀ before ∈ latestPoolTotalShares env.tie lp.id s.view.db, HorizonAmount before) →
      Percentage 100 (resolveLiquidityDropThresholdPct rules lp.id defaultPct) →
      ComparesExactly
        (s.aborted = false ∧ env.fault = .ok ∧ ∃ row, poolSnapshot D time lp = .ret row)
        (latestPoolTotalShares env.tie lp.id s.view.db) shares
        (resolveLiquidityDropThresholdPct rules lp.id defaultPct)
        (ingestPool D env time lp defaultPct rules s).1) ∧
    ∀ a : AssetRecord, 0 ≤ a.accountsAuthorized → a.accountsAuthorized < 2 ^ 31 →
      (∀ before ∈ latestTokenNumAccounts env.tie a.assetCode a.assetIssuer s.view.db,
        0 ≤ before ∧ before < 2 ^ 31) →
      Percentage 100 (resolveHolderDropThresholdPct rules a.assetCode (some a.assetIssuer)
        defaultPct) →
      ComparesExactly (s.aborted = false ∧ env.fault = .ok)
        ((latestTokenNumAccounts env.tie a.assetCode a.assetIssuer s.view.db).map
          fun n => (n : Decimal))
        a.accountsAuthorized
        (resolveHolderDropThresholdPct rules a.assetCode (some a.assetIssuer) defaultPct)
        (ingestToken D env time a defaultPct rules s).1 := by
  constructor
  · intro lp shares hshares hnow hprevious ht
    refine comparesExactly_snapshotOf s poolSnapshot_ne_panic fun row hrow => ?_
    have hrowShares := (poolSnapshot_totalShares hrow).symm.trans hshares
    rw [Option.some.inj hrowShares]
    exact poolAlert_exact hD hprevious hnow ht
  · intro a h0 h31 hprevious ht
    have hcompares := @comparesExactly_snapshotOf _ _ env _ _ (.ret (tokenSnapshot D time a))
      (latestTokenNumAccounts env.tie a.assetCode a.assetIssuer)
      (fun _ => upsertToken ⟨a.assetCode, a.assetIssuer⟩) insertTokenSnapshot
      (fun _ previous => tokenAlert D a
        (resolveHolderDropThresholdPct rules a.assetCode (some a.assetIssuer) defaultPct) previous)
      _ s (by simp) fun _ _ => tokenAlert_exact hD
        (fun before hbefore => HorizonAmount.of_i32 (hprevious before hbefore).1
          (hprevious before hbefore).2) (HorizonAmount.of_i32 h0 h31) ht
    exact ⟨hcompares.ne_panic, hcompares.reported,
      fun h => hcompares.returns ⟨h.1, h.2, _, rfl⟩⟩

end Lumina

/-! ### A fifth of the shares and two thirds of the holders -/

namespace Lumina.Sample

def rounded : RustDecimal := .rounding shares.fromStr

/-- A token that had three holders for every two that it has now. -/
def fadedToken : AssetRecord :=
  ⟨"AQUA", "GBNZILSTVQZ4R7IKQDGHYGY2QXL5QOFJYQMXPKWRRM5PAV7Y4M67AQUA", 200, "1000.0000000", 0⟩

/-- The world of the shrunk pool, with the holders that the token had. -/
def watchedToken : Tx World := ⟨{ watched with
  db := insertTokenSnapshot ⟨1767225600000000, fadedToken.assetCode, fadedToken.assetIssuer, 1000,
    300, 0⟩ watched.db }, false⟩

/-- A third, which has no exact decimal, clears a threshold of 33.333333 percent and not twice
that; the shares of the pool fell by more than that. -/
theorem faded_reported :
    (∃ alert, (ingestPool rounded ⟨0, .ok, .ok, .ok⟩ 1767225605000000 shrunkPool
        (33333333 / 10 ^ 6) [] watchedToken).1 = .ret (some alert) ∧
      alert.severity = .critical) ∧
    ∃ alert, (ingestToken rounded ⟨0, .ok, .ok, .ok⟩ 1767225605000000 fadedToken
        (33333333 / 10 ^ 6) [] watchedToken).1 = .ret (some alert) ∧
      alert.severity ≠ .critical := by
  obtain ⟨hpool, htoken⟩ := drop_gate_exact (RustDecimal.rounding_roundsToNearest shares.fromStr)
    ⟨0, .ok, .ok, .ok⟩ 1767225605000000 (33333333 / 10 ^ 6) [] watchedToken
  have hprevious : latestPoolTotalShares 0 shrunkPool.id watchedToken.view.db = some 5000 := by
    decide +kernel
  have hholders : latestTokenNumAccounts 0 fadedToken.assetCode fadedToken.assetIssuer
      watchedToken.view.db = some 300 := by decide +kernel
  have hpct : Percentage 100 (33333333 / 10 ^ 6) :=
    ⟨33333333, by norm_num, by norm_num, by norm_num⟩
  have hpool := hpool shrunkPool 1000 (by decide +kernel) ⟨1000 * 10 ^ 7, by norm_num, by norm_num⟩
    (by
      rw [hprevious]
      rintro before hbefore
      rw [← Option.mem_some_iff.1 hbefore]
      exact ⟨5000 * 10 ^ 7, by norm_num, by norm_num⟩) hpct
  have htoken := htoken fadedToken (by decide) (by decide)
    (by
      rw [hholders]
      rintro before hbefore
      rw [← Option.mem_some_iff.1 hbefore]
      norm_num) hpct
  have hresolve : ∀ kind matching, resolveRule [] kind matching (33333333 / 10 ^ 6) =
    33333333 / 10 ^ 6 := fun _ _ => rfl
  constructor
  · obtain ⟨alert, halert⟩ := hpool.returns ⟨rfl, rfl, _, rfl⟩
    obtain ⟨hsome, hcritical⟩ := hpool.reported alert halert
    rw [hprevious, resolveLiquidityDropThresholdPct, hresolve] at hsome hcritical
    obtain ⟨found, rfl⟩ := Option.isSome_iff_exists.1
      (hsome.2 ⟨5000, rfl, by norm_num, by norm_num⟩)
    exact ⟨found, halert, (hcritical found rfl).2 ⟨5000, rfl, by norm_num⟩⟩
  · obtain ⟨alert, halert⟩ := htoken.returns ⟨rfl, rfl⟩
    obtain ⟨hsome, hcritical⟩ := htoken.reported alert halert
    rw [hholders, resolveHolderDropThresholdPct, hresolve] at hsome hcritical
    obtain ⟨found, rfl⟩ := Option.isSome_iff_exists.1
      (hsome.2 ⟨300, rfl, by norm_num, by norm_num [fadedToken]⟩)
    refine ⟨found, halert, fun h => ?_⟩
    obtain ⟨before, hbefore, hle⟩ := (hcritical found rfl).1 h
    obtain rfl := Option.mem_some_iff.1 hbefore
    norm_num [fadedToken] at hle

end Lumina.Sample
