import Lumina.Lending.Escalation
import Lumina.Lending.NonNegative

/-!
# Events that panic

An event that does not decode is skipped, and one whose calls fail is an error.  What can take the
process down is the arithmetic of its amounts and of the risk, and the message of an escalation,
which cuts two texts at fixed bytes.  An event is never fatal exactly if its amounts, the values
of its position and their ratios are in range and, where it raises an alert, the texts can be cut
(`processEvent_never_panics_iff`).

## Main definitions

* `Boundary`, `Cuttable` : the places where a text may be cut, and the texts that `short` cuts.
* `RiskFits` : the numbers of the risk are in range.
* `Harmless` : a scaled event is in range and its texts can be cut.
-/

namespace Lumina

/-! ### Cutting a text -/

/-- The bytes of some characters. -/
def byteLength (cs : List Char) : ℕ := (cs.map Char.utf8Size).sum

/-- The first `n` bytes are whole characters. -/
def Boundary (n : ℕ) (cs : List Char) : Prop := ∃ head tail, cs = head ++ tail ∧ byteLength head = n

/-- A text of at most 12 bytes, or one with character boundaries after 6 bytes and before the last
four. -/
def Cuttable (s : String) : Prop :=
  s.utf8ByteSize ≤ 12 ∨ Boundary 6 s.toList ∧ Boundary (s.utf8ByteSize - 4) s.toList

theorem boundary_zero (cs : List Char) : Boundary 0 cs := ⟨[], cs, rfl, rfl⟩

theorem not_boundary_nil (n : ℕ) : ¬ Boundary (n + 1) [] := by
  rintro ⟨head, tail, h, hlen⟩
  obtain ⟨rfl, -⟩ := List.append_eq_nil_iff.1 h.symm
  simp [byteLength] at hlen

theorem boundary_cons {n : ℕ} {c : Char} {cs : List Char} :
    Boundary (n + 1) (c :: cs) ↔ c.utf8Size ≤ n + 1 ∧ Boundary (n + 1 - c.utf8Size) cs := by
  constructor
  · rintro ⟨head, tail, h, hlen⟩
    cases head with
    | nil => simp [byteLength] at hlen
    | cons d head =>
      obtain ⟨rfl, rfl⟩ := List.cons.inj h
      rw [byteLength, List.map_cons, List.sum_cons] at hlen
      refine ⟨by omega, head, tail, rfl, ?_⟩
      rw [byteLength]
      omega
  · rintro ⟨hle, head, tail, rfl, hlen⟩
    refine ⟨c :: head, tail, rfl, ?_⟩
    rw [byteLength] at hlen
    rw [byteLength, List.map_cons, List.sum_cons, hlen]
    omega

theorem takeBytes_isSome_iff (n : ℕ) (cs : List Char) :
    (takeBytes n cs).isSome ↔ Boundary n cs := by
  fun_induction takeBytes n cs with
  | case1 cs => simpa using boundary_zero cs
  | case2 n => simpa using not_boundary_nil n
  | case3 n c cs hle ih => rw [Option.isSome_map, ih, boundary_cons, and_iff_right hle]
  | case4 n c cs hle => simp [boundary_cons, hle]

theorem dropBytes_isSome_iff (n : ℕ) (cs : List Char) :
    (dropBytes n cs).isSome ↔ Boundary n cs := by
  fun_induction dropBytes n cs with
  | case1 cs => simpa using boundary_zero cs
  | case2 n => simpa using not_boundary_nil n
  | case3 n c cs hle ih => rw [ih, boundary_cons, and_iff_right hle]
  | case4 n c cs hle => simp [boundary_cons, hle]

/-- `short` panics on the other texts. -/
theorem short_eq_none_iff (s : String) : short s = none ↔ ¬ Cuttable s := by
  rw [← Option.not_isSome_iff_eq_none, not_iff_not]
  unfold short Cuttable
  rw [← takeBytes_isSome_iff, ← dropBytes_isSome_iff]
  split_ifs with hsize
  · simp [hsize]
  · cases takeBytes 6 s.toList with
    | none => simp [hsize]
    | some head =>
      cases dropBytes (s.utf8ByteSize - 4) s.toList with
      | none => simp [hsize]
      | some tail => simp [hsize]

/-! ### The arithmetic -/

/-- The sum or the difference that an event computes. -/
def Holdings.moved (h : Holdings) (e : Decoded) : ℚ :=
  match e.kind with
  | .supplyCollateral => h.collateralAmount + e.amount
  | .withdrawCollateral => h.collateralAmount - e.amount
  | .borrow => h.debtAmount + e.amount
  | .repay => h.debtAmount - e.amount

/-- The values of a position are in range, and so are their ratio, its percentage and the inverse
of the ratio, where these are computed. -/
structure RiskFits (D : RustDecimal) (collateralAmount collateralPrice debtAmount debtPrice : ℚ) :
    Prop where
  collateral : |collateralAmount * collateralPrice| ≤ maxDecimal
  debt : |debtAmount * debtPrice| ≤ maxDecimal
  ratios : ∀ collateralUsd debtUsd, D.mul collateralAmount collateralPrice = some collateralUsd →
    D.mul debtAmount debtPrice = some debtUsd → collateralUsd ≠ 0 →
      |debtUsd / collateralUsd| ≤ maxDecimal ∧
      (∀ ratio, D.div debtUsd collateralUsd = some ratio → |ratio * 100| ≤ maxDecimal) ∧
      (debtUsd ≠ 0 → |collateralUsd / debtUsd| ≤ maxDecimal)

variable {D : RustDecimal} {X : Codec} {config : Config} {prices : PriceMap} {bands : LtvBands}
  {h : Holdings} {e : Decoded} {r : RawEvent} {latest : Option LendingPositionRow}
  {poolContract : String} {a b : Decimal}

section Arithmetic

theorem round_eq_none_iff (hP : D.PanicsBeyond) {q : ℚ} :
    D.round q = none ↔ ¬ |q| ≤ maxDecimal := by
  rw [hP q, not_le]

theorem abs_le_of_round (hP : D.PanicsBeyond) {q x : ℚ} (hx : D.round q = some x) :
    |q| ≤ maxDecimal := by
  by_contra hbig
  rw [(round_eq_none_iff hP).2 hbig] at hx
  cases hx

theorem div_eq_none_iff (hP : D.PanicsBeyond) (hb : b ≠ 0) :
    D.div a b = none ↔ ¬ |a / b| ≤ maxDecimal := by
  rw [RustDecimal.div, if_neg hb, round_eq_none_iff hP]

theorem abs_le_of_div (hP : D.PanicsBeyond) (hb : b ≠ 0) {x : ℚ} (hx : D.div a b = some x) :
    |a / b| ≤ maxDecimal := by
  rw [RustDecimal.div, if_neg hb] at hx
  exact abs_le_of_round hP hx

/-- The holdings are computed unless the sum is out of range. -/
theorem Holdings.apply_eq_none_iff (hP : D.PanicsBeyond) :
    h.apply D e = none ↔ ¬ |h.moved e| ≤ maxDecimal := by
  unfold Holdings.apply Holdings.moved
  rw [← round_eq_none_iff hP]
  cases e.kind with
  | supplyCollateral =>
    simp only [RustDecimal.add]
    cases D.round (h.collateralAmount + e.amount) <;> simp
  | withdrawCollateral =>
    simp only [RustDecimal.sub]
    cases D.round (h.collateralAmount - e.amount) <;> simp
  | borrow =>
    simp only [RustDecimal.add]
    cases D.round (h.debtAmount + e.amount) <;> simp
  | repay =>
    simp only [RustDecimal.sub]
    cases D.round (h.debtAmount - e.amount) <;> simp

/-- The risk is computed unless one of its numbers is out of range. -/
theorem computeLendingRisk_eq_none_iff (hP : D.PanicsBeyond) {c d p q : Decimal} :
    computeLendingRisk D c (some p) d (some q) = none ↔ ¬ RiskFits D c p d q := by
  unfold computeLendingRisk
  dsimp only
  cases hc : D.mul c p with
  | none =>
    exact iff_of_true rfl fun hfits => (round_eq_none_iff hP).1 hc hfits.collateral
  | some collateralUsd =>
  cases hd : D.mul d q with
  | none => exact iff_of_true rfl fun hfits => (round_eq_none_iff hP).1 hd hfits.debt
  | some debtUsd =>
  simp only [Option.bind_eq_bind, Option.bind_some]
  have hfits : RiskFits D c p d q ↔ (collateralUsd ≠ 0 → |debtUsd / collateralUsd| ≤ maxDecimal ∧
      (∀ ratio, D.div debtUsd collateralUsd = some ratio → |ratio * 100| ≤ maxDecimal) ∧
      (debtUsd ≠ 0 → |collateralUsd / debtUsd| ≤ maxDecimal)) := by
    refine ⟨fun hfits => hfits.ratios _ _ hc hd, fun hratios => ?_⟩
    refine ⟨abs_le_of_round hP hc, abs_le_of_round hP hd, fun c' d' hc' hd' => ?_⟩
    obtain rfl := Option.some.inj (hc.symm.trans hc')
    obtain rfl := Option.some.inj (hd.symm.trans hd')
    exact hratios
  rw [hfits]
  by_cases hzero : collateralUsd = 0
  · simp [hzero]
  simp only [hzero, if_false, ne_eq, not_false_eq_true, forall_const]
  cases hratio : D.div debtUsd collateralUsd with
  | none => exact iff_of_true rfl fun hr => (div_eq_none_iff hP hzero).1 hratio hr.1
  | some ratio =>
  cases hltv : D.mul ratio 100 with
  | none =>
    refine iff_of_true (by simp [hltv]) fun hr => ?_
    exact (round_eq_none_iff hP).1 hltv (hr.2.1 ratio rfl)
  | some ltv =>
  have hpercent : ∀ ratio', some ratio = some ratio' → |ratio' * 100| ≤ maxDecimal := by
    rintro ratio' heq
    obtain rfl := Option.some.inj heq
    exact abs_le_of_round hP hltv
  by_cases hdebt : debtUsd = 0
  · refine iff_of_false (by simp [hltv, hdebt]) (not_not_intro ?_)
    exact ⟨abs_le_of_div hP hzero hratio, hpercent, fun hne => absurd hdebt hne⟩
  cases hhealth : D.div collateralUsd debtUsd with
  | none =>
    refine iff_of_true (by simp [hdebt]) fun hr => ?_
    exact (div_eq_none_iff hP hdebt).1 hhealth (hr.2.2 hdebt)
  | some healthFactor =>
    refine iff_of_false (by simp [hltv, hdebt]) (not_not_intro ?_)
    exact ⟨abs_le_of_div hP hzero hratio, hpercent, fun _ => abs_le_of_div hP hdebt hhealth⟩

/-- Without both prices nothing is computed. -/
theorem computeLendingRisk_priced_iff (hP : D.PanicsBeyond) {c d : Decimal}
    {price price' : Option Decimal} : computeLendingRisk D c price d price' = none ↔
      ∃ p q, price = some p ∧ price' = some q ∧ ¬ RiskFits D c p d q := by
  cases price with
  | none => simp [computeLendingRisk]
  | some p =>
  cases price' with
  | none => simp [computeLendingRisk]
  | some q => simp [computeLendingRisk_eq_none_iff hP]

end Arithmetic

/-! ### One event -/

/-- The LTV is in `HIGH` or `CRITICAL` and above the band of the latest row. -/
def Crosses (bands : LtvBands) (latest : Option LendingPositionRow) (ltv : Decimal) : Prop :=
  (riskLevelWithBands ltv bands).alertable = true ∧
    ∀ prev, latest.bind (·.level bands) = some prev →
      riskRank prev < riskRank (riskLevelWithBands ltv bands)

/-- The numbers of an event are in range, and its texts can be cut where it raises an alert. -/
structure Harmless (D : RustDecimal) (prices : PriceMap) (bands : LtvBands)
    (latest : Option LendingPositionRow) (poolContract : String) (e : Decoded) : Prop where
  sum : |((latest.map (·.holdings)).getD Holdings.empty).moved e| ≤ maxDecimal
  risk : ∀ h, ((latest.map (·.holdings)).getD Holdings.empty).apply D e = some h →
    ∀ p q, prices h.collateralAsset = some p → prices h.debtAsset = some q →
      RiskFits D h.collateralAmount p h.debtAmount q
  texts : ∀ h, ((latest.map (·.holdings)).getD Holdings.empty).apply D e = some h →
    ∀ ltv healthFactor, computeLendingRisk D h.collateralAmount (prices h.collateralAsset)
        h.debtAmount (prices h.debtAsset) = some (some ltv, healthFactor) →
      Crosses bands latest ltv → Cuttable e.account ∧ Cuttable poolContract

/-- The message of an escalation is the one thing that can panic in an alert. -/
theorem lendingAlert_eq_none_iff {row : LendingPositionRow} :
    lendingAlert bands latest row = none ↔ ∃ ltv, row.ltv = some ltv ∧ Crosses bands latest ltv ∧
      ¬ (Cuttable row.account ∧ Cuttable row.poolContract) := by
  unfold lendingAlert
  cases hesc : escalation bands latest row with
  | none =>
    refine iff_of_false (by simp) ?_
    rintro ⟨ltv, hltv, ⟨halert, hprev⟩, -⟩
    rw [escalation_eq_some_iff.2 ⟨hltv, rfl, halert, hprev⟩] at hesc
    cases hesc
  | some reached =>
    obtain ⟨ltv, level⟩ := reached
    obtain ⟨hltv, rfl, halert, hprev⟩ := escalation_eq_some_iff.1 hesc
    have hshort : (∃ ltv, row.ltv = some ltv ∧ Crosses bands latest ltv ∧
        ¬ (Cuttable row.account ∧ Cuttable row.poolContract)) ↔
        ¬ (Cuttable row.account ∧ Cuttable row.poolContract) :=
      ⟨fun ⟨_, _, _, hcut⟩ => hcut, fun hcut => ⟨ltv, hltv, ⟨halert, hprev⟩, hcut⟩⟩
    rw [hshort, not_and_or, ← short_eq_none_iff, ← short_eq_none_iff]
    cases short row.account with
    | none => simp
    | some account => cases short row.poolContract <;> simp

/-- A harmless event has a row and, if it escalates, a message. -/
theorem harmless_iff (hP : D.PanicsBeyond) :
    Harmless D prices bands latest poolContract e ↔
      ∃ row, nextPosition D prices poolContract latest e = some row ∧
        lendingAlert bands latest row ≠ none := by
  constructor
  · rintro ⟨hsum, hrisk, htexts⟩
    cases happly : ((latest.map (·.holdings)).getD Holdings.empty).apply D e with
    | none => exact absurd hsum ((Holdings.apply_eq_none_iff hP).1 happly)
    | some h =>
    cases hcompute : computeLendingRisk D h.collateralAmount (prices h.collateralAsset)
        h.debtAmount (prices h.debtAsset) with
    | none =>
      obtain ⟨p, q, hp, hq, hfits⟩ := (computeLendingRisk_priced_iff hP).1 hcompute
      exact absurd (hrisk h happly p q hp hq) hfits
    | some risk =>
      obtain ⟨ltv, healthFactor⟩ := risk
      have hrow : nextPosition D prices poolContract latest e = some ⟨e.time, "blend",
          poolContract, e.account, h.collateralAsset, h.collateralAmount, h.debtAsset,
          h.debtAmount, ltv, healthFactor⟩ := by
        simp [nextPosition, happly, hcompute]
      refine ⟨_, hrow, ?_⟩
      rw [Ne, lendingAlert_eq_none_iff]
      rintro ⟨value, hvalue, hcrosses, hcut⟩
      obtain rfl : ltv = some value := hvalue
      exact hcut (htexts h happly value healthFactor hcompute hcrosses)
  · rintro ⟨row, hrow, halert⟩
    obtain ⟨happly, -, -, hcontract, haccount, hrisk⟩ := nextPosition_eq_some hrow
    refine ⟨?_, ?_, ?_⟩
    · by_contra hbig
      rw [(Holdings.apply_eq_none_iff hP).2 hbig] at happly
      cases happly
    · intro h hh p q hp hq
      obtain rfl := Option.some.inj (happly.symm.trans hh)
      by_contra hfits
      have hnone := (computeLendingRisk_priced_iff hP).2 ⟨p, q, hp, hq, hfits⟩
      exact absurd (hnone.symm.trans hrisk) nofun
    · intro h hh ltv healthFactor hcompute hcrosses
      obtain rfl := Option.some.inj (happly.symm.trans hh)
      have hltv : row.ltv = some ltv :=
        (Prod.mk.inj (Option.some.inj (hrisk.symm.trans hcompute))).1
      by_contra hcut
      rw [← haccount, ← hcontract] at hcut
      exact halert (lendingAlert_eq_none_iff.2 ⟨ltv, hltv, hcrosses, hcut⟩)

/-- A position event with its amount scaled. -/
def RawEvent.decoded (r : RawEvent) (time : Time) : Decoded :=
  ⟨r.kind, r.reserveAsset, r.account, (r.rawAmount : ℚ) / 10 ^ 7, time⟩

variable {event : RpcEvent} {w : World} {tie : ℕ}

/-- Decoding scales the amount exactly. -/
theorem decodeEvent_eq_ret_iff (hI : D.ScalesI128) : decodeEvent D X event = .ret (some e) ↔
    ∃ r time, rawEvent X event = some r ∧ |r.rawAmount| < 2 ^ 96 ∧
      X.parseTime event.ledgerClosedAt = some time ∧ e = r.decoded time := by
  rw [decodeEvent_eq_ret]
  constructor
  · rintro ⟨r, hr, hamount, htime, hkind, hasset, haccount⟩
    rw [hI _ _ (by decide)] at hamount
    split_ifs at hamount with hlt
    refine ⟨r, e.time, hr, hlt, htime, ?_⟩
    rw [RawEvent.decoded, ← hkind, ← hasset, ← haccount]
    exact congrArg (fun q => (⟨e.kind, e.reserveAsset, e.account, q, e.time⟩ : Decoded))
      (Option.some.inj hamount).symm
  · rintro ⟨r, time, hr, hlt, htime, rfl⟩
    refine ⟨r, hr, ?_, htime, rfl, rfl, rfl⟩
    rw [hI _ _ (by decide), if_pos hlt]
    rfl

/-- Decoding panics on the amounts that are too large. -/
theorem decodeEvent_eq_panic_iff (hI : D.ScalesI128) : decodeEvent D X event = .panic ↔
    ∃ r, rawEvent X event = some r ∧ ¬ |r.rawAmount| < 2 ^ 96 := by
  rw [decodeEvent_eq_panic]
  refine exists_congr fun r => and_congr_right fun _ => ?_
  rw [hI _ _ (by decide)]
  split_ifs with hlt
  · exact iff_of_false nofun (not_not_intro hlt)
  · exact iff_of_true rfl hlt

/-- **The panics of one call**: of decoding, of the arithmetic and of the message. -/
theorem processEvent_eq_panic_iff {env : EventEnv} :
    (processEvent D X config prices bands env event w).1 = .panic ↔
      decodeEvent D X event = .panic ∨ ∃ e, decodeEvent D X event = .ret (some e) ∧
        env.latest = .ok ∧ (rowAfter D prices env.tie event.contractId e w.db = none ∨
          env.insert = .ok ∧ ∃ row, rowAfter D prices env.tie event.contractId e w.db = some row ∧
            alertAfter bands env.tie row w.db = none) := by
  cases hd : decodeEvent D X event with
  | err u => simp [processEvent, storeEvent, Proc.bind_apply, hd]
  | stop => simp [processEvent, storeEvent, Proc.bind_apply, hd]
  | panic => simp [processEvent, storeEvent, Proc.bind_apply, hd]
  | ret d =>
  cases d with
  | none => simp [processEvent, storeEvent, Proc.bind_apply, hd]
  | some e =>
  cases hl : env.latest with
  | fail => simp [processEvent, storeEvent, Proc.bind_apply, hd, fetch, hl]
  | stop => simp [processEvent, storeEvent, Proc.bind_apply, hd, fetch, hl]
  | ok =>
  cases hrow : rowAfter D prices env.tie event.contractId e w.db with
  | none =>
    unfold rowAfter at hrow
    simp [processEvent, storeEvent, Proc.bind_apply, hd, fetch, hl, hrow, rowAfter]
  | some row =>
  cases hi : env.insert with
  | fail =>
    have hnext := hrow
    unfold rowAfter at hnext
    simp [processEvent, storeEvent, Proc.bind_apply, hd, fetch, hl, hnext, hrow, exec, hi]
  | stop =>
    have hnext := hrow
    unfold rowAfter at hnext
    simp [processEvent, storeEvent, Proc.bind_apply, hd, fetch, hl, hnext, hrow, exec, hi]
  | ok =>
    unfold processEvent
    rw [Proc.bind_apply, storeEvent_ok hd hl hi hrow]
    cases halert : alertAfter bands env.tie row w.db with
    | none => simp [hrow, halert]
    | some alert =>
    cases alert with
    | none => simp [hrow, halert]
    | some a =>
      -- the recording itself never panics
      have hrecord := (panicFree_record env.record config.webhook a).attempt.bind
        (fun _ => Proc.panicFree_pure true) { w with db := insertLendingPosition row w.db }
      refine iff_of_false hrecord ?_
      simp [hrow, halert]

/-- **An event is never fatal exactly if its amount has at most 96 bits and, where its time can be
read, it is harmless.** -/
theorem processEvent_never_panics_iff (hP : D.PanicsBeyond) (hI : D.ScalesI128) :
    (∀ env : EventEnv, env.tie = tie →
      (processEvent D X config prices bands env event w).1 ≠ .panic) ↔
    ∀ r, rawEvent X event = some r → |r.rawAmount| < 2 ^ 96 ∧
      ∀ time, X.parseTime event.ledgerClosedAt = some time →
        Harmless D prices bands (latestLendingPosition tie "blend" event.contractId r.account w.db)
          event.contractId (r.decoded time) := by
  constructor
  · intro hnever r hr
    have hcall := hnever ⟨tie, .ok, .ok, .clean 0⟩ rfl
    rw [Ne, processEvent_eq_panic_iff, not_or, decodeEvent_eq_panic_iff hI] at hcall
    obtain ⟨hdecode, hcall⟩ := hcall
    have hlt : |r.rawAmount| < 2 ^ 96 := by
      by_contra hbig
      exact hdecode ⟨r, hr, hbig⟩
    refine ⟨hlt, fun time htime => (harmless_iff hP).2 ?_⟩
    have hd := (@decodeEvent_eq_ret_iff D X (r.decoded time) event hI).2
      ⟨r, time, hr, hlt, htime, rfl⟩
    by_contra hnone
    refine hcall ⟨r.decoded time, hd, rfl, ?_⟩
    cases hrow : rowAfter D prices tie event.contractId (r.decoded time) w.db with
    | none => exact .inl rfl
    | some row =>
      refine .inr ⟨rfl, row, rfl, ?_⟩
      obtain ⟨-, -, -, hcontract, haccount, -⟩ := nextPosition_eq_some hrow
      by_contra halert
      rw [alertAfter, hcontract, haccount] at halert
      exact hnone ⟨row, hrow, halert⟩
  · rintro hsafe env rfl hpanic
    rcases processEvent_eq_panic_iff.1 hpanic with hd | ⟨e, hd, -, hstep⟩
    · obtain ⟨r, hr, hbig⟩ := (decodeEvent_eq_panic_iff hI).1 hd
      exact hbig (hsafe r hr).1
    · obtain ⟨r, time, hr, -, htime, rfl⟩ := (decodeEvent_eq_ret_iff hI).1 hd
      obtain ⟨row, hrow, halert⟩ := (harmless_iff hP).1 ((hsafe r hr).2 time htime)
      obtain ⟨-, -, -, hcontract, haccount, -⟩ := nextPosition_eq_some hrow
      rcases hstep with hnone | ⟨-, row', hrow', halert'⟩
      · cases hrow.symm.trans hnone
      · obtain rfl := Option.some.inj (hrow.symm.trans hrow')
        rw [alertAfter, hcontract, haccount] at halert'
        exact halert halert'

end Lumina

/-! ### An amount of 101 bits -/

namespace Lumina.Sample

/-- An amount of `2 ^ 100`. -/
def hugeCodec : Codec := codecWith "AAAACgAAABAAAAAAAAAAAAAAAAA=" (.i128 68719476736 0)

/-- A supply of `2 ^ 100` stroops takes the process down. -/
theorem huge_supply_panics :
    (processEvent roundedDecimal hugeCodec Config.default (fun _ => none) .default env
      (supplyCall "AAAACgAAABAAAAAAAAAAAAAAAAA=").event World.empty).1 = .panic := by
  decide +kernel

/-- A borrow of a hundred against as much, both priced, never does, although it crosses into a
higher band. -/
theorem borrow_never_panics :
    (processEvent roundedDecimal codec Config.default dollar .default env
        (event .borrow eurc 100 "2026-01-01T00:00:05Z") supplied).1 ≠ .panic ∧
      escalation .default (some supplyRow) borrow100Row = some (100, .critical) := by
  refine ⟨(processEvent_never_panics_iff (RustDecimal.rounding_panicsBeyond _)
    (RustDecimal.rounding_scalesI128 _)).2 (fun r hr => ?_) env rfl, by decide +kernel⟩
  have hraw : rawEvent codec (event .borrow eurc 100 "2026-01-01T00:00:05Z") =
      some ⟨.borrow, eurc, account, 1000000000⟩ := by
    decide +kernel
  obtain rfl := Option.some.inj (hraw.symm.trans hr)
  refine ⟨by norm_num, fun time htime => ?_⟩
  have hclosed : codec.parseTime "2026-01-01T00:00:05Z" = some 1767225605000000 := by
    decide +kernel
  obtain rfl := Option.some.inj (hclosed.symm.trans htime)
  have hlatest : latestLendingPosition env.tie "blend" pool account supplied.db =
      some supplyRow := by decide +kernel
  change Harmless _ _ _ (latestLendingPosition env.tie "blend" pool account supplied.db) pool _
  rw [hlatest]
  refine (harmless_iff (RustDecimal.rounding_panicsBeyond _)).2
    ⟨borrow100Row, by decide +kernel, Option.isSome_iff_ne_none.1 (by decide +kernel)⟩

end Lumina.Sample
