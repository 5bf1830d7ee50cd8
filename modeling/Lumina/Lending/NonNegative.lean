import Lumina.Lending.Cycle
import Lumina.Lending.Decode
import Lumina.Number.Rounding
import Lumina.Trace.Basic

/-!
# The sign of the stored amounts

An event's amount is the greatest integer that it contains, which may be negative.  The two
events that take amounts away stop at zero, and the two that add do not: a negative amount can
carry a position below zero.  No stored amount is ever negative exactly if no event that adds to
a side takes more from it than it holds (`amounts_nonneg_iff`).

## Main definitions

* `EventCall`, `processed` : an event with its settings and environment, and the world after it.
* `Covered` : the event leaves both sides of its position at zero or above.
-/

namespace Lumina

open Lumina.Trace

/-- An event with the settings and the environment that it is processed under. -/
structure EventCall where
  prices : PriceMap
  bands : LtvBands
  env : EventEnv
  event : RpcEvent

/-- The world after an event. -/
def processed (D : RustDecimal) (X : Codec) (config : Config) (w : World) (c : EventCall) :
    World := (processEvent D X config c.prices c.bands c.env c.event w).2

/-- The holdings that an event starts from. -/
def storedHoldings (tie : ℕ) (poolContract account : String) (db : Db) : Holdings :=
  ((latestLendingPosition tie "blend" poolContract account db).map (·.holdings)).getD
    Holdings.empty

/-- The call writes a row for the event `e`. -/
def Writes (D : RustDecimal) (X : Codec) (w : World) (c : EventCall) (e : Decoded) : Prop :=
  decodeEvent D X c.event = .ret (some e) ∧ Goes c.env ∧
    (rowAfter D c.prices c.env.tie c.event.contractId e w.db).isSome

/-- An event that adds to a side takes no more from it than it holds. -/
def Holdings.Covers (h : Holdings) (e : Decoded) : Prop :=
  (e.kind = .supplyCollateral → 0 ≤ h.collateralAmount + e.amount) ∧
    (e.kind = .borrow → 0 ≤ h.debtAmount + e.amount)

/-- The event of the call, if it writes a row, takes no more from a side than it holds. -/
def Covered (D : RustDecimal) (X : Codec) (w : World) (c : EventCall) : Prop :=
  ∀ e, Writes D X w c e →
    (storedHoldings c.env.tie c.event.contractId e.account w.db).Covers e

/-- No amount is negative. -/
def Holdings.NonNegative (h : Holdings) : Prop := 0 ≤ h.collateralAmount ∧ 0 ≤ h.debtAmount

/-- Both amounts are decimals. -/
def Holdings.Decimals (h : Holdings) : Prop :=
  IsDecimal h.collateralAmount ∧ IsDecimal h.debtAmount

variable {D : RustDecimal} {X : Codec} {config : Config} {w : World} {c : EventCall}
  {h h' : Holdings} {e : Decoded} {row : LendingPositionRow}

/-! ### One position -/

theorem isDecimal_max {a : Decimal} (h : IsDecimal a) : IsDecimal (max a 0) := by
  rcases max_choice a 0 with heq | heq
  · rwa [heq]
  · rw [heq]
    exact isDecimal_zero

/-- The amounts stay decimals. -/
theorem Holdings.Decimals.apply (hD : D.RoundsToNearest) (hh : h.Decimals)
    (hap : h.apply D e = some h') : h'.Decimals := by
  obtain ⟨hcollateral, hdebt⟩ := hh
  unfold Holdings.apply at hap
  cases hk : e.kind <;> simp only [hk, Option.bind_eq_bind, Option.bind_eq_some_iff] at hap <;>
    obtain ⟨amount, hround, heq⟩ := hap <;> obtain rfl := Option.some.inj heq
  · exact ⟨(hD.nearest _ _ hround).mem, hdebt⟩
  · exact ⟨isDecimal_max (hD.nearest _ _ hround).mem, hdebt⟩
  · exact ⟨hcollateral, (hD.nearest _ _ hround).mem⟩
  · exact ⟨hcollateral, isDecimal_max (hD.nearest _ _ hround).mem⟩

/-- **One event** leaves no negative amount exactly if it is covered. -/
theorem Holdings.apply_nonNegative_iff (hD : D.RoundsToNearest) (hh : h.Decimals)
    (hn : h.NonNegative) (he : IsDecimal e.amount) (hap : h.apply D e = some h') :
    h'.NonNegative ↔ h.Covers e := by
  obtain ⟨hcollateral, hdebt⟩ := hh
  obtain ⟨hn₁, hn₂⟩ := hn
  unfold Holdings.apply at hap
  cases hk : e.kind <;> simp only [hk, Option.bind_eq_bind, Option.bind_eq_some_iff] at hap <;>
    obtain ⟨amount, hround, heq⟩ := hap <;> obtain rfl := Option.some.inj heq
  · have hsign := hD.add_nonneg_iff hcollateral he hround
    simp [NonNegative, Covers, hk, hn₂, hsign]
  · simp [NonNegative, Covers, hk, hn₂]
  · have hsign := hD.add_nonneg_iff hdebt he hround
    simp [NonNegative, Covers, hk, hn₁, hsign]
  · simp [NonNegative, Covers, hk, hn₁]

/-! ### The table -/

/-- Every row of the table has decimals for amounts, and none is negative. -/
def SoundPositions (db : Db) : Prop :=
  ∀ row ∈ db.lendingPositions, row.holdings.Decimals ∧ row.holdings.NonNegative

/-- What an event starts from is a row of the table or nothing. -/
theorem SoundPositions.storedHoldings {tie : ℕ} {poolContract account : String} {db : Db}
    (h : SoundPositions db) :
    (storedHoldings tie poolContract account db).Decimals ∧
      (storedHoldings tie poolContract account db).NonNegative := by
  unfold Lumina.storedHoldings latestLendingPosition
  cases hlatest : latestLendingRow tie "blend" poolContract account db with
  | none =>
    exact ⟨⟨isDecimal_zero, isDecimal_zero⟩, le_refl (0 : ℚ), le_refl (0 : ℚ)⟩
  | some r =>
    have hrow := (Sql.mem_newest.1 (Sql.latest_mem hlatest)).1
    exact h r.1 (List.fst_mem_of_mem_zipIdx (List.mem_filter.1 hrow).1)

/-- A call adds the row of its event to the table, or leaves the table alone. -/
theorem processed_lendingPositions :
    (∃ e row, Writes D X w c e ∧
      rowAfter D c.prices c.env.tie c.event.contractId e w.db = some row ∧
      (processed D X config w c).db.lendingPositions = w.db.lendingPositions ++ [row]) ∨
    ((∀ e, ¬ Writes D X w c e) ∧
      (processed D X config w c).db.lendingPositions = w.db.lendingPositions) := by
  by_cases hwrites : ∃ e, Writes D X w c e
  · obtain ⟨e, hd, ⟨hl, hi⟩, hsome⟩ := hwrites
    obtain ⟨row, hrow⟩ := Option.isSome_iff_exists.1 hsome
    obtain ⟨hdb, -⟩ := processEvent_stored config c.bands hd hl hi hrow
    refine .inl ⟨e, row, ⟨hd, ⟨hl, hi⟩, hsome⟩, hrow, ?_⟩
    rw [processed, hdb, recordedDb_lendingPositions]
    rfl
  · refine .inr ⟨fun e h => hwrites ⟨e, h⟩, ?_⟩
    rcases processEvent_cases D X config c.prices c.bands c.env c.event w with
      ⟨e, row, alert, hd, hgoes, hrow, -⟩ | ⟨heq, -⟩
    · exact absurd ⟨e, hd, hgoes, Option.isSome_iff_exists.2 ⟨row, hrow⟩⟩ hwrites
    · rw [processed, heq]

/-- **One call** keeps the table sound exactly if its event is covered. -/
theorem SoundPositions.processed_iff (hD : D.RoundsToNearest) (hI : D.ScalesI128)
    (h : SoundPositions w.db) :
    (∀ row ∈ (processed D X config w c).db.lendingPositions, row.holdings.NonNegative) ↔
      Covered D X w c := by
  rcases @processed_lendingPositions D X config w c with
    ⟨e, row, hwrites, hrow, hrows⟩ | ⟨hnone, hrows⟩
  · obtain ⟨r, -, hamount, -⟩ := decodeEvent_eq_ret.1 hwrites.1
    have hdecimal : IsDecimal e.amount := hI.isDecimal (by decide) hamount
    obtain ⟨hdecimals, hnonneg⟩ :=
      @SoundPositions.storedHoldings c.env.tie c.event.contractId e.account w.db h
    have hstep := Holdings.apply_nonNegative_iff hD hdecimals hnonneg hdecimal
      (nextPosition_eq_some hrow).1
    rw [hrows]
    constructor
    · intro hall e' hwrites'
      obtain rfl : e = e' := by simpa using hwrites.1.symm.trans hwrites'.1
      exact hstep.1 (hall row (by simp))
    · intro hcovered row' hrow'
      rcases List.mem_append.1 hrow' with hold | hnew
      · exact (h row' hold).2
      · rw [List.mem_singleton.1 hnew]
        exact hstep.2 (hcovered e hwrites)
  · rw [hrows]
    exact iff_of_true (fun row hrow => (h row hrow).2) fun e he => absurd he (hnone e)

/-- A covered call keeps the table sound. -/
theorem SoundPositions.processed (hD : D.RoundsToNearest) (hI : D.ScalesI128)
    (h : SoundPositions w.db) (hc : Covered D X w c) :
    SoundPositions (processed D X config w c).db := by
  intro row hrow
  refine ⟨?_, (h.processed_iff hD hI).2 hc row hrow⟩
  rcases @processed_lendingPositions D X config w c with
    ⟨e, new, -, hnew, hrows⟩ | ⟨-, hrows⟩
  · rw [hrows] at hrow
    rcases List.mem_append.1 hrow with hold | hrow
    · exact (h row hold).1
    · rw [List.mem_singleton.1 hrow]
      exact h.storedHoldings.1.apply hD (nextPosition_eq_some hnew).1
  · rw [hrows] at hrow
    exact (h row hrow).1

/-- Rows are never taken out of the table. -/
theorem lendingPositions_prefix_run (calls : List EventCall) :
    w.db.lendingPositions <+: (run (Lumina.processed D X config) w calls).db.lendingPositions := by
  induction calls generalizing w with
  | nil => exact List.prefix_rfl
  | cons c calls ih =>
    refine List.IsPrefix.trans ?_ ih
    rcases @processed_lendingPositions D X config w c with ⟨e, row, -, -, hrows⟩ | ⟨-, hrows⟩
    · rw [hrows]
      exact List.prefix_append _ _
    · rw [hrows]

/-- **No stored amount is ever negative exactly if every event is covered** when it comes. -/
theorem amounts_nonneg_iff (hD : D.RoundsToNearest) (hI : D.ScalesI128)
    (h : SoundPositions w.db) (calls : List EventCall) :
    (∀ row ∈ (run (Lumina.processed D X config) w calls).db.lendingPositions,
      0 ≤ row.collateralAmount ∧ 0 ≤ row.debtAmount) ↔
      Each (Lumina.processed D X config) (Covered D X) w calls := by
  induction calls generalizing w with
  | nil => exact iff_of_true (fun row hrow => (h row hrow).2) trivial
  | cons c calls ih =>
    rw [run_cons, each_cons]
    constructor
    · intro hall
      have hcovered : Covered D X w c := (h.processed_iff hD hI).1 fun row hrow =>
        hall row ((lendingPositions_prefix_run calls).subset hrow)
      exact ⟨hcovered, (ih (h.processed hD hI hcovered)).1 hall⟩
    · rintro ⟨hcovered, hrest⟩
      exact (ih (h.processed hD hI hcovered)).2 hrest

end Lumina

/-! ### A negative supply -/

namespace Lumina.Sample

open Lumina.Trace

/-- The formats, with one more value. -/
def codecWith (text : String) (value : ScVal) : Codec where
  fromXdrBase64 t := if t = text then some value else codec.fromXdrBase64 t
  accountStrkey := codec.accountStrkey
  contractStrkey := codec.contractStrkey
  parseTime := codec.parseTime

/-- Minus five units of an asset. -/
def negativeCodec : Codec :=
  codecWith "AAAACv////////////////0FD4A=" (.i128 (-1) 18446744073659551616)

/-- A supply of the collateral, with the XDR text of its amount. -/
def supplyCall (value : String) : EventCall where
  prices _ := none
  bands := .default
  env := env
  event := { event .supplyCollateral usdc 100 "2026-01-01T00:00:00Z" with value := value }

def roundedDecimal : RustDecimal := .rounding decimal.fromStr

/-- A supply of minus five units to a new position is stored as it is. -/
theorem negative_supply_stored :
    ¬ ∀ row ∈ (run (processed roundedDecimal negativeCodec Config.default) World.empty
        [supplyCall "AAAACv////////////////0FD4A="]).db.lendingPositions,
      0 ≤ row.collateralAmount ∧ 0 ≤ row.debtAmount := by
  decide +kernel

/-- The same supply five seconds later. -/
def negativeLater : EventCall where
  prices _ := none
  bands := .default
  env := env
  event := { event .supplyCollateral usdc 100 "2026-01-01T00:00:05Z" with
    value := "AAAACv////////////////0FD4A=" }

/-- After a supply of a hundred, one of minus five is covered. -/
theorem supply_covered :
    Each (processed roundedDecimal negativeCodec Config.default)
      (Covered roundedDecimal negativeCodec) World.empty
        [supplyCall (amountXdr 100), negativeLater] ∧
      (run (processed roundedDecimal negativeCodec Config.default) World.empty
        [supplyCall (amountXdr 100), negativeLater]).db.lendingPositions.map
          (·.collateralAmount) = [100, 95] :=
  have hempty : SoundPositions World.empty.db := fun _ h => absurd h List.not_mem_nil
  ⟨(amounts_nonneg_iff (RustDecimal.rounding_roundsToNearest _)
    (RustDecimal.rounding_scalesI128 _) hempty [supplyCall (amountXdr 100), negativeLater]).1
      (by decide +kernel), by decide +kernel⟩

end Lumina.Sample
