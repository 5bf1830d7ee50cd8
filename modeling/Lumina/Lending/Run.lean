import Lumina.Alerts.Record
import Lumina.Model.Soroban

/-!
# Runs of `processEvent`

What one call of `processEvent` does to the database (`storeEvent_cases`,
`processEvent_recorded`), and the runs in which every call writes its row (`Run`).  The rows of
one position are then a log, in the order of its events; where the times increase along the log,
reading the latest row reads its last row, however the database breaks ties
(`Run.latestLendingRow_eq`), and that row holds the fold of all events (`Run.foldHoldings_eq`).

The last section has a few events of one account as the RPC reports them.
-/

namespace Lumina

variable {D : RustDecimal} {X : Codec} {config : Config} {prices : PriceMap} {bands : LtvBands}
  {env : EventEnv} {event : RpcEvent}

/-! ### One event -/

/-- The row that an event would add to the database, read with the choice `tie`. -/
def rowAfter (D : RustDecimal) (prices : PriceMap) (tie : ℕ) (poolContract : String) (e : Decoded)
    (db : Db) : Option LendingPositionRow :=
  nextPosition D prices poolContract
    (latestLendingPosition tie "blend" poolContract e.account db) e

/-- The alert of a row that an event adds to the database. -/
def alertAfter (bands : LtvBands) (tie : ℕ) (row : LendingPositionRow) (db : Db) :
    Option (Option PendingAlert) :=
  lendingAlert bands (latestLendingPosition tie "blend" row.poolContract row.account db) row

theorem nextPosition_eq_some {poolContract : String} {latest : Option LendingPositionRow}
    {e : Decoded} {row : LendingPositionRow}
    (h : nextPosition D prices poolContract latest e = some row) :
    ((latest.map (·.holdings)).getD Holdings.empty).apply D e = some row.holdings ∧
      row.time = e.time ∧ row.protocol = "blend" ∧ row.poolContract = poolContract ∧
      row.account = e.account ∧
      computeLendingRisk D row.collateralAmount (prices row.collateralAsset) row.debtAmount
        (prices row.debtAsset) = some (row.ltv, row.healthFactor) := by
  unfold nextPosition at h
  cases hh : ((latest.map (·.holdings)).getD Holdings.empty).apply D e with
  | none => simp [hh] at h
  | some a =>
    cases hr : computeLendingRisk D a.collateralAmount (prices a.collateralAsset) a.debtAmount
        (prices a.debtAsset) with
    | none => simp [hh, hr] at h
    | some r =>
      simp only [hh, hr, Option.bind_eq_bind, Option.bind_some, Option.pure_def,
        Option.some.injEq] at h
      subst h
      exact ⟨rfl, rfl, rfl, rfl, rfl, hr⟩

/-- A position event whose calls go through and whose arithmetic has a result writes its row. -/
theorem storeEvent_ok {e : Decoded} {row : LendingPositionRow} {w : World}
    (hd : decodeEvent D X event = .ret (some e)) (hl : env.latest = .ok) (hi : env.insert = .ok)
    (hr : rowAfter D prices env.tie event.contractId e w.db = some row) :
    storeEvent D X prices bands env event w =
      (match alertAfter bands env.tie row w.db with
        | some alert => .ret (some alert)
        | none => .panic, { w with db := insertLendingPosition row w.db }) := by
  obtain ⟨-, -, -, hc, ha, -⟩ := nextPosition_eq_some hr
  unfold rowAfter at hr
  simp only [storeEvent, Proc.bind_apply, Proc.lift_apply, hd, fetch, hl, Proc.await_ok, hr,
    Outcome.orPanic_some, exec, hi, alertAfter, hc, ha]
  cases lendingAlert bands (latestLendingPosition env.tie "blend" event.contractId e.account w.db)
    row <;> rfl

variable (D X prices bands env event) in
/-- **What one event does up to its insertion**: it writes its row and returns the alert of the
row, unless `short` panics, or it leaves everything as it is. -/
theorem storeEvent_cases (w : World) :
    (∃ e row, decodeEvent D X event = .ret (some e) ∧ env.latest = .ok ∧ env.insert = .ok ∧
      rowAfter D prices env.tie event.contractId e w.db = some row ∧
      storeEvent D X prices bands env event w =
        (match alertAfter bands env.tie row w.db with
          | some alert => .ret (some alert)
          | none => .panic, { w with db := insertLendingPosition row w.db })) ∨
    ((∀ alert, (storeEvent D X prices bands env event w).1 ≠ .ret (some alert)) ∧
      (storeEvent D X prices bands env event w).2 = w ∧
      ∀ e, decodeEvent D X event = .ret (some e) → env.latest = .ok → env.insert = .ok →
        (storeEvent D X prices bands env event w).1 = .panic) := by
  cases hd : decodeEvent D X event with
  | ret d =>
    cases d with
    | none => exact .inr (by simp [storeEvent, Proc.bind_apply, hd])
    | some e =>
      cases hl : env.latest with
      | fail => exact .inr (by simp [storeEvent, Proc.bind_apply, hd, fetch, hl])
      | stop => exact .inr (by simp [storeEvent, Proc.bind_apply, hd, fetch, hl])
      | ok =>
        cases hr : rowAfter D prices env.tie event.contractId e w.db with
        | none =>
          unfold rowAfter at hr
          exact .inr (by simp [storeEvent, Proc.bind_apply, hd, fetch, hl, hr])
        | some row =>
          cases hi : env.insert with
          | ok => exact .inl ⟨e, row, rfl, rfl, rfl, hr, storeEvent_ok hd hl hi hr⟩
          | fail =>
            unfold rowAfter at hr
            exact .inr (by simp [storeEvent, Proc.bind_apply, hd, fetch, hl, hr, exec, hi])
          | stop =>
            unfold rowAfter at hr
            exact .inr (by simp [storeEvent, Proc.bind_apply, hd, fetch, hl, hr, exec, hi])
  | err e => exact .inr (by simp [storeEvent, Proc.bind_apply, hd])
  | stop => exact .inr (by simp [storeEvent, Proc.bind_apply, hd])
  | panic => exact .inr (by simp [storeEvent, Proc.bind_apply, hd])

/-- The database after the alert of a row, if any, is recorded. -/
def recordedDb (env : RecordEnv) (alert : Option PendingAlert) (db : Db) : Db :=
  match alert with
  | none => db
  | some a =>
    if env.insertAlert = .ok then
      insertAlert env.now a.kind a.severity.asStr a.message a.details db
    else db

variable (config bands) in
/-- A call that writes the event's row records the alert of the row, or `short` panics. -/
theorem processEvent_stored {e : Decoded} {row : LendingPositionRow} {w : World}
    (hd : decodeEvent D X event = .ret (some e)) (hl : env.latest = .ok) (hi : env.insert = .ok)
    (hr : rowAfter D prices env.tie event.contractId e w.db = some row) :
    (processEvent D X config prices bands env event w).2.db =
        recordedDb env.record (alertAfter bands env.tie row w.db).join
          (insertLendingPosition row w.db) ∧
      (alertAfter bands env.tie row w.db = none →
        (processEvent D X config prices bands env event w).1 = .panic) := by
  unfold processEvent
  rw [Proc.bind_apply, storeEvent_ok hd hl hi hr]
  cases alertAfter bands env.tie row w.db with
  | none => exact ⟨rfl, fun _ => rfl⟩
  | some alert =>
    cases alert with
    | none => exact ⟨rfl, by simp⟩
    | some a =>
      -- an error of the recording is logged
      have hlogged := Proc.attempt_bind_pure_snd (record env.record config.webhook a) true
        { w with db := insertLendingPosition row w.db }
      exact ⟨(congrArg World.db hlogged).trans (record_db _ _ _ _), by simp⟩

/-- **A call that returns `true`** has written the event's row and recorded its alert. -/
theorem processEvent_recorded {w w' : World}
    (h : processEvent D X config prices bands env event w = (.ret true, w')) :
    ∃ e row alert, decodeEvent D X event = .ret (some e) ∧
      rowAfter D prices env.tie event.contractId e w.db = some row ∧
      alertAfter bands env.tie row w.db = some alert ∧
      w'.db = recordedDb env.record alert (insertLendingPosition row w.db) := by
  rcases storeEvent_cases D X prices bands env event w with
    ⟨e, row, hd, hl, hi, hr, -⟩ | ⟨hne, -, -⟩
  · obtain ⟨hdb, hpanic⟩ := processEvent_stored config bands hd hl hi hr
    rw [h] at hdb hpanic
    cases ha : alertAfter bands env.tie row w.db with
    | none => exact absurd (hpanic ha) (by simp)
    | some alert =>
      rw [ha] at hdb
      exact ⟨e, row, alert, hd, hr, ha, hdb⟩
  · unfold processEvent at h
    rw [Proc.bind_apply] at h
    generalize storeEvent D X prices bands env event w = r at h hne
    obtain ⟨o, w₁⟩ := r
    cases o with
    | ret a =>
      cases a with
      | none => simp at h
      | some a => exact absurd rfl (hne a)
    | err u => simp at h
    | stop => simp at h
    | panic => simp at h

@[simp] theorem recordedDb_lendingPositions (r : RecordEnv) (alert : Option PendingAlert)
    (db : Db) :
    (recordedDb r alert db).lendingPositions = db.lendingPositions := by
  cases alert with
  | none => rfl
  | some a => simp only [recordedDb]; split_ifs <;> rfl

/-! ### The holdings of a sequence of events -/

/-- The holdings that a sequence of events adds up to; `none` is the panic of the
arithmetic. -/
def foldHoldings (D : RustDecimal) (es : List Decoded) : Option Holdings :=
  es.foldlM (fun h e => h.apply D e) Holdings.empty

@[simp] theorem foldHoldings_nil : foldHoldings D [] = some Holdings.empty := rfl

theorem foldHoldings_append (es : List Decoded) (e : Decoded) :
    foldHoldings D (es ++ [e]) = (foldHoldings D es).bind fun h => h.apply D e := by
  simp [foldHoldings]

/-! ### Runs -/

/-- A position event with the settings and the environment it is processed under. -/
structure Delivery (D : RustDecimal) (X : Codec) where
  prices : PriceMap
  bands : LtvBands
  env : EventEnv
  event : RpcEvent
  decoded : Decoded
  decodes : decodeEvent D X event = .ret (some decoded)

/-- A processed event with the row it wrote. -/
structure Step (D : RustDecimal) (X : Codec) extends Delivery D X where
  row : LendingPositionRow

/-- The events of `steps`, each processed without a failure, take `w` to `w'`. -/
inductive Run (config : Config) (w : World) : List (Step D X) → World → Prop
  | nil : Run config w [] w
  | snoc {steps : List (Step D X)} {w₁ w₂ : World} {d : Delivery D X} {row : LendingPositionRow} :
      Run config w steps w₁ →
      processEvent D X config d.prices d.bands d.env d.event w₁ = (.ret true, w₂) →
      rowAfter D d.prices d.env.tie d.event.contractId d.decoded w₁.db = some row →
      Run config w (steps ++ [⟨d, row⟩]) w₂

/-- Every event concerns the position of `account` in `contract`. -/
def Concerns (contract account : String) (steps : List (Step D X)) : Prop :=
  ∀ s ∈ steps, s.event.contractId = contract ∧ s.decoded.account = account

/-- The events come at increasing times. -/
def Increasing (steps : List (Step D X)) : Prop :=
  steps.Pairwise fun s s' => s.decoded.time < s'.decoded.time

/-- The table has no row of the position. -/
def NoRows (contract account : String) (db : Db) : Prop :=
  lendingRows "blend" contract account db = []

variable {w w' : World} {steps : List (Step D X)} {contract account : String}

/-- A run that ends with an event comes from a run up to it. -/
theorem Run.snoc_cases {s : Step D X} (h : Run config w (steps ++ [s]) w') :
    ∃ w₁, Run config w steps w₁ ∧
      processEvent D X config s.prices s.bands s.env s.event w₁ = (.ret true, w') ∧
      rowAfter D s.prices s.env.tie s.event.contractId s.decoded w₁.db = some s.row := by
  generalize hl : steps ++ [s] = l at h
  cases h with
  | nil => simp at hl
  | @snoc steps' w₁ _ d row hrun hp hr =>
    obtain ⟨rfl, hs⟩ := List.append_inj' hl rfl
    obtain rfl : s = ⟨d, row⟩ := by simpa using hs
    exact ⟨w₁, hrun, hp, hr⟩

/-- A run begins with a run of its first events. -/
theorem Run.of_prefix {l : List (Step D X)} (h : Run config w steps w') (hp : l <+: steps) :
    ∃ w₁, Run config w l w₁ := by
  obtain ⟨more, rfl⟩ := hp
  induction more using List.reverseRecOn generalizing w' with
  | nil => exact ⟨w', by simpa using h⟩
  | append_singleton more s ih =>
    rw [← List.append_assoc] at h
    obtain ⟨w₁, h₁, -⟩ := h.snoc_cases
    exact ih h₁

/-- An event without an alert extends a run by its row. -/
theorem Run.snoc_quiet {d : Delivery D X} {row : LendingPositionRow} (h : Run config w steps w')
    (hl : d.env.latest = .ok) (hi : d.env.insert = .ok)
    (hr : rowAfter D d.prices d.env.tie d.event.contractId d.decoded w'.db = some row)
    (ha : alertAfter d.bands d.env.tie row w'.db = some none) :
    Run config w (steps ++ [⟨d, row⟩]) { w' with db := insertLendingPosition row w'.db } := by
  refine h.snoc ?_ hr
  unfold processEvent
  rw [Proc.bind_apply, storeEvent_ok d.decodes hl hi hr, ha]
  rfl

/-- An event that is processed extends a run to the world it leads to. -/
theorem Run.snoc_computed {d : Delivery D X} {row : LendingPositionRow} (h : Run config w steps w')
    (hp : (processEvent D X config d.prices d.bands d.env d.event w').1 = .ret true)
    (hr : rowAfter D d.prices d.env.tie d.event.contractId d.decoded w'.db = some row) :
    Run config w (steps ++ [⟨d, row⟩])
      (processEvent D X config d.prices d.bands d.env d.event w').2 :=
  h.snoc (Prod.ext hp rfl) hr

/-- One step of a run: the row is appended and its alert recorded. -/
theorem processEvent_step {d : Delivery D X} {row : LendingPositionRow}
    (hp : processEvent D X config d.prices d.bands d.env d.event w = (.ret true, w'))
    (hr : rowAfter D d.prices d.env.tie d.event.contractId d.decoded w.db = some row) :
    ∃ alert, alertAfter d.bands d.env.tie row w.db = some alert ∧
      w'.db = recordedDb d.env.record alert (insertLendingPosition row w.db) := by
  obtain ⟨e, row', alert, hd, hr', ha, hdb⟩ := processEvent_recorded hp
  rw [d.decodes] at hd
  obtain rfl : d.decoded = e := by simpa using hd
  obtain rfl : row = row' := by simpa [hr] using hr'
  exact ⟨alert, ha, hdb⟩

/-- A run appends the rows of its events. -/
theorem Run.lendingPositions (h : Run config w steps w') :
    w'.db.lendingPositions = w.db.lendingPositions ++ steps.map (·.row) := by
  induction h with
  | nil => simp
  | snoc _ hp hr ih =>
    obtain ⟨alert, -, hdb⟩ := processEvent_step hp hr
    simp [hdb, insertLendingPosition, ih]

/-- The rows of a run say which event they come from. -/
theorem Run.row_spec (h : Run config w steps w') :
    ∀ s ∈ steps, s.row.time = s.decoded.time ∧ s.row.protocol = "blend" ∧
      s.row.poolContract = s.event.contractId ∧ s.row.account = s.decoded.account := by
  induction h with
  | nil => simp
  | snoc _ _ hr ih =>
    intro s hs
    rcases List.mem_append.1 hs with hs | hs
    · exact ih s hs
    · obtain rfl := List.mem_singleton.1 hs
      obtain ⟨-, ht, hp, hc, ha, -⟩ := nextPosition_eq_some hr
      exact ⟨ht, hp, hc, ha⟩

/-- The rows of a position that had none are the rows of its events. -/
theorem Run.lendingRows_eq (h : Run config w steps w') (hc : Concerns contract account steps)
    (hw : NoRows contract account w.db) :
    lendingRows "blend" contract account w'.db =
      (steps.map (·.row)).zipIdx w.db.lendingPositions.length := by
  -- all rows of the run are of the position, and no other row is
  have hnew : ((steps.map (·.row)).zipIdx w.db.lendingPositions.length).filter (fun r =>
      r.1.protocol = "blend" && r.1.poolContract = contract && r.1.account = account) =
      (steps.map (·.row)).zipIdx w.db.lendingPositions.length := by
    rw [List.filter_eq_self]
    intro r hr
    obtain ⟨s, hs, hsr⟩ := List.mem_map.1 (List.fst_mem_of_mem_zipIdx hr)
    obtain ⟨-, hp, hpc, hpa⟩ := h.row_spec s hs
    obtain ⟨hsc, hsa⟩ := hc s hs
    simp [← hsr, hp, hpc, hpa, hsc, hsa]
  unfold NoRows lendingRows at hw
  rw [lendingRows, h.lendingPositions, List.zipIdx_append, List.filter_append, hw, Nat.zero_add,
    hnew, List.nil_append]

/-- **Where the times increase, the latest row is the last one**, whatever the choice. -/
theorem Run.latestLendingRow_eq {s : Step D X} (h : Run config w (steps ++ [s]) w')
    (hc : Concerns contract account (steps ++ [s])) (hw : NoRows contract account w.db)
    (hlt : ∀ s' ∈ steps, s'.decoded.time < s.decoded.time) (tie : ℕ) :
    latestLendingRow tie "blend" contract account w'.db =
      some (s.row, w.db.lendingPositions.length + steps.length) := by
  rw [latestLendingRow, h.lendingRows_eq hc hw, List.map_append, List.zipIdx_append]
  simp only [List.map_cons, List.map_nil, List.zipIdx_cons, List.zipIdx_nil, List.length_map]
  refine Sql.latest_append_of_lt ?_
  intro r hr
  obtain ⟨s', hs', hsr⟩ := List.mem_map.1 (List.fst_mem_of_mem_zipIdx hr)
  have ht := (h.row_spec s' (List.mem_append_left _ hs')).1
  have hts := (h.row_spec s (by simp)).1
  rw [← hsr, ht, hts]
  exact hlt s' hs'

theorem Increasing.lt_last {s : Step D X} (h : Increasing (steps ++ [s])) :
    ∀ s' ∈ steps, s'.decoded.time < s.decoded.time := fun s' hs' =>
  (List.pairwise_append.1 h).2.2 s' hs' s (by simp)

theorem Increasing.of_prefix {l : List (Step D X)} (h : Increasing steps) (hp : l <+: steps) :
    Increasing l := h.sublist hp.sublist

theorem Concerns.of_prefix {l : List (Step D X)} (h : Concerns contract account steps)
    (hp : l <+: steps) : Concerns contract account l := fun s hs => h s (hp.subset hs)

theorem Increasing.init {s : Step D X} (h : Increasing (steps ++ [s])) : Increasing steps :=
  h.of_prefix (List.prefix_append _ _)

theorem Concerns.init {s : Step D X} (h : Concerns contract account (steps ++ [s])) :
    Concerns contract account steps := h.of_prefix (List.prefix_append _ _)

/-- The base state that the next event of a position reads is that of its last row. -/
theorem Run.latest_holdings (h : Run config w steps w') (hc : Concerns contract account steps)
    (hw : NoRows contract account w.db) (hi : Increasing steps) (tie : ℕ) :
    latestLendingPosition tie "blend" contract account w'.db =
      (steps.getLast?).map (·.row) := by
  rcases List.eq_nil_or_concat steps with rfl | ⟨init, s, rfl⟩
  · have hrows := h.lendingRows_eq hc hw
    simp only [List.map_nil, List.zipIdx_nil] at hrows
    simp [latestLendingPosition, latestLendingRow, hrows]
  · simp only [List.concat_eq_append] at *
    simp [latestLendingPosition, h.latestLendingRow_eq hc hw hi.lt_last tie]

/-- The last event is applied to the holdings of the row before it. -/
theorem Run.apply_last {s : Step D X} (h : Run config w (steps ++ [s]) w')
    (hc : Concerns contract account (steps ++ [s])) (hw : NoRows contract account w.db)
    (hi : Increasing steps) :
    ((((steps.getLast?).map (·.row)).map (·.holdings)).getD Holdings.empty).apply D s.decoded =
      some s.row.holdings := by
  obtain ⟨w₁, hrun, -, hr⟩ := h.snoc_cases
  have hlast := hrun.latest_holdings hc.init hw hi s.env.tie
  obtain ⟨hsc, hsa⟩ := hc s (by simp)
  unfold rowAfter at hr
  rw [hsc, hsa, hlast] at hr
  exact (nextPosition_eq_some hr).1

/-- **The last row holds the fold of all events.** -/
theorem Run.foldHoldings_eq {s : Step D X} (h : Run config w (steps ++ [s]) w')
    (hc : Concerns contract account (steps ++ [s])) (hw : NoRows contract account w.db)
    (hi : Increasing steps) :
    foldHoldings D ((steps ++ [s]).map (·.decoded)) = some s.row.holdings := by
  have hlast := h.apply_last hc hw hi
  induction steps using List.reverseRecOn generalizing s w' with
  | nil => simpa [foldHoldings] using hlast
  | append_singleton init m ih =>
    obtain ⟨w₁, hrun, -, -⟩ := h.snoc_cases
    have hfold := ih hrun hc.init hi.init (hrun.apply_last hc.init hw hi.init)
    rw [List.map_append, List.map_singleton, foldHoldings_append, hfold]
    simpa using hlast

end Lumina

/-! ### Sample events -/

namespace Lumina.Sample

/-- The formats, on the values of the sample events. -/
def codec : Codec where
  fromXdrBase64 text :=
    if text = "AAAADwAAABFzdXBwbHlfY29sbGF0ZXJhbAAAAA==" then
      some (.symbol "supply_collateral".toUTF8)
    else if text = "AAAADwAAABN3aXRoZHJhd19jb2xsYXRlcmFsAA==" then
      some (.symbol "withdraw_collateral".toUTF8)
    else if text = "AAAADwAAAAZib3Jyb3cAAA==" then some (.symbol "borrow".toUTF8)
    else if text = "AAAADwAAAAVyZXBheQAAAA==" then some (.symbol "repay".toUTF8)
    else if text = "AAAAEgAAAAAAAAAAAQEBAQEBAQEBAQEBAQEBAQEBAQEBAQEBAQEBAQEBAQE=" then
      some (.address (.account (List.replicate 32 1)))
    else if text = "AAAAEgAAAAECAgICAgICAgICAgICAgICAgICAgICAgICAgICAgICAg==" then
      some (.address (.contract (List.replicate 32 2)))
    else if text = "AAAAEgAAAAEDAwMDAwMDAwMDAwMDAwMDAwMDAwMDAwMDAwMDAwMDAw==" then
      some (.address (.contract (List.replicate 32 3)))
    else if text = "AAAAEAAAAAEAAAACAAAACgAAAAAAAAAAAAAAADuaygAAAAAKAAAAAAAAAAAAAAAAO5lDYA==" then
      some (.vec (some [.i128 0 1000000000, .i128 0 999900000]))
    else if text = "AAAAEAAAAAEAAAACAAAACgAAAAAAAAAAAAAAAC+vCAAAAAAKAAAAAAAAAAAAAAAAL62BYA==" then
      some (.vec (some [.i128 0 800000000, .i128 0 799900000]))
    else if text = "AAAAEAAAAAEAAAACAAAACgAAAAAAAAAAAAAAAB3NZQAAAAAKAAAAAAAAAAAAAAAAHcveYA==" then
      some (.vec (some [.i128 0 500000000, .i128 0 499900000]))
    else if text = "AAAAEAAAAAEAAAACAAAACgAAAAAAAAAAAAAAAAX14QAAAAAKAAAAAAAAAAAAAAAABfRaYA==" then
      some (.vec (some [.i128 0 100000000, .i128 0 99900000]))
    else none
  accountStrkey bytes :=
    if bytes = List.replicate 32 1 then
      "GAAQCAIBAEAQCAIBAEAQCAIBAEAQCAIBAEAQCAIBAEAQCAIBAEAQDZ7H"
    else ""
  contractStrkey bytes :=
    if bytes = List.replicate 32 2 then
      "CABAEAQCAIBAEAQCAIBAEAQCAIBAEAQCAIBAEAQCAIBAEAQCAIBAFNSZ"
    else if bytes = List.replicate 32 3 then
      "CABQGAYDAMBQGAYDAMBQGAYDAMBQGAYDAMBQGAYDAMBQGAYDAMBQGCK3"
    else ""
  parseTime text :=
    if text = "2026-01-01T00:00:00Z" then some 1767225600000000
    else if text = "2026-01-01T00:00:05Z" then some 1767225605000000
    else if text = "2026-01-01T00:00:10Z" then some 1767225610000000
    else none

/-- The exact arithmetic, with the one number that the configuration below needs. -/
def decimal : RustDecimal := .exact fun text => if text = "1" then some 1 else none

def account : String := "GAAQCAIBAEAQCAIBAEAQCAIBAEAQCAIBAEAQCAIBAEAQCAIBAEAQDZ7H"

/-- The pool contract that emits the events. -/
def pool : String := "CACAIBAEAQCAIBAEAQCAIBAEAQCAIBAEAQCAIBAEAQCAIBAEAQCAINCW"

/-- Two reserves of the pool. -/
def usdc : String := "CABAEAQCAIBAEAQCAIBAEAQCAIBAEAQCAIBAEAQCAIBAEAQCAIBAFNSZ"

def eurc : String := "CABQGAYDAMBQGAYDAMBQGAYDAMBQGAYDAMBQGAYDAMBQGAYDAMBQGCK3"

/-- The XDR text of an event's name. -/
def nameXdr : PositionEvent → String
  | .supplyCollateral => "AAAADwAAABFzdXBwbHlfY29sbGF0ZXJhbAAAAA=="
  | .withdrawCollateral => "AAAADwAAABN3aXRoZHJhd19jb2xsYXRlcmFsAA=="
  | .borrow => "AAAADwAAAAZib3Jyb3cAAA=="
  | .repay => "AAAADwAAAAVyZXBheQAAAA=="

/-- The XDR text of a reserve. -/
def assetXdr (asset : String) : String :=
  if asset = usdc then "AAAAEgAAAAECAgICAgICAgICAgICAgICAgICAgICAgICAgICAgICAg=="
  else "AAAAEgAAAAEDAwMDAwMDAwMDAwMDAwMDAwMDAwMDAwMDAwMDAwMDAw=="

/-- The XDR text of an amount and the pool tokens that it is worth. -/
def amountXdr : ℕ → String
  | 100 => "AAAAEAAAAAEAAAACAAAACgAAAAAAAAAAAAAAADuaygAAAAAKAAAAAAAAAAAAAAAAO5lDYA=="
  | 80 => "AAAAEAAAAAEAAAACAAAACgAAAAAAAAAAAAAAAC+vCAAAAAAKAAAAAAAAAAAAAAAAL62BYA=="
  | 50 => "AAAAEAAAAAEAAAACAAAACgAAAAAAAAAAAAAAAB3NZQAAAAAKAAAAAAAAAAAAAAAAHcveYA=="
  | _ => "AAAAEAAAAAEAAAACAAAACgAAAAAAAAAAAAAAAAX14QAAAAAKAAAAAAAAAAAAAAAABfRaYA=="

/-- An event of the account in a ledger that closes at the given text. -/
def event (kind : PositionEvent) (asset : String) (amount : ℕ) (ledgerClosedAt : String) :
    RpcEvent where
  id := "0000000001-0000000001"
  contractId := pool
  topic := [nameXdr kind, assetXdr asset,
    "AAAAEgAAAAAAAAAAAQEBAQEBAQEBAQEBAQEBAQEBAQEBAQEBAQEBAQEBAQE="]
  value := amountXdr amount
  ledgerClosedAt := ledgerClosedAt

/-- An environment in which every call goes through. -/
def env : EventEnv := ⟨0, .ok, .ok, .clean 0⟩

/-- An event processed without prices, in that environment. -/
def delivery (event : RpcEvent) (decoded : Decoded)
    (decodes : decodeEvent decimal codec event = .ret (some decoded)) : Delivery decimal codec :=
  ⟨fun _ => none, .default, env, event, decoded, decodes⟩

/-- 100 of the collateral are supplied. -/
def supply : Delivery decimal codec :=
  delivery (event .supplyCollateral usdc 100 "2026-01-01T00:00:00Z")
    ⟨.supplyCollateral, usdc, account, 100, 1767225600000000⟩ (by decide +kernel)

def supplyRow : LendingPositionRow :=
  ⟨1767225600000000, "blend", pool, account, usdc, 100, "", 0, none, none⟩

def supplied : World :=
  { World.empty with db := insertLendingPosition supplyRow World.empty.db }

theorem run_supply : Run Config.default World.empty [⟨supply, supplyRow⟩] supplied :=
  Run.nil.snoc_quiet rfl rfl (by decide +kernel) (by decide +kernel)

/-- 50 are borrowed in the next ledger. -/
def borrowLater : Delivery decimal codec :=
  delivery (event .borrow eurc 50 "2026-01-01T00:00:05Z")
    ⟨.borrow, eurc, account, 50, 1767225605000000⟩ (by decide +kernel)

def borrowLaterRow : LendingPositionRow :=
  ⟨1767225605000000, "blend", pool, account, usdc, 100, eurc, 50, none, none⟩

def borrowedLater : World :=
  { supplied with db := insertLendingPosition borrowLaterRow supplied.db }

theorem run_borrowLater :
    Run Config.default World.empty [⟨supply, supplyRow⟩, ⟨borrowLater, borrowLaterRow⟩]
      borrowedLater :=
  run_supply.snoc_quiet rfl rfl (by decide +kernel) (by decide +kernel)

theorem concerns_borrowLater :
    Concerns pool account [⟨supply, supplyRow⟩, ⟨borrowLater, borrowLaterRow⟩] := by
  intro s hs
  simp only [List.mem_cons, List.not_mem_nil, or_false] at hs
  rcases hs with rfl | rfl <;> exact ⟨rfl, rfl⟩

theorem increasing_borrowLater :
    Increasing [⟨supply, supplyRow⟩, ⟨borrowLater, borrowLaterRow⟩] := by
  simp [Increasing, supply, borrowLater, delivery]

end Lumina.Sample
