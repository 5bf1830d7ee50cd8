import Lumina.Lending.Run

/-!
# One cycle of the lending ingester

A cycle reads a batch of events (`readBatch`), processes it event by event (`processAll`) and
writes the cursor.  Reading changes nothing; the loop writes a row for each position event whose
calls go through, until the process is cut off; the cursor moves last
(`ingestLendingCycle_eq`).

## Main definitions

* `readBatch` : the part of the cycle before its loop.
* `processAll` : the loop, over events numbered in any way.
* `Goes` : the calls of an event that write its row go through.
-/

namespace Lumina

variable {D : RustDecimal} {X : Codec} {config : Config} {prices : PriceMap} {bands : LtvBands}
  {env : ℕ → EventEnv} {w w' : World}

/-! ### The loop -/

/-- The loop over events with their numbers. -/
def processAll (D : RustDecimal) (X : Codec) (config : Config) (prices : PriceMap)
    (bands : LtvBands) (env : ℕ → EventEnv) (l : List (RpcEvent × ℕ)) : Proc World Error Unit :=
  l.foldlM (fun _ (event, i) => do
    let _ ← (processEvent D X config prices bands (env i) event).attempt) ()

theorem processEvents_eq (events : List RpcEvent) :
    processEvents D X config prices bands env events =
      processAll D X config prices bands env events.zipIdx := rfl

theorem processAll_cons (event : RpcEvent) (i : ℕ) (l : List (RpcEvent × ℕ)) (w : World) :
    processAll D X config prices bands env ((event, i) :: l) w =
      match processEvent D X config prices bands (env i) event w with
      | (.stop, w₁) => (.stop, w₁)
      | (.panic, w₁) => (.panic, w₁)
      | (_, w₁) => processAll D X config prices bands env l w₁ := by
  simp only [processAll, List.foldlM_cons, Proc.bind_apply, Proc.attempt_apply]
  generalize processEvent D X config prices bands (env i) event w = r
  obtain ⟨o, w₁⟩ := r
  cases o <;> rfl

/-- A loop that is not cut off processes its first event, and then the others. -/
theorem processAll_cons_of_not_cutOff {event : RpcEvent} {i : ℕ} {l : List (RpcEvent × ℕ)}
    (h : ¬ (processAll D X config prices bands env ((event, i) :: l)).CutOff w) :
    ¬ (processEvent D X config prices bands (env i) event).CutOff w ∧
      processAll D X config prices bands env ((event, i) :: l) w =
        processAll D X config prices bands env l
          (processEvent D X config prices bands (env i) event w).2 := by
  have hcons : processAll D X config prices bands env ((event, i) :: l) w = _ :=
    processAll_cons event i l w
  unfold Proc.CutOff at h ⊢
  rw [hcons] at h ⊢
  generalize processEvent D X config prices bands (env i) event w = r at h
  obtain ⟨o, w₁⟩ := r
  cases o with
  | ret a => exact ⟨by simp, rfl⟩
  | err e => exact ⟨by simp, rfl⟩
  | stop => simp at h
  | panic => simp at h

/-! ### One event of the loop -/

/-- The two calls that write the row of an event go through. -/
def Goes (env : EventEnv) : Prop := env.latest = .ok ∧ env.insert = .ok

variable (D X config prices bands) in
/-- **One event of the loop**: its row is written, with the alert of the row, or nothing
happens; where the calls of a position event go through, the process is then cut off. -/
theorem processEvent_cases (env : EventEnv) (event : RpcEvent) (w : World) :
    (∃ e row alert, decodeEvent D X event = .ret (some e) ∧ Goes env ∧
      rowAfter D prices env.tie event.contractId e w.db = some row ∧
      (processEvent D X config prices bands env event w).2.db =
        recordedDb env.record alert (insertLendingPosition row w.db)) ∨
    ((processEvent D X config prices bands env event w).2 = w ∧
      ∀ e, decodeEvent D X event = .ret (some e) → Goes env →
        (processEvent D X config prices bands env event).CutOff w) := by
  rcases storeEvent_cases D X prices bands env event w with
    ⟨e, row, hd, hl, hi, hr, -⟩ | ⟨hne, hw, hp⟩
  · obtain ⟨hdb, -⟩ := processEvent_stored config bands hd hl hi hr
    exact .inl ⟨e, row, _, hd, ⟨hl, hi⟩, hr, hdb⟩
  · refine .inr ?_
    unfold Proc.CutOff processEvent
    rw [Proc.bind_apply]
    generalize storeEvent D X prices bands env event w = r at hne hw hp
    obtain ⟨o, w₁⟩ := r
    have hpanic : ∀ e, decodeEvent D X event = .ret (some e) → Goes env → o = .panic :=
      fun e hd hg => hp e hd hg.1 hg.2
    cases o with
    | ret a =>
      cases a with
      | none => exact ⟨hw, fun e hd hg => absurd (hpanic e hd hg) (by simp)⟩
      | some a => exact absurd rfl (hne a)
    | err u => exact ⟨hw, fun e hd hg => absurd (hpanic e hd hg) (by simp)⟩
    | stop => exact ⟨hw, fun e hd hg => .inl rfl⟩
    | panic => exact ⟨hw, fun e hd hg => .inr rfl⟩

/-! ### The rows of the loop -/

/-- A row that is written, with the calls that were made for its event and the row that it
follows. -/
structure StoredRow where
  calls : EventEnv
  latest : Option LendingPositionRow
  row : LendingPositionRow

section StoredRow

variable (D X config prices)

/-- What an event writes into the world `w`. -/
def storedRow (calls : EventEnv) (event : RpcEvent) (w : World) : Option StoredRow :=
  match decodeEvent D X event with
  | .ret (some e) =>
    if calls.latest = .ok ∧ calls.insert = .ok then
      (rowAfter D prices calls.tie event.contractId e w.db).map fun row =>
        ⟨calls, latestLendingPosition calls.tie "blend" row.poolContract row.account w.db, row⟩
    else none
  | _ => none

/-- What the loop over lending events writes from `w` on, until the process is cut off. -/
def storedRows (bands : LtvBands) (env : ℕ → EventEnv) :
    List (RpcEvent × ℕ) → World → List StoredRow
  | [], _ => []
  | (event, i) :: l, w =>
    (storedRow D X prices (env i) event w).toList ++
      match processEvent D X config prices bands (env i) event w with
      | (.stop, _) => []
      | (.panic, _) => []
      | (_, w₁) => storedRows bands env l w₁

end StoredRow

theorem storedRow_eq_some {calls : EventEnv} {event : RpcEvent} {s : StoredRow}
    (h : storedRow D X prices calls event w = some s) :
    ∃ e, decodeEvent D X event = .ret (some e) ∧ Goes calls ∧ s.calls = calls ∧
      rowAfter D prices calls.tie event.contractId e w.db = some s.row ∧
      s.latest = latestLendingPosition calls.tie "blend" s.row.poolContract s.row.account w.db := by
  unfold storedRow at h
  split at h
  · rename_i e hd
    split_ifs at h with hgoes
    obtain ⟨row, hrow, rfl⟩ := Option.map_eq_some_iff.1 h
    exact ⟨e, hd, hgoes, rfl, hrow, rfl⟩
  · cases h

theorem storedRow_of_row {calls : EventEnv} {event : RpcEvent} {e : Decoded}
    {row : LendingPositionRow} (hd : decodeEvent D X event = .ret (some e)) (hg : Goes calls)
    (hr : rowAfter D prices calls.tie event.contractId e w.db = some row) :
    storedRow D X prices calls event w = some ⟨calls,
      latestLendingPosition calls.tie "blend" row.poolContract row.account w.db, row⟩ := by
  unfold storedRow
  rw [hd]
  dsimp only
  rw [hr]
  exact if_pos hg

/-! ### The cycle -/

/-- What a cycle does before its loop: the bands, the events and the cursor after them. -/
def readBatch (env : LendingEnv) (contractIds : List String) :
    Proc World Error (LtvBands × List RpcEvent × Option String) := do
  let rules ← loadRules env.rules
  let cursor ← fetch env.getCursor (getIngestCursor eventsCursorKey)
  let startLedger ← match cursor with
    | some _ => pure none
    | none => do
      let sequence ← Proc.lift env.latestLedger
      pure (some (sequence - coldStartLedgerLookback))
  let (events, nextCursor) ←
    Proc.lift (getEvents env.rpc startLedger cursor contractIds maxEventPages)
  return (resolveLtvBands rules, events, nextCursor)

theorem readBatch_world (env : LendingEnv) (contractIds : List String) (w : World) :
    (readBatch env contractIds w).2 = w := by
  have hrules : Proc.Within Eq (loadRules env.rules) := by
    refine Proc.Within.bind (R := Eq) (within_fetch (R := Eq)).attempt ?_
    intro r
    cases r <;> exact Proc.within_pure _
  have heq : Proc.Within Eq (readBatch env contractIds) := by
    refine hrules.bind ?_
    intro rules
    refine Proc.Within.bind (R := Eq) within_fetch ?_
    intro cursor
    have hevents : ∀ startLedger : Option ℕ, Proc.Within Eq (do
        let (events, nextCursor) ←
          Proc.lift (getEvents env.rpc startLedger cursor contractIds maxEventPages)
        return (resolveLtvBands rules, events, nextCursor) :
          Proc World Error (LtvBands × List RpcEvent × Option String)) := fun startLedger =>
      Proc.Within.bind (R := Eq) (Proc.within_lift _) fun _ => Proc.within_pure _
    cases cursor with
    | some c => exact Proc.Within.bind (R := Eq) (Proc.within_pure _) hevents
    | none =>
      refine Proc.Within.bind (R := Eq) (Proc.within_lift _) ?_
      intro sequence
      exact Proc.Within.bind (R := Eq) (Proc.within_pure _) hevents
  exact (heq w).symm

/-- A cycle reads its batch, processes it and then moves the cursor. -/
theorem ingestLendingCycle_eq (env : LendingEnv) (contractIds : List String) (w : World) :
    ingestLendingCycle D X config env contractIds w =
      match readBatch env contractIds w with
      | (.ret (bands, events, next), w₁) =>
        (do
          processEvents D X config (config.blendAssetPricesUsd D) bands env.event events
          match next with
          | none => pure ()
          | some c => exec env.setCursor (setIngestCursor eventsCursorKey c)) w₁
      | (.err e, w₁) => (.err e, w₁)
      | (.stop, w₁) => (.stop, w₁)
      | (.panic, w₁) => (.panic, w₁) := by
  simp only [ingestLendingCycle, readBatch, Proc.bind_apply]
  cases loadRules env.rules w with
  | mk o w₁ =>
    cases o with
    | ret rules =>
      simp only
      cases fetch env.getCursor (getIngestCursor eventsCursorKey) w₁ with
      | mk o w₂ =>
        cases o with
        | ret cursor =>
          cases cursor with
          | some c =>
            simp only [Proc.bind_apply, Proc.pure_apply, Proc.lift_apply]
            cases getEvents env.rpc none (some c) contractIds maxEventPages <;> rfl
          | none =>
            simp only [Proc.bind_apply, Proc.lift_apply]
            cases env.latestLedger with
            | ret sequence =>
              simp only [Proc.pure_apply]
              cases getEvents env.rpc (some (sequence - coldStartLedgerLookback)) none contractIds
                maxEventPages <;> rfl
            | err e => rfl
            | stop => rfl
            | panic => rfl
        | err e => rfl
        | stop => rfl
        | panic => rfl
    | err e => rfl
    | stop => rfl
    | panic => rfl

/-- A cycle that reads no batch changes nothing. -/
theorem ingestLendingCycle_of_no_batch {env : LendingEnv} {contractIds : List String}
    (h : ∀ r, (readBatch env contractIds w).1 ≠ .ret r) :
    (ingestLendingCycle D X config env contractIds w).2 = w := by
  have hw := readBatch_world env contractIds w
  rw [ingestLendingCycle_eq]
  generalize readBatch env contractIds w = r at h hw
  obtain ⟨o, w₁⟩ := r
  cases o with
  | ret r => exact absurd rfl (h r)
  | err e => exact hw
  | stop => exact hw
  | panic => exact hw

end Lumina
