import Lumina.Lending.Run

/-!
# Rows that tie

The rows of a position carry the closing time of their ledger and nothing else that orders them,
so the rows of two events of one ledger tie under `ORDER BY time DESC`.  After every event of a
run the queries return the row of that event, whatever the database chooses, exactly when no two
events share a time and none comes early (`Run.readsLast_iff`).

## Main definitions

* `ReadsLast` : the queries return the row of the last event, and it holds the fold of all.
-/

namespace Lumina

variable {D : RustDecimal} {X : Codec} {config : Config} {w w' : World} {steps : List (Step D X)}
  {contract account : String}

theorem mem_listLendingRows {tie : String × String × String → ℕ} {db : Db}
    {r : LendingPositionRow × ℕ} :
    r ∈ listLendingRows tie db ↔
      latestLendingRow (tie (r.1.protocol, r.1.poolContract, r.1.account)) r.1.protocol
        r.1.poolContract r.1.account db = some r := by
  rw [listLendingRows, Sql.mem_distinctOn, latestLendingRow, lendingRows]
  simp only [Prod.mk.injEq, Bool.decide_and, Bool.and_assoc]

/-- Whatever the database chooses, both queries return the row of the last event of
`steps ++ [s]`, which is the one at the place it was inserted at, and the row holds the fold of
all the events. -/
structure ReadsLast (contract account : String) (w w' : World) (steps : List (Step D X))
    (s : Step D X) : Prop where
  latest : ∀ tie, latestLendingRow tie "blend" contract account w'.db =
    some (s.row, w.db.lendingPositions.length + steps.length)
  listed : ∀ tie, ∀ r : LendingPositionRow × ℕ,
    r.1.protocol = "blend" → r.1.poolContract = contract → r.1.account = account →
      (r ∈ listLendingRows tie w'.db ↔
        r = (s.row, w.db.lendingPositions.length + steps.length))
  fold : foldHoldings D ((steps ++ [s]).map (·.decoded)) = some s.row.holdings

/-- Increasing times leave the database no choice. -/
theorem Run.readsLast {s : Step D X} (h : Run config w (steps ++ [s]) w')
    (hc : Concerns contract account (steps ++ [s])) (hw : NoRows contract account w.db)
    (hi : Increasing (steps ++ [s])) : ReadsLast contract account w w' steps s where
  latest := h.latestLendingRow_eq hc hw hi.lt_last
  listed tie r hp hpc hpa := by
    rw [mem_listLendingRows, hp, hpc, hpa, h.latestLendingRow_eq hc hw hi.lt_last,
      Option.some.injEq]
    exact eq_comm
  fold := h.foldHoldings_eq hc hw hi.init

/-- Where every choice returns the last row, no earlier row has a time as late. -/
theorem Run.lt_last_of_latest {s : Step D X} (h : Run config w (steps ++ [s]) w')
    (hc : Concerns contract account (steps ++ [s])) (hw : NoRows contract account w.db)
    (hl : ∀ tie, latestLendingRow tie "blend" contract account w'.db =
      some (s.row, w.db.lendingPositions.length + steps.length)) :
    ∀ s' ∈ steps, s'.decoded.time < s.decoded.time := by
  intro s' hs'
  by_contra hle
  rw [not_lt] at hle
  have hrows := h.lendingRows_eq hc hw
  have hmem := Sql.mem_newest.1 (Sql.latest_mem (hl 0))
  -- the earlier row is as late as the last one, so it may be returned as well
  obtain ⟨i, hi, rfl⟩ := List.getElem_of_mem hs'
  have hold : (steps[i].row, w.db.lendingPositions.length + i) ∈
      Sql.newest (·.1.time) (lendingRows "blend" contract account w'.db) := by
    refine Sql.mem_newest.2 ⟨?_, fun r hr => (hmem.2 r hr).trans ?_⟩
    · rw [hrows, List.mk_add_mem_zipIdx_iff_getElem?]
      simp [List.getElem?_append_left, hi]
    · rw [(h.row_spec s (by simp)).1, (h.row_spec steps[i] (by simp)).1]
      exact hle
  obtain ⟨tie, htie⟩ := Sql.exists_latest hold
  have heq : some (steps[i].row, w.db.lendingPositions.length + i) =
      some (s.row, w.db.lendingPositions.length + steps.length) := htie.symm.trans (hl tie)
  simp only [Option.some.injEq, Prod.mk.injEq] at heq
  omega

/-- **The queries return the row of the last event, after each event of a run, exactly when the
times increase.** -/
theorem Run.readsLast_iff (h : Run config w steps w') (hc : Concerns contract account steps)
    (hw : NoRows contract account w.db) :
    (∀ init s w₁, init ++ [s] <+: steps → Run config w (init ++ [s]) w₁ →
      ReadsLast contract account w w₁ init s) ↔ Increasing steps := by
  constructor
  · intro hread
    induction steps using List.reverseRecOn generalizing w' with
    | nil => exact List.Pairwise.nil
    | append_singleton init s ih =>
      obtain ⟨w₁, h₁, -⟩ := h.snoc_cases
      have hinit : Increasing init := ih h₁ hc.init fun init' s' w₂ hpre hrun =>
        hread init' s' w₂ (hpre.trans (List.prefix_append _ _)) hrun
      have hlast := h.lt_last_of_latest hc hw (hread init s w' (List.prefix_refl _) h).latest
      refine List.pairwise_append.2 ⟨hinit, List.pairwise_singleton _ _, ?_⟩
      intro s' hs' s'' hs''
      obtain rfl := List.mem_singleton.1 hs''
      exact hlast s' hs'
  · intro hi init s w₁ hpre hrun
    exact hrun.readsLast (hc.of_prefix hpre) hw (hi.of_prefix hpre)

end Lumina

/-! ### Two events of one ledger -/

namespace Lumina.Sample

/-- 50 are borrowed in the same ledger. -/
def borrow : Delivery decimal codec :=
  delivery (event .borrow eurc 50 "2026-01-01T00:00:00Z")
    ⟨.borrow, eurc, account, 50, 1767225600000000⟩ (by decide +kernel)

def borrowRow : LendingPositionRow :=
  ⟨1767225600000000, "blend", pool, account, usdc, 100, eurc, 50, none, none⟩

def borrowed : World := { supplied with db := insertLendingPosition borrowRow supplied.db }

theorem run_borrow :
    Run Config.default World.empty [⟨supply, supplyRow⟩, ⟨borrow, borrowRow⟩] borrowed :=
  run_supply.snoc_quiet rfl rfl (by decide +kernel) (by decide +kernel)

/-- Of two events of one ledger the earlier row may be returned: the debt is lost. -/
theorem borrow_lost :
    Run Config.default World.empty [⟨supply, supplyRow⟩, ⟨borrow, borrowRow⟩] borrowed ∧
      latestLendingPosition 0 "blend" pool account borrowed.db = some supplyRow ∧
      listLendingPositions (fun _ => 0) borrowed.db = [supplyRow] ∧
      foldHoldings decimal [supply.decoded, borrow.decoded] = some borrowRow.holdings ∧
      supplyRow.debtAmount = 0 ∧ borrowRow.debtAmount = 50 :=
  ⟨run_borrow, by decide +kernel, by decide +kernel, by decide +kernel, rfl, rfl⟩

/-- In two ledgers the last row is returned. -/
theorem borrowLater_read :
    Run Config.default World.empty [⟨supply, supplyRow⟩, ⟨borrowLater, borrowLaterRow⟩]
        borrowedLater ∧
      ∀ init s w₁, init ++ [s] <+: [⟨supply, supplyRow⟩, ⟨borrowLater, borrowLaterRow⟩] →
        Run Config.default World.empty (init ++ [s]) w₁ →
          ReadsLast pool account World.empty w₁ init s :=
  ⟨run_borrowLater,
    (run_borrowLater.readsLast_iff concerns_borrowLater rfl).2 increasing_borrowLater⟩

end Lumina.Sample
