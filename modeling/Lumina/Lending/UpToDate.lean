import Lumina.Lending.Run

/-!
# Positions that are up to date

When each position event of a list is applied once, in order and at increasing times for each
position, then the latest row of every position holds the fold of the position's events
(`Applied.upToDate`).

## Main definitions

* `UpToDate` : every position holds the fold of its events in a list.
* `Applied` : the stronger invariant that one more event keeps (`Applied.store`).
-/

namespace Lumina

variable {D : RustDecimal} {X : Codec}

/-- The decodable events of one position. -/
def decodedOf (D : RustDecimal) (X : Codec) (contract account : String)
    (events : List RpcEvent) : List Decoded :=
  events.filterMap fun event =>
    match decodeEvent D X event with
    | .ret (some e) =>
      if event.contractId = contract ∧ e.account = account then some e else none
    | _ => none

/-- Whatever the database chooses, the latest row of every position holds the fold of the
position's events, each applied once; a position without events has no row. -/
def UpToDate (D : RustDecimal) (X : Codec) (events : List RpcEvent) (db : Db) : Prop :=
  ∀ contract account tie,
    (latestLendingPosition tie "blend" contract account db).map (·.holdings) =
      if decodedOf D X contract account events = [] then none
      else foldHoldings D (decodedOf D X contract account events)

/-- The events of each position come at increasing times. -/
def Ordered (D : RustDecimal) (X : Codec) (events : List RpcEvent) : Prop :=
  events.Pairwise fun a b => ∀ e e', decodeEvent D X a = .ret (some e) →
    decodeEvent D X b = .ret (some e') → a.contractId = b.contractId → e.account = e'.account →
      e.time < e'.time

/-- The rows are those of the events, one for each, and the latest holds their fold. -/
structure Applied (D : RustDecimal) (X : Codec) (events : List RpcEvent) (db : Db) : Prop where
  times : ∀ contract account, (lendingRows "blend" contract account db).map (·.1.time) =
    (decodedOf D X contract account events).map (·.time)
  fold : ∀ contract account tie, foldHoldings D (decodedOf D X contract account events) =
    some (((latestLendingPosition tie "blend" contract account db).map (·.holdings)).getD
      Holdings.empty)

variable {events : List RpcEvent} {event : RpcEvent} {db db' : Db} {contract account : String}

theorem decodedOf_append (more : List RpcEvent) :
    decodedOf D X contract account (events ++ more) =
      decodedOf D X contract account events ++ decodedOf D X contract account more :=
  List.filterMap_append

theorem decodedOf_singleton {e : Decoded} (hd : decodeEvent D X event = .ret (some e)) :
    decodedOf D X contract account [event] =
      if event.contractId = contract ∧ e.account = account then [e] else [] := by
  unfold decodedOf
  rw [List.filterMap_cons, hd]
  simp only [List.filterMap_nil]
  split_ifs <;> rfl

theorem decodedOf_skipped (hd : ∀ e, decodeEvent D X event ≠ .ret (some e)) :
    decodedOf D X contract account [event] = [] := by
  unfold decodedOf
  rw [List.filterMap_cons]
  split
  · rfl
  · split at * <;> simp_all

theorem mem_decodedOf {e : Decoded} (h : e ∈ decodedOf D X contract account events) :
    ∃ event ∈ events, decodeEvent D X event = .ret (some e) ∧ event.contractId = contract ∧
      e.account = account := by
  obtain ⟨event, hmem, he⟩ := List.mem_filterMap.1 h
  refine ⟨event, hmem, ?_⟩
  split at he
  · next e' hd =>
    split_ifs at he with hc
    obtain rfl : e' = e := by simpa using he
    exact ⟨hd, hc⟩
  · simp at he

theorem Applied.upToDate (h : Applied D X events db) : UpToDate D X events db := by
  intro contract account tie
  have hrows : lendingRows "blend" contract account db = [] ↔
      decodedOf D X contract account events = [] := by
    rw [← List.map_eq_nil_iff (f := (·.1.time)), h.times, List.map_eq_nil_iff]
  by_cases hnil : decodedOf D X contract account events = []
  · rw [if_pos hnil, latestLendingPosition, latestLendingRow, hrows.2 hnil]
    rfl
  · rw [if_neg hnil, h.fold contract account tie]
    have hne : latestLendingRow tie "blend" contract account db ≠ none := fun hnone =>
      hnil (hrows.1 (Sql.latest_eq_none_iff.1 hnone))
    obtain ⟨r, hr⟩ := Option.ne_none_iff_exists'.1 hne
    simp [latestLendingPosition, hr]

theorem applied_nil (h : db.lendingPositions = []) : Applied D X [] db := by
  have hrows : ∀ contract account, lendingRows "blend" contract account db = [] := by
    intro contract account
    simp [lendingRows, h]
  refine ⟨?_, ?_⟩
  · intro contract account
    rw [hrows]
    rfl
  · intro contract account tie
    simp [latestLendingPosition, latestLendingRow, hrows, decodedOf]

theorem lendingRows_congr (h : db'.lendingPositions = db.lendingPositions) :
    lendingRows "blend" contract account db' = lendingRows "blend" contract account db := by
  rw [lendingRows, lendingRows, h]

theorem Applied.congr (h : Applied D X events db)
    (hdb : db'.lendingPositions = db.lendingPositions) : Applied D X events db' := by
  refine ⟨?_, ?_⟩
  · intro contract account
    rw [lendingRows_congr hdb, h.times]
  · intro contract account tie
    rw [latestLendingPosition, latestLendingRow, lendingRows_congr hdb, h.fold _ _ tie]
    rfl

/-- An event that is no position event asks for no row. -/
theorem Applied.skip (h : Applied D X events db)
    (hd : ∀ e, decodeEvent D X event ≠ .ret (some e)) : Applied D X (events ++ [event]) db := by
  refine ⟨?_, ?_⟩
  · intro contract account
    rw [decodedOf_append, decodedOf_skipped hd, List.append_nil, h.times]
  · intro contract account tie
    rw [decodedOf_append, decodedOf_skipped hd, List.append_nil, h.fold _ _ tie]

theorem lendingRows_insert {row : LendingPositionRow} (hp : row.protocol = "blend")
    (hdb : db'.lendingPositions = db.lendingPositions ++ [row]) :
    lendingRows "blend" contract account db' = lendingRows "blend" contract account db ++
      if row.poolContract = contract ∧ row.account = account then
        [(row, db.lendingPositions.length)]
      else [] := by
  rw [lendingRows, lendingRows, hdb, List.zipIdx_append, List.filter_append]
  congr 1
  simp [List.filter_cons, hp]

/-- A later event applied to the latest row. -/
theorem Applied.store {prices : PriceMap} {tie : ℕ} {e : Decoded} {row : LendingPositionRow}
    (h : Applied D X events db) (ho : Ordered D X (events ++ [event]))
    (hd : decodeEvent D X event = .ret (some e))
    (hr : rowAfter D prices tie event.contractId e db = some row)
    (hdb : db'.lendingPositions = db.lendingPositions ++ [row]) :
    Applied D X (events ++ [event]) db' := by
  obtain ⟨hh, ht, hp, hc, ha, -⟩ := nextPosition_eq_some hr
  have hrows : ∀ contract account, lendingRows "blend" contract account db' =
      lendingRows "blend" contract account db ++
        if event.contractId = contract ∧ e.account = account then
          [(row, db.lendingPositions.length)]
        else [] := by
    intro contract account
    rw [lendingRows_insert hp hdb, hc, ha]
  refine ⟨?_, ?_⟩
  · intro contract account
    rw [hrows, decodedOf_append, decodedOf_singleton hd, List.map_append, List.map_append,
      h.times]
    split_ifs <;> simp [ht]
  · intro contract account tie'
    rw [decodedOf_append, decodedOf_singleton hd, latestLendingPosition, latestLendingRow, hrows]
    split_ifs with hsame
    · -- all earlier rows of the position are older, so the new one is the latest
      obtain ⟨rfl, rfl⟩ := hsame
      have holder : ∀ r ∈ lendingRows "blend" event.contractId e.account db,
          r.1.time < row.time := by
        intro r hmem
        have hmem' := List.mem_map_of_mem (f := (·.1.time)) hmem
        rw [h.times] at hmem'
        obtain ⟨e', he', htime⟩ := List.mem_map.1 hmem'
        obtain ⟨ev, hev, hd', hc', ha'⟩ := mem_decodedOf he'
        rw [← htime, ht]
        exact (List.pairwise_append.1 ho).2.2 ev hev event (by simp) e' e hd' hd hc' ha'
      rw [Sql.latest_append_of_lt holder, foldHoldings_append, h.fold _ _ tie]
      exact hh
    · rw [List.append_nil, List.append_nil, h.fold _ _ tie']
      rfl

end Lumina
