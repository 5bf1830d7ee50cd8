import Lumina.Lending.ExactlyOnce

/-!
# How far a cycle moves the events' cursor

The events of a batch commit one by one, and the cursor is written after all of them.  An event
whose decoding or whose calls fail is skipped, so a cycle that comes to its end moves the cursor on
by as many events as its ten pages hold, whatever the events are (`ingestLendingCycle_advances`).
But an event that panics ends the process before the cursor is written, in every cycle that reads it
(`ingestLendingCycle_follows`).

## Main definitions

* `EventFeed.position` : how many events the cursor has passed.
* `EventFeed.Answers` : an RPC that answers every request with a full page.
* `Poisoned` : an event that panics wherever it is processed.
-/

namespace Lumina

variable {D : RustDecimal} {X : Codec} {config : Config} {prices : PriceMap} {bands : LtvBands}
  {F : EventFeed D X} {env : LendingEnv} {contractIds : List String} {events : List RpcEvent}
  {next : Option String} {known : String → Prop} {db : Db} {w w' : World} {c : String}

/-! ### The loop -/

/-- The amount of the event is out of the range of `Decimal`: its decoding panics. -/
def Poisoned (D : RustDecimal) (X : Codec) (event : RpcEvent) : Prop :=
  decodeEvent D X event = .panic

theorem Poisoned.processEvent {event : RpcEvent} (h : Poisoned D X event) (env : EventEnv)
    (w : World) : (processEvent D X config prices bands env event w).1 = .panic := by
  rw [Lumina.processEvent, Proc.bind_apply, storeEvent, Proc.bind_apply, Proc.lift_apply, h]

/-- The loop does not come past such an event. -/
theorem Poisoned.processAll {event : RpcEvent} (h : Poisoned D X event) {env : ℕ → EventEnv}
    {l : List (RpcEvent × ℕ)} (hmem : event ∈ l.map (·.1)) (w : World) :
    (processAll D X config prices bands env l).CutOff w := by
  induction l generalizing w with
  | nil => cases hmem
  | cons q l ih =>
    obtain ⟨first, i⟩ := q
    by_contra hcut
    obtain ⟨hfirst, hrest⟩ := processAll_cons_of_not_cutOff hcut
    rcases List.mem_cons.1 hmem with rfl | hmem
    · exact hfirst (.inr (h.processEvent _ w))
    · unfold Proc.CutOff at hcut
      rw [hrest] at hcut
      exact hcut (ih hmem _)

/-! ### The walk along the pages -/

/-- The cursor of the events, one that the RPC has given out. -/
def EventFeed.Follows (known : String → Prop) (db : Db) : Prop :=
  ∃ c, getIngestCursor eventsCursorKey db = some c ∧ known c

/-- How many events the cursor has passed. -/
def EventFeed.position (F : EventFeed D X) (db : Db) : ℕ :=
  match getIngestCursor eventsCursorKey db with
  | none => 0
  | some c => F.pos c

theorem EventFeed.position_of_cursor (F : EventFeed D X)
    (h : getIngestCursor eventsCursorKey db = some c) : F.position db = F.pos c := by
  rw [EventFeed.position, h]

/-- An RPC that answers every request after a cursor that it has given out, with a page that is as
full as the stream allows and with a cursor. -/
def EventFeed.Answers (F : EventFeed D X) (known : String → Prop) (rpc : EventsRpc) : Prop :=
  ∀ n req c, req.cursor = some c → known c → ∃ c', known c' ∧
    rpc n req = .ret ⟨(F.stream.drop (F.pos c)).take req.limit, some c'⟩

/-- A page with a cursor: it is the last one, or the walk goes on after it. -/
theorem getEventsFrom_page {rpc : EventsRpc} {startLedger : Option ℕ} {maxPages n : ℕ}
    {c' : String} (h : rpc n ⟨none, some c, pageLimit, contractIds⟩ = .ret ⟨events, some c'⟩) :
    getEventsFrom rpc startLedger contractIds (maxPages + 1) n (some c) =
      if events.length < pageLimit then .ret (events, some c')
      else getEventsFrom rpc startLedger contractIds maxPages (n + 1) (some c') >>= fun rest =>
        .ret (events ++ rest.1, rest.2) := by
  rw [getEventsFrom]
  simp only [Option.isNone_some, Bool.false_eq_true, if_false, Outcome.pure_eq, Outcome.ret_bind, h]

/-- The pages of such an RPC bring the cursor on by as many events as they hold. -/
theorem EventFeed.Answers.getEventsFrom {rpc : EventsRpc} (h : F.Answers known rpc)
    (hserves : F.Serves rpc) (startLedger : Option ℕ) (contractIds : List String) (maxPages n : ℕ)
    (hc : known c) :
    ∃ events c', getEventsFrom rpc startLedger contractIds maxPages n (some c) =
        .ret (events, some c') ∧
      min (F.pos c + pageLimit * maxPages) F.stream.length ≤ F.pos c' := by
  induction maxPages generalizing n c with
  | zero =>
    refine ⟨[], c, rfl, ?_⟩
    rw [Nat.mul_zero, Nat.add_zero]
    exact Nat.min_le_left _ _
  | succ maxPages ih =>
    obtain ⟨c', hc', hpage⟩ := h n ⟨none, some c, pageLimit, contractIds⟩ c rfl hc
    have hpos : F.pos c' = F.pos c + ((F.stream.drop (F.pos c)).take pageLimit).length :=
      hserves.cursor n _ _ c' hpage rfl
    have hlength : ((F.stream.drop (F.pos c)).take pageLimit).length =
        min pageLimit (F.stream.length - F.pos c) := by
      rw [List.length_take, List.length_drop]
    by_cases hshort : ((F.stream.drop (F.pos c)).take pageLimit).length < pageLimit
    · -- a short page is the last one of the stream
      refine ⟨_, c', (getEventsFrom_page hpage).trans (if_pos hshort), ?_⟩
      rw [Nat.mul_succ]
      omega
    · obtain ⟨rest, c'', hrest, hle⟩ := ih (n + 1) hc'
      refine ⟨(F.stream.drop (F.pos c)).take pageLimit ++ rest, c'', ?_, ?_⟩
      · rw [getEventsFrom_page hpage, if_neg hshort, hrest]
        rfl
      rw [Nat.mul_succ]
      omega

/-- Every cursor that the RPC gives out is known. -/
def GivesOut (known : String → Prop) (rpc : EventsRpc) : Prop :=
  ∀ n req res c, rpc n req = .ret res → res.cursor = some c → known c

theorem GivesOut.getEventsFrom {rpc : EventsRpc} (h : GivesOut known rpc)
    {startLedger : Option ℕ} {maxPages n : ℕ} {cursor : Option String}
    (hcursor : ∀ c, cursor = some c → known c)
    (hret : Lumina.getEventsFrom rpc startLedger contractIds maxPages n cursor =
      .ret (events, next)) : ∀ c, next = some c → known c := by
  induction maxPages generalizing n cursor events with
  | zero =>
    obtain ⟨-, rfl⟩ : [] = events ∧ cursor = next := by simpa [Lumina.getEventsFrom] using hret
    exact hcursor
  | succ maxPages ih =>
    obtain ⟨start, page, hpage, -, hcases⟩ := getEventsFrom_succ hret
    rcases hcases with ⟨-, -, rfl⟩ | ⟨rfl, -⟩ | ⟨c, rest, hc, -, hrest⟩
    · exact hcursor
    · exact fun c => h n _ page c hpage
    · refine ih (fun c' hc' => ?_) hrest
      exact h n _ page c' hpage (hc.trans hc')

/-! ### One cycle -/

/-- An event changes neither the cursors nor the rows of the payments. -/
theorem processEvent_frame (env : EventEnv) (event : RpcEvent) (w : World) :
    (processEvent D X config prices bands env event w).2.db.whaleTransactions =
        w.db.whaleTransactions ∧
      (processEvent D X config prices bands env event w).2.db.ingestState = w.db.ingestState := by
  rcases processEvent_cases D X config prices bands env event w with
    ⟨e, row, alert, -, -, -, hdb⟩ | ⟨hw, -⟩
  · rw [hdb]
    cases alert with
    | none => exact ⟨rfl, rfl⟩
    | some a =>
      rw [recordedDb]
      split_ifs <;> exact ⟨rfl, rfl⟩
  · rw [hw]
    exact ⟨rfl, rfl⟩

theorem processAll_ingestState (env : ℕ → EventEnv) (l : List (RpcEvent × ℕ)) (w : World) :
    (processAll D X config prices bands env l w).2.db.ingestState = w.db.ingestState := by
  induction l generalizing w with
  | nil => rfl
  | cons q l ih =>
    obtain ⟨event, i⟩ := q
    have hfirst := (@processEvent_frame D X config prices bands (env i) event w).2
    rw [processAll_cons]
    generalize processEvent D X config prices bands (env i) event w = r at hfirst
    obtain ⟨o, w₁⟩ := r
    cases o with
    | ret a => exact (ih w₁).trans hfirst
    | err e => exact (ih w₁).trans hfirst
    | stop => exact hfirst
    | panic => exact hfirst

/-- **What a cycle does to a cursor**: it stays, or it moves on to the cursor of the batch, in which
no event panics. -/
theorem eventsCursor_cases (D : RustDecimal) (X : Codec) (config : Config) (env : LendingEnv)
    (contractIds : List String) (w : World) :
    getIngestCursor eventsCursorKey (ingestLendingCycle D X config env contractIds w).2.db =
        getIngestCursor eventsCursorKey w.db ∨
      ∃ bands events c, (readBatch env contractIds w).1 = .ret (bands, events, some c) ∧
        (∀ event ∈ events, ¬ Poisoned D X event) ∧
        getIngestCursor eventsCursorKey
          (ingestLendingCycle D X config env contractIds w).2.db = some c := by
  by_cases hb : ∃ r, (readBatch env contractIds w).1 = .ret r
  · obtain ⟨⟨bands, events, next⟩, hb⟩ := hb
    have hread : readBatch env contractIds w = (.ret (bands, events, next), w) :=
      Prod.ext hb (readBatch_world env contractIds w)
    have hstate := @processAll_ingestState D X config (config.blendAssetPricesUsd D) bands
      env.event events.zipIdx w
    have hpoison : ∀ event ∈ events, Poisoned D X event →
        (processAll D X config (config.blendAssetPricesUsd D) bands env.event
          events.zipIdx).CutOff w := fun event hmem hp =>
      hp.processAll (by rw [List.zipIdx_map_fst]; exact hmem) w
    rw [ingestLendingCycle_eq, hread]
    simp only [Proc.bind_apply, processEvents_eq]
    unfold Proc.CutOff at hpoison
    generalize processAll D X config (config.blendAssetPricesUsd D) bands env.event
      events.zipIdx w = r at hstate hpoison
    obtain ⟨o, w₁⟩ := r
    have hcursor : getIngestCursor eventsCursorKey w₁.db = getIngestCursor eventsCursorKey w.db :=
      congrFun hstate _
    cases o with
    | err e => exact .inl hcursor
    | stop => exact .inl hcursor
    | panic => exact .inl hcursor
    | ret u =>
      cases next with
      | none => exact .inl hcursor
      | some c =>
        cases hset : env.setCursor with
        | fail => exact .inl hcursor
        | stop => exact .inl hcursor
        | ok =>
          refine .inr ⟨bands, events, c, rfl, fun event hmem hp => ?_, ?_⟩
          · exact absurd (hpoison event hmem hp) (by simp)
          · simp [exec, getIngestCursor, setIngestCursor]
  · exact .inl (by rw [ingestLendingCycle_of_no_batch fun r hr => hb ⟨r, hr⟩])

/-- A cycle that comes to its end has written the cursor of its batch, if it has one. -/
theorem ingestLendingCycle_ret
    (h : (ingestLendingCycle D X config env contractIds w).1 = .ret ()) :
    ∃ bands events next, (readBatch env contractIds w).1 = .ret (bands, events, next) ∧
      ∀ c, next = some c → getIngestCursor eventsCursorKey
        (ingestLendingCycle D X config env contractIds w).2.db = some c := by
  rw [ingestLendingCycle_eq] at h ⊢
  rcases hb : readBatch env contractIds w with ⟨o, w₁⟩
  rw [hb] at h
  cases o with
  | err e => cases h
  | stop => cases h
  | panic => cases h
  | ret r =>
    obtain ⟨bands, events, next⟩ := r
    refine ⟨bands, events, next, rfl, ?_⟩
    rintro c rfl
    simp only [Proc.bind_apply] at h ⊢
    generalize processEvents D X config (config.blendAssetPricesUsd D) bands env.event events w₁ = r
      at h ⊢
    obtain ⟨o, w₂⟩ := r
    cases o with
    | err e => cases h
    | stop => cases h
    | panic => cases h
    | ret u =>
      cases hset : env.setCursor with
      | ok => simp [exec, getIngestCursor, setIngestCursor]
      | fail => simp [exec, hset] at h
      | stop => simp [exec, hset] at h

/-- **A cycle that comes to its end** moves the cursor on by the 2000 events of its pages, or to the
end of the stream, whatever the events are. -/
theorem ingestLendingCycle_advances (hanswers : F.Answers known env.rpc)
    (hserves : F.Serves env.rpc) (hfollows : EventFeed.Follows known w.db)
    (hret : (ingestLendingCycle D X config env contractIds w).1 = .ret ()) :
    min (F.position w.db + 2000) F.stream.length ≤
      F.position (ingestLendingCycle D X config env contractIds w).2.db := by
  obtain ⟨c, hcursor, hc⟩ := hfollows
  obtain ⟨bands, events, next, hb, hnext⟩ := ingestLendingCycle_ret hret
  obtain ⟨startLedger, hevents, -⟩ := readBatch_ret (F := F) hb
  obtain ⟨events', c', hwalk, hle⟩ :=
    hanswers.getEventsFrom hserves startLedger contractIds maxEventPages 0 hc
  rw [hcursor, getEvents, hwalk] at hevents
  obtain ⟨-, rfl⟩ := Prod.mk.inj (Outcome.ret.inj hevents)
  rw [F.position_of_cursor hcursor, F.position_of_cursor (hnext c' rfl)]
  exact hle

/-- An event that panics ends the process in every cycle that has it in its batch. -/
theorem cutOff_ingestLendingCycle {event : RpcEvent} (h : Poisoned D X event)
    (hb : (readBatch env contractIds w).1 = .ret (bands, events, next)) (hmem : event ∈ events) :
    (ingestLendingCycle D X config env contractIds).CutOff w := by
  have hloop : (processAll D X config (config.blendAssetPricesUsd D) bands env.event
      events.zipIdx).CutOff w := h.processAll (by rw [List.zipIdx_map_fst]; exact hmem) w
  have hread : readBatch env contractIds w = (.ret (bands, events, next), w) :=
    Prod.ext hb (readBatch_world env contractIds w)
  unfold Proc.CutOff at hloop ⊢
  rw [ingestLendingCycle_eq, hread]
  simp only [Proc.bind_apply, processEvents_eq]
  generalize processAll D X config (config.blendAssetPricesUsd D) bands env.event
    events.zipIdx w = r at hloop
  obtain ⟨o, w₁⟩ := r
  cases o with
  | ret u => simp at hloop
  | err e => simp at hloop
  | stop => exact .inl rfl
  | panic => exact .inr rfl

/-- The batch of an RPC that answers has the next 2000 events. -/
theorem EventFeed.Answers.mem_batch (hanswers : F.Answers known env.rpc)
    (hserves : F.Serves env.rpc) (hfollows : EventFeed.Follows known w.db)
    (hb : (readBatch env contractIds w).1 = .ret (bands, events, next)) {i : ℕ} {event : RpcEvent}
    (hi : F.stream[i]? = some event) (hpos : F.position w.db ≤ i)
    (hreach : i < F.position w.db + 2000) : event ∈ events := by
  obtain ⟨c, hcursor, hc⟩ := hfollows
  rw [F.position_of_cursor hcursor] at hpos hreach
  obtain ⟨startLedger, hevents, -⟩ := readBatch_ret (F := F) hb
  obtain ⟨events', c', hwalk, hle⟩ :=
    hanswers.getEventsFrom hserves startLedger contractIds maxEventPages 0 hc
  rw [hcursor] at hevents
  obtain ⟨hbatch, hnext⟩ := hserves.getEventsFrom hevents
  rw [getEvents, hwalk] at hevents
  obtain ⟨-, rfl⟩ := Prod.mk.inj (Outcome.ret.inj hevents)
  have hbounds : F.pos c ≤ F.pos c' ∧ F.pos c' ≤ F.pos c + events.length := hnext c' rfl
  have hend : pageLimit * maxEventPages = 2000 := rfl
  have hlt := (List.getElem?_eq_some_iff.1 hi).1
  rw [hbatch, List.mem_iff_getElem?]
  refine ⟨i - F.pos c, ?_⟩
  rw [List.getElem?_take, if_pos (by omega)]
  show (F.stream.drop (F.pos c))[i - F.pos c]? = some event
  rw [List.getElem?_drop, Nat.add_sub_cancel' hpos]
  exact hi

/-- **Every cycle** leaves a cursor that the RPC has given out, does not move it back, and does not
move it past an event that panics. -/
theorem ingestLendingCycle_follows (hserves : F.Serves env.rpc) (hgives : GivesOut known env.rpc)
    (hfollows : EventFeed.Follows known w.db) :
    EventFeed.Follows known (ingestLendingCycle D X config env contractIds w).2.db ∧
      F.position w.db ≤ F.position (ingestLendingCycle D X config env contractIds w).2.db ∧
      ∀ i event, F.stream[i]? = some event → Poisoned D X event → F.position w.db ≤ i →
        F.position (ingestLendingCycle D X config env contractIds w).2.db ≤ i := by
  obtain ⟨c, hcursor, hc⟩ := hfollows
  rw [F.position_of_cursor hcursor]
  rcases eventsCursor_cases D X config env contractIds w with
    hsame | ⟨bands, events, c', hb, hpoison, hnext⟩
  · rw [hcursor] at hsame
    rw [F.position_of_cursor hsame]
    exact ⟨⟨c, hsame, hc⟩, le_rfl, fun _ _ _ _ hle => hle⟩
  · obtain ⟨startLedger, hevents, -⟩ := readBatch_ret (F := F) hb
    rw [hcursor] at hevents
    obtain ⟨hbatch, hpos⟩ := hserves.getEventsFrom hevents
    have hbounds : F.pos c ≤ F.pos c' ∧ F.pos c' ≤ F.pos c + events.length := hpos c' rfl
    rw [F.position_of_cursor hnext]
    refine ⟨⟨c', hnext, ?_⟩, hbounds.1, fun i event hi hp hle => ?_⟩
    · refine hgives.getEventsFrom (fun d hd => ?_) hevents c' rfl
      rwa [← Option.some.inj hd]
    · by_contra hpast
      have hmem : event ∈ events := by
        rw [hbatch, List.mem_iff_getElem?]
        refine ⟨i - F.pos c, ?_⟩
        rw [List.getElem?_take, if_pos (by omega)]
        show (F.stream.drop (F.pos c))[i - F.pos c]? = some event
        rw [List.getElem?_drop, Nat.add_sub_cancel' hle]
        exact hi
      exact hpoison event hmem hp

end Lumina
