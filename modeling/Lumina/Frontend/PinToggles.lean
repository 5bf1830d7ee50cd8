import Lumina.Api.AdminKey
import Lumina.Frontend.PolledOrder
import Lumina.Model.Watchlist
import Lumina.Trace.Basic

/-!
# Pin toggles

A click on a pin adds or removes the item as the list of the last render says.  The guard keeps
two calls for one item from overlapping, but it is lifted as soon as the write returns, while the
list is still on its way.  A call does the opposite of what the server had exactly if that list had
the item as the server had it (`toggle_flips`): otherwise it adds an item that is pinned, or deletes
a row that is gone.

## Main definitions

* `WatchlistTable` : the keys of `watchlist_items`.
* `UseWatchlist.Fresh` : the list of the render has the item as the server has it.
* `UseWatchlist.Flips` : a write does the opposite, and deletes a row that is there.
* `UseWatchlist.Inv` : the invariant of runs whose clicks are fresh.
-/

namespace Lumina

open Lumina.Trace

/-- The keys of the table: ids from the sequence, and one item of a type and a key. -/
structure WatchlistTable (s : Store) : Prop where
  ids : (s.watchlistItems.map (·.id)).Nodup
  lt : ∀ w ∈ s.watchlistItems, w.id < s.watchlistSeq
  keys : (s.watchlistItems.map fun w => (w.itemType, w.itemKey)).Nodup

/-- The id of an item. -/
def Store.itemId (s : Store) (itemType itemKey : String) : Option ℕ :=
  (s.watchlistItems.find? fun w => w.itemType = itemType && w.itemKey = itemKey).map (·.id)

namespace UseWatchlist

variable (srv : ApiServer) (itemType : String) (page : UseWatchlist)

/-- A call starts with the item as the server has it. -/
def Fresh : WatchlistEvent → Prop
  | .click itemKey _ => page.Accepts itemKey →
    (page.existing itemType itemKey).map (·.id) = page.server.itemId itemType itemKey
  | _ => True

/-- A call deletes a row that is there, when it starts and when the server handles it, and its
write turns the pin round if it succeeds. -/
def Flips : WatchlistEvent → Prop
  | .click itemKey _ => page.Accepts itemKey → ∀ w, page.existing itemType itemKey = some w →
    ∃ row ∈ page.server.watchlistItems, row.id = w.id
  | .write id env headers => ∀ c, page.call id = some c → c.result = none →
    (∀ i, c.existing = some i → ∃ row ∈ page.server.watchlistItems, row.id = i) ∧
      (succeeded (page.handled srv itemType c env headers).1 = true →
        (page.step srv itemType (.write id env headers)).pinned itemType c.itemKey = !c.wasPinned)
  | _ => True

/-- The write of a call that starts now would succeed at once. -/
def WriteSucceeds (itemKey label : String) (env : RequestEnv) (headers : HeaderMap) : Prop :=
  ∀ c, (page.toggle itemType itemKey label).call page.nextCall = some c →
    succeeded ((page.toggle itemType itemKey label).handled srv itemType c env headers).1 = true

end UseWatchlist

variable {s : Store} {itemType itemKey itemKey' label : String} {now : Time} {i : ℕ}

/-- A change of the elements that `f` does not see. -/
theorem nodup_map_map {α β : Type} {k : α → α} {f : α → β} {l : List α} (h : ∀ a, f (k a) = f a)
    (hl : (l.map f).Nodup) : ((l.map k).map f).Nodup := by
  have hsame : f ∘ k = f := funext h
  rw [List.map_map, hsame]
  exact hl

/-- An element that `f` tells from all the others. -/
theorem nodup_map_concat {α β : Type} {f : α → β} {l : List α} {b : α} (hl : (l.map f).Nodup)
    (hb : ∀ a ∈ l, f a ≠ f b) : ((l ++ [b]).map f).Nodup := by
  rw [List.map_append, List.nodup_append]
  refine ⟨hl, List.nodup_singleton _, fun x hx y hy hxy => ?_⟩
  obtain ⟨a, ha, rfl⟩ := List.mem_map.1 hx
  obtain rfl := List.mem_singleton.1 hy
  exact hb a ha hxy

/-! ### The table -/

theorem WatchlistTable.itemId_eq_some_iff (h : WatchlistTable s) :
    s.itemId itemType itemKey = some i ↔
      ∃ w ∈ s.watchlistItems, w.itemType = itemType ∧ w.itemKey = itemKey ∧ w.id = i := by
  unfold Store.itemId
  simp only [Option.map_eq_some_iff]
  constructor
  · rintro ⟨w, hw, rfl⟩
    have hkey := List.find?_some hw
    simp only [Bool.and_eq_true, decide_eq_true_eq] at hkey
    exact ⟨w, List.mem_of_find?_eq_some hw, hkey.1, hkey.2, rfl⟩
  · rintro ⟨w, hw, htype, hkey, rfl⟩
    have hsome : (s.watchlistItems.find? fun w =>
        w.itemType = itemType && w.itemKey = itemKey).isSome := by
      rw [List.find?_isSome]
      exact ⟨w, hw, by simp [htype, hkey]⟩
    obtain ⟨v, hv⟩ := Option.isSome_iff_exists.1 hsome
    have hv' := List.find?_some hv
    simp only [Bool.and_eq_true, decide_eq_true_eq] at hv'
    refine ⟨v, hv, ?_⟩
    have heq := List.inj_on_of_nodup_map h.keys (List.mem_of_find?_eq_some hv) hw
      (Prod.ext (hv'.1.trans htype.symm) (hv'.2.trans hkey.symm))
    rw [heq]

/-- A deletion leaves the other rows. -/
theorem WatchlistTable.delete (h : WatchlistTable s) (i : ℕ) :
    WatchlistTable (deleteWatchlistItem i s).2 where
  ids := h.ids.sublist (List.filter_sublist.map _)
  lt w hw := h.lt w (List.mem_filter.1 hw).1
  keys := h.keys.sublist (List.filter_sublist.map _)

theorem mem_delete {w : WatchlistItemRow} :
    w ∈ (deleteWatchlistItem i s).2.watchlistItems ↔ w ∈ s.watchlistItems ∧ w.id ≠ i := by
  simp [deleteWatchlistItem]

/-- An upsert adds a row with the next id, or changes a label. -/
theorem upsert_cases (now : Time) (itemType itemKey label : String) (s : Store) :
    ((∀ w ∈ s.watchlistItems, ¬ (w.itemType = itemType ∧ w.itemKey = itemKey)) ∧
      (upsertWatchlistItem now itemType itemKey label s).2.watchlistItems =
        s.watchlistItems ++ [⟨s.watchlistSeq, itemType, itemKey, label, now⟩]) ∨
    ((∃ w ∈ s.watchlistItems, w.itemType = itemType ∧ w.itemKey = itemKey) ∧
      (upsertWatchlistItem now itemType itemKey label s).2.watchlistItems =
        s.watchlistItems.map fun w =>
          if w.itemType = itemType ∧ w.itemKey = itemKey then { w with label := label } else w) := by
  unfold upsertWatchlistItem
  cases hfind : s.watchlistItems.find? fun w => w.itemType = itemType && w.itemKey = itemKey with
  | none =>
    refine .inl ⟨fun w hw => ?_, rfl⟩
    simpa using List.find?_eq_none.1 hfind w hw
  | some w =>
    have hkey := List.find?_some hfind
    simp only [Bool.and_eq_true, decide_eq_true_eq] at hkey
    exact .inr ⟨⟨w, List.mem_of_find?_eq_some hfind, hkey⟩, rfl⟩

theorem upsert_seq :
    (upsertWatchlistItem now itemType itemKey label s).2.watchlistSeq = s.watchlistSeq + 1 := by
  unfold upsertWatchlistItem
  cases s.watchlistItems.find? fun w => w.itemType = itemType && w.itemKey = itemKey <;> rfl

/-- The rows that an upsert leaves, by type, key and id. -/
theorem exists_mem_upsert_iff {t k : String} :
    (∃ w ∈ (upsertWatchlistItem now itemType itemKey label s).2.watchlistItems,
        w.itemType = t ∧ w.itemKey = k ∧ w.id = i) ↔
      (∃ w ∈ s.watchlistItems, w.itemType = t ∧ w.itemKey = k ∧ w.id = i) ∨
        (∀ w ∈ s.watchlistItems, ¬ (w.itemType = itemType ∧ w.itemKey = itemKey)) ∧
          itemType = t ∧ itemKey = k ∧ s.watchlistSeq = i := by
  rcases upsert_cases now itemType itemKey label s with ⟨hnone, heq⟩ | ⟨⟨v, hv, hkey⟩, heq⟩
  · rw [heq]
    simp only [List.mem_append, List.mem_singleton, or_and_right, exists_or, exists_eq_left]
    exact or_congr_right (and_iff_right hnone).symm
  · rw [heq]
    have hlabel : ∀ w : WatchlistItemRow, ∀ p : Prop, ∀ [Decidable p],
        ((if p then { w with label := label } else w).itemType = t ∧
          (if p then { w with label := label } else w).itemKey = k ∧
          (if p then { w with label := label } else w).id = i) ↔
        (w.itemType = t ∧ w.itemKey = k ∧ w.id = i) := by
      intro w p _
      split_ifs <;> rfl
    simp only [List.mem_map, exists_exists_and_eq_and, hlabel]
    exact (or_iff_left fun h => h.1 v hv hkey).symm

/-- An upsert keeps the keys of the table. -/
theorem WatchlistTable.upsert (h : WatchlistTable s) :
    WatchlistTable (upsertWatchlistItem now itemType itemKey label s).2 := by
  rcases upsert_cases now itemType itemKey label s with ⟨hnone, heq⟩ | ⟨-, heq⟩
  · refine ⟨?_, ?_, ?_⟩
    · rw [heq]
      exact nodup_map_concat h.ids fun w hw => (h.lt w hw).ne
    · rw [heq, upsert_seq]
      intro w hw
      rcases List.mem_append.1 hw with hw | hw
      · exact Nat.lt_succ_of_lt (h.lt w hw)
      · obtain rfl := List.mem_singleton.1 hw
        exact Nat.lt_succ_self _
    · rw [heq]
      exact nodup_map_concat h.keys fun w hw hkey => hnone w hw (Prod.mk.inj hkey)
  · refine ⟨?_, ?_, ?_⟩
    · rw [heq]
      refine nodup_map_map (fun w => ?_) h.ids
      split_ifs <;> rfl
    · rw [heq, upsert_seq]
      intro w hw
      obtain ⟨v, hv, rfl⟩ := List.mem_map.1 hw
      have hlt := Nat.lt_succ_of_lt (h.lt v hv)
      split_ifs <;> exact hlt
    · rw [heq]
      refine nodup_map_map (fun w => ?_) h.keys
      split_ifs <;> rfl

/-! ### The items after a write -/

theorem WatchlistTable.itemId_delete (h : WatchlistTable s) :
    (deleteWatchlistItem i s).2.itemId itemType itemKey =
      if s.itemId itemType itemKey = some i then none else s.itemId itemType itemKey := by
  have hrows : ∀ j, (deleteWatchlistItem i s).2.itemId itemType itemKey = some j ↔
      s.itemId itemType itemKey = some j ∧ j ≠ i := by
    intro j
    rw [(h.delete i).itemId_eq_some_iff, h.itemId_eq_some_iff]
    constructor
    · rintro ⟨w, hw, htype, hkey, rfl⟩
      obtain ⟨hw, hne⟩ := mem_delete.1 hw
      exact ⟨⟨w, hw, htype, hkey, rfl⟩, by exact_mod_cast hne⟩
    · rintro ⟨⟨w, hw, htype, hkey, rfl⟩, hne⟩
      exact ⟨w, mem_delete.2 ⟨hw, by exact_mod_cast hne⟩, htype, hkey, rfl⟩
  ext j
  rw [hrows]
  split_ifs with hi
  · rw [hi]
    simp only [Option.some.injEq, iff_false, not_and, not_not]
    exact fun hij => hij.symm
  · refine and_iff_left_of_imp ?_
    rintro hj rfl
    exact hi hj

/-- An upsert concerns one item. -/
theorem WatchlistTable.itemId_upsert_of_ne (h : WatchlistTable s) (hne : itemKey' ≠ itemKey) :
    (upsertWatchlistItem now itemType itemKey label s).2.itemId itemType itemKey' =
      s.itemId itemType itemKey' := by
  ext j
  rw [h.upsert.itemId_eq_some_iff, h.itemId_eq_some_iff, exists_mem_upsert_iff]
  exact or_iff_left fun hnew => hne hnew.2.2.1.symm

/-- After an upsert its item is there. -/
theorem WatchlistTable.isSome_itemId_upsert (h : WatchlistTable s) :
    ((upsertWatchlistItem now itemType itemKey label s).2.itemId itemType itemKey).isSome := by
  rw [Option.isSome_iff_exists]
  by_cases hnew : ∀ w ∈ s.watchlistItems, ¬ (w.itemType = itemType ∧ w.itemKey = itemKey)
  · exact ⟨s.watchlistSeq, h.upsert.itemId_eq_some_iff.2
      (exists_mem_upsert_iff.2 (.inr ⟨hnew, rfl, rfl, rfl⟩))⟩
  · push Not at hnew
    obtain ⟨w, hw, hkey⟩ := hnew
    exact ⟨w.id, h.upsert.itemId_eq_some_iff.2
      (exists_mem_upsert_iff.2 (.inl ⟨w, hw, hkey.1, hkey.2, rfl⟩))⟩

/-- An id belongs to one item. -/
theorem WatchlistTable.itemKey_unique (h : WatchlistTable s)
    (hi : s.itemId itemType itemKey = some i) (hi' : s.itemId itemType itemKey' = some i) :
    itemKey = itemKey' := by
  obtain ⟨w, hw, -, rfl, rfl⟩ := h.itemId_eq_some_iff.1 hi
  obtain ⟨v, hv, -, rfl, hid⟩ := h.itemId_eq_some_iff.1 hi'
  rw [List.inj_on_of_nodup_map h.ids hw hv hid.symm]

namespace UseWatchlist

variable {srv : ApiServer} {page : UseWatchlist} {c d : ToggleCall} {env : RequestEnv}
  {headers : HeaderMap}

/-! ### One write -/

/-- **What the server makes of a write**: nothing, the deletion of a row that is there, or an
upsert. -/
theorem handled_cases (srv : ApiServer) (itemType : String) (page : UseWatchlist) (c : ToggleCall)
    (env : RequestEnv) (headers : HeaderMap) :
    (succeeded (page.handled srv itemType c env headers).1 = false ∧
      (page.handled srv itemType c env headers).2 = page.server) ∨
    (succeeded (page.handled srv itemType c env headers).1 = true ∧
      ∃ i, c.existing = some i ∧ (∃ w ∈ page.server.watchlistItems, w.id = i) ∧
        (page.handled srv itemType c env headers).2 = (deleteWatchlistItem i page.server).2) ∨
    (succeeded (page.handled srv itemType c env headers).1 = true ∧ c.existing = none ∧
      (page.handled srv itemType c env headers).2 =
        (upsertWatchlistItem env.now itemType c.itemKey c.label page.server).2) := by
  unfold handled ToggleCall.request
  cases hexisting : c.existing with
  | some i =>
    simp only [WriteRequest.handle, deleteWatchlistItemHandler]
    rcases guard_cases srv.state headers with hg | hg
    · rw [guarded_of_none hg]
      cases hcall : env.call with
      | ok =>
        by_cases hfound : ∃ w ∈ page.server.watchlistItems, w.id = i
        · refine .inr (.inl ⟨?_, i, rfl, hfound, rfl⟩)
          obtain ⟨w, hw, rfl⟩ := hfound
          have hany : (page.server.watchlistItems.any fun v => (v.id : ℤ) = w.id) = true :=
            List.any_eq_true.2 ⟨w, hw, by simp⟩
          simp only [answer, Store.exec, Proc.bind_apply, Proc.attempt_apply, Proc.await_ok,
            Proc.pure_apply, deleteWatchlistItem, hany, foundOrNot]
          rfl
        · have hany : (page.server.watchlistItems.any fun v => (v.id : ℤ) = i) = false := by
            rw [List.any_eq_false]
            intro v hv
            simpa using fun h => hfound ⟨v, hv, h⟩
          have hfilter : page.server.watchlistItems.filter (fun v => (v.id : ℤ) ≠ i) =
              page.server.watchlistItems := by
            rw [List.filter_eq_self]
            intro v hv
            simpa using fun h => hfound ⟨v, hv, h⟩
          left
          simp only [answer, Store.exec, Proc.bind_apply, Proc.attempt_apply, Proc.await_ok,
            Proc.pure_apply, deleteWatchlistItem, hany, hfilter, foundOrNot]
          exact ⟨rfl, trivial⟩
      | fail => exact .inl ⟨rfl, rfl⟩
      | stop => exact .inl ⟨rfl, rfl⟩
    · rw [guarded_of_unauthorized hg]
      exact .inl ⟨rfl, rfl⟩
  | none =>
    simp only [WriteRequest.handle, createWatchlistItem]
    rcases guard_cases srv.state headers with hg | hg
    · rw [guarded_of_none hg]
      split_ifs
      · exact .inl ⟨rfl, rfl⟩
      · exact .inl ⟨rfl, rfl⟩
      · cases hcall : env.call with
        | ok => exact .inr (.inr ⟨rfl, trivial, rfl⟩)
        | fail => exact .inl ⟨rfl, rfl⟩
        | stop => exact .inl ⟨rfl, rfl⟩
      · exact .inl ⟨rfl, rfl⟩
    · rw [guarded_of_unauthorized hg]
      exact .inl ⟨rfl, rfl⟩

/-! ### The invariant -/

/-- The row has an id of the server, which belongs to its item. -/
def Known (server : Store) (w : WatchlistItemRow) : Prop :=
  w.id < server.watchlistSeq ∧ ∀ row ∈ server.watchlistItems, row.id = w.id →
    row.itemType = w.itemType ∧ row.itemKey = w.itemKey

/-- The invariant of the runs. -/
structure Inv (page : UseWatchlist) : Prop where
  table : WatchlistTable page.server
  ids : (page.calls.map (·.id)).Nodup
  lt : ∀ c ∈ page.calls, c.id < page.nextCall
  keys : (page.calls.map (·.itemKey)).Nodup
  guarded : ∀ c ∈ page.calls, c.itemKey ∈ page.pending ∧ c.itemKey ∈ page.rendered.pending
  data : ∀ rows ∈ page.watchlist.state.data, ∀ w ∈ rows, Known page.server w
  rendered : ∀ rows ∈ page.rendered.data, ∀ w ∈ rows, Known page.server w
  answers : ∀ a ∈ page.answers, ∀ w ∈ a.2, Known page.server w

/-- The calls whose writes have not been handled have their items as the server has them. -/
def Agrees (itemType : String) (page : UseWatchlist) : Prop :=
  ∀ c ∈ page.calls, c.result = none →
    c.existing = page.server.itemId itemType c.itemKey ∧ c.wasPinned = c.existing.isSome

theorem inv_mount {server : Store} (h : WatchlistTable server) : (mount server).Inv where
  table := h
  ids := List.nodup_nil
  lt := by simp [mount]
  keys := List.nodup_nil
  guarded := by simp [mount]
  data := by simp [mount, UsePolled.mount]
  rendered := by simp [mount]
  answers := by simp [mount]

theorem agrees_mount {server : Store} : Agrees itemType (mount server) := by simp [Agrees, mount]

/-- A row of the server is known. -/
theorem known_of_mem (h : WatchlistTable s) {w : WatchlistItemRow} (hw : w ∈ s.watchlistItems) :
    Known s w := by
  refine ⟨h.lt w hw, fun row hrow hid => ?_⟩
  rw [List.inj_on_of_nodup_map h.ids hrow hw hid]
  exact ⟨rfl, rfl⟩

variable (srv itemType c env headers) in
/-- A write leaves the table in order and what is known about its rows. -/
theorem handled_table (h : WatchlistTable page.server) :
    WatchlistTable (page.handled srv itemType c env headers).2 ∧
      ∀ w, Known page.server w → Known (page.handled srv itemType c env headers).2 w := by
  rcases handled_cases srv itemType page c env headers with
    ⟨-, heq⟩ | ⟨-, i, -, -, heq⟩ | ⟨-, -, heq⟩
  · rw [heq]
    exact ⟨h, fun w hw => hw⟩
  · rw [heq]
    exact ⟨h.delete i, fun w hw => ⟨hw.1, fun row hrow => hw.2 row (mem_delete.1 hrow).1⟩⟩
  · rw [heq]
    refine ⟨h.upsert, fun w hw => ⟨?_, fun row hrow hid => ?_⟩⟩
    · rw [upsert_seq]
      exact Nat.lt_succ_of_lt hw.1
    · rcases exists_mem_upsert_iff.1 ⟨row, hrow, rfl, rfl, rfl⟩ with
        ⟨old, hold, htype, hkey, hid'⟩ | ⟨-, -, -, hseq⟩
      · rw [← htype, ← hkey]
        exact hw.2 old hold (hid'.trans hid)
      · have := hw.1
        omega

/-- What the server answers to a read are its rows. -/
theorem known_listOf {rows : List WatchlistItemRow} (h : WatchlistTable page.server)
    (hrows : listOf (ReadRequest.handle srv env .listWatchlist page.server).1 = some rows) :
    ∀ w ∈ rows, Known page.server w := by
  have hanswer : rows = listWatchlistItems env.visitWatchlist page.server := by
    simp only [ReadRequest.handle, answer, Store.fetch, Proc.bind_apply, Proc.attempt_apply]
      at hrows
    cases hcall : env.call with
    | ok =>
      rw [hcall] at hrows
      exact (Option.some.inj hrows).symm
    | fail =>
      rw [hcall] at hrows
      cases hrows
    | stop =>
      rw [hcall] at hrows
      cases hrows
  rw [hanswer]
  intro w hw
  exact known_of_mem h ((Sql.orderByDesc_perm).mem_iff.1 hw)

/-- Only a list that arrives changes the polled data. -/
theorem data_step (w : UsePolled (List WatchlistItemRow)) {e : PollEvent (List WatchlistItemRow)}
    (he : ∀ id rows, e ≠ .settled id (.ok rows)) : (w.step e).state.data = w.state.data := by
  rcases UsePolled.step_cases w e with ⟨⟨-, hdata⟩, -⟩ | ⟨id, q, rows, rfl, -⟩
  · exact hdata
  · exact absurd rfl (he id rows)

theorem data_settled (w : UsePolled (List WatchlistItemRow)) (id : ℕ)
    (rows : List WatchlistItemRow) :
    (w.step (.settled id (.ok rows))).state.data = w.state.data ∨
      (w.step (.settled id (.ok rows))).state.data = some rows := by
  rcases UsePolled.step_cases w (.settled id (.ok rows)) with
    ⟨⟨-, hdata⟩, -⟩ | ⟨id', q, rows', heq, -, -, -, hdata⟩
  · exact .inl hdata
  · obtain ⟨-, hok⟩ := PollEvent.settled.inj heq
    obtain rfl := Except.ok.inj hok
    exact .inr hdata

/-- The polled list may change to another one of known rows. -/
theorem Inv.poll (h : page.Inv) {w : UsePolled (List WatchlistItemRow)}
    (hdata : ∀ rows ∈ w.state.data, ∀ row ∈ rows, Known page.server row) :
    Inv { page with watchlist := w } :=
  { h with data := hdata }

theorem mem_of_call {id : ℕ} (h : page.call id = some c) : c ∈ page.calls ∧ c.id = id :=
  ⟨List.mem_of_find?_eq_some h, by simpa using List.find?_some h⟩

/-- A click that is accepted adds a call for an item that has none. -/
theorem Inv.toggle (h : page.Inv) (haccepts : page.Accepts itemKey) :
    (page.toggle itemType itemKey label).Inv where
  table := h.table
  ids := nodup_map_concat h.ids fun c hc => (h.lt c hc).ne
  lt := by
    intro c hc
    rcases List.mem_append.1 hc with hc | hc
    · exact Nat.lt_succ_of_lt (h.lt c hc)
    · obtain rfl := List.mem_singleton.1 hc
      exact Nat.lt_succ_self _
  keys := by
    refine nodup_map_concat h.keys fun c hc hkey => haccepts.2 ?_
    rw [← show c.itemKey = itemKey from hkey]
    exact (h.guarded c hc).2
  guarded := by
    intro c hc
    rcases List.mem_append.1 hc with hc | hc
    · exact ⟨Finset.mem_insert_of_mem (h.guarded c hc).1,
        Finset.mem_insert_of_mem (h.guarded c hc).2⟩
    · obtain rfl := List.mem_singleton.1 hc
      exact ⟨Finset.mem_insert_self _ _, Finset.mem_insert_self _ _⟩
  data := h.data
  rendered := h.rendered
  answers := h.answers

/-- The write of a call. -/
theorem Inv.write (h : page.Inv) (id : ℕ) (o : Outcome Error Response) :
    Inv { page with
      server := (page.handled srv itemType c env headers).2
      calls := page.calls.map fun d =>
        if d.id = id then { d with result := some (succeeded o) } else d } := by
  obtain ⟨htable, hknown⟩ := handled_table itemType srv c env headers h.table
  refine ⟨htable, ?_, ?_, ?_, ?_, fun rows hrows w hw => hknown w (h.data rows hrows w hw),
    fun rows hrows w hw => hknown w (h.rendered rows hrows w hw),
    fun a ha w hw => hknown w (h.answers a ha w hw)⟩
  · refine nodup_map_map (fun d => ?_) h.ids
    split_ifs <;> rfl
  · intro d hd
    obtain ⟨d', hd', rfl⟩ := List.mem_map.1 hd
    have hlt := h.lt d' hd'
    split_ifs <;> exact hlt
  · refine nodup_map_map (fun d => ?_) h.keys
    split_ifs <;> rfl
  · intro d hd
    obtain ⟨d', hd', rfl⟩ := List.mem_map.1 hd
    have hguarded := h.guarded d' hd'
    split_ifs <;> exact hguarded

/-- A call returns, and the guard of its item is lifted. -/
theorem Inv.returned (h : page.Inv) {id : ℕ} (hc : page.call id = some c) :
    Inv { page with
      pending := page.pending.erase c.itemKey
      calls := page.calls.filter fun d => d.id ≠ id } := by
  obtain ⟨hmem, hid⟩ := mem_of_call hc
  refine ⟨h.table, h.ids.sublist (List.filter_sublist.map _),
    fun d hd => h.lt d (List.mem_filter.1 hd).1, h.keys.sublist (List.filter_sublist.map _),
    fun d hd => ?_, h.data, h.rendered, h.answers⟩
  obtain ⟨hd, hne⟩ := List.mem_filter.1 hd
  have hkey : d.itemKey ≠ c.itemKey := by
    intro heq
    obtain rfl := List.inj_on_of_nodup_map h.keys hd hmem heq
    simp [hid] at hne
  exact ⟨Finset.mem_erase.2 ⟨hkey, (h.guarded d hd).1⟩, (h.guarded d hd).2⟩

/-- **Every event** keeps the invariant. -/
theorem Inv.step (h : page.Inv) (e : WatchlistEvent) : (page.step srv itemType e).Inv := by
  have hpoll : ∀ e : PollEvent (List WatchlistItemRow), (∀ id rows, e ≠ .settled id (.ok rows)) →
      Inv { page with watchlist := page.watchlist.step e } := by
    intro e he
    refine h.poll ?_
    rw [data_step _ he]
    exact h.data
  cases e with
  | click itemKey label =>
    unfold UseWatchlist.step
    simp only
    split_ifs with haccepts
    · exact h.toggle haccepts
    · exact h
  | render =>
    unfold UseWatchlist.step
    simp only
    split_ifs
    · exact { h with
        guarded := fun c hc => ⟨(h.guarded c hc).1, (h.guarded c hc).1⟩
        rendered := h.data }
    · exact h
  | effects => exact hpoll .effects (by simp)
  | tick => exact hpoll .tick (by simp)
  | unmount => exact hpoll .unmount (by simp)
  | read id env =>
    unfold UseWatchlist.step
    simp only
    cases page.watchlist.request id with
    | none => exact h
    | some q =>
      cases hrows : listOf (ReadRequest.handle srv env .listWatchlist page.server).1 with
      | none => exact h
      | some rows =>
        refine { h with answers := fun a ha w hw => ?_ }
        rcases List.mem_append.1 ha with ha | ha
        · exact h.answers a ha w hw
        · obtain rfl := List.mem_singleton.1 ha
          exact known_listOf h.table hrows w hw
  | received id =>
    unfold UseWatchlist.step
    simp only
    cases hfind : page.answers.find? fun a => a.1 = id with
    | none => exact h
    | some a =>
      refine h.poll fun rows hrows => ?_
      rcases data_settled page.watchlist id a.2 with hdata | hdata
      · rw [hdata] at hrows
        exact h.data rows hrows
      · rw [hdata] at hrows
        obtain rfl := Option.mem_some_iff.1 hrows
        exact h.answers a (List.mem_of_find?_eq_some hfind)
  | readFailed id message => exact hpoll (.settled id (.error message)) (by simp)
  | write id env headers =>
    unfold UseWatchlist.step
    simp only
    cases page.call id with
    | none => exact h
    | some c =>
      simp only
      split_ifs
      · exact h.write id _
      · exact h
  | returned id delivered =>
    unfold UseWatchlist.step
    simp only
    cases hc : page.call id with
    | none => exact h
    | some c =>
      refine (h.returned hc).poll ?_
      split_ifs
      · rw [data_step _ (by simp)]
        exact h.data
      · exact h.data

/-! ### Fresh calls -/

theorem pinned_eq : page.pinned itemType itemKey =
    (page.server.itemId itemType itemKey).isSome := by
  simp [pinned, serverItem, Store.itemId]

theorem server_step_write {id : ℕ} (hc : page.call id = some c) (hresult : c.result = none) :
    (page.step srv itemType (.write id env headers)).server =
      (page.handled srv itemType c env headers).2 := by
  simp [UseWatchlist.step, hc, hresult]

/-- A write of one call leaves the items of the others. -/
theorem Inv.itemId_handled (h : page.Inv) (hagrees : Agrees itemType page) (hc : c ∈ page.calls)
    (hresult : c.result = none) (hne : itemKey ≠ c.itemKey) :
    (page.handled srv itemType c env headers).2.itemId itemType itemKey =
      page.server.itemId itemType itemKey := by
  rcases handled_cases srv itemType page c env headers with
    ⟨-, heq⟩ | ⟨-, i, hexisting, -, heq⟩ | ⟨-, -, heq⟩
  · rw [heq]
  · have hi := (hagrees c hc hresult).1.symm.trans hexisting
    rw [heq, h.table.itemId_delete, if_neg fun hi' => hne (h.table.itemKey_unique hi' hi)]
  · rw [heq, h.table.itemId_upsert_of_ne hne]

/-- **Fresh clicks** keep the calls in agreement with the server. -/
theorem Inv.agrees_step (h : page.Inv) (hagrees : Agrees itemType page) {e : WatchlistEvent}
    (hfresh : page.Fresh itemType e) : Agrees itemType (page.step srv itemType e) := by
  cases e with
  | click itemKey label =>
    unfold UseWatchlist.step
    simp only
    split_ifs with haccepts
    · intro c hc hresult
      rcases List.mem_append.1 hc with hc | hc
      · exact hagrees c hc hresult
      · obtain rfl := List.mem_singleton.1 hc
        refine ⟨hfresh haccepts, ?_⟩
        show page.pinned itemType itemKey = _
        rw [pinned_eq, hfresh haccepts]
    · exact hagrees
  | render =>
    unfold UseWatchlist.step
    simp only
    split_ifs <;> exact hagrees
  | effects => exact hagrees
  | tick => exact hagrees
  | unmount => exact hagrees
  | read id env =>
    unfold UseWatchlist.step
    simp only
    split <;> exact hagrees
  | received id =>
    unfold UseWatchlist.step
    simp only
    split <;> exact hagrees
  | readFailed id message => exact hagrees
  | write id env headers =>
    unfold UseWatchlist.step
    simp only
    cases hcall : page.call id with
    | none => exact hagrees
    | some c =>
      simp only
      split_ifs with hresult
      · obtain ⟨hc, hid⟩ := mem_of_call hcall
        intro d hd hd'
        obtain ⟨d, hmem, rfl⟩ := List.mem_map.1 hd
        by_cases hdid : d.id = id
        · rw [if_pos hdid] at hd'
          cases hd'
        · rw [if_neg hdid] at hd' ⊢
          have hne : d.itemKey ≠ c.itemKey := by
            intro heq
            obtain rfl := List.inj_on_of_nodup_map h.keys hmem hc heq
            exact hdid hid
          show d.existing = (page.handled srv itemType c env headers).2.itemId _ _ ∧ _
          rw [h.itemId_handled hagrees hc hresult hne]
          exact hagrees d hmem hd'
      · exact hagrees
  | returned id delivered =>
    unfold UseWatchlist.step
    simp only
    cases page.call id with
    | none => exact hagrees
    | some c => exact fun d hd => hagrees d (List.mem_filter.1 hd).1

/-- **A fresh call flips its item.** -/
theorem Inv.flips (h : page.Inv) (hagrees : Agrees itemType page) {e : WatchlistEvent}
    (hfresh : page.Fresh itemType e) : page.Flips srv itemType e := by
  have hrow : ∀ {itemKey i}, page.server.itemId itemType itemKey = some i →
      ∃ row ∈ page.server.watchlistItems, row.id = i := by
    intro itemKey i hi
    obtain ⟨row, hrow, -, -, hid⟩ := h.table.itemId_eq_some_iff.1 hi
    exact ⟨row, hrow, hid⟩
  cases e with
  | click itemKey label =>
    intro haccepts w hw
    have hid := hfresh haccepts
    rw [hw] at hid
    exact hrow hid.symm
  | write id env headers =>
    intro c hcall hresult
    obtain ⟨hc, -⟩ := mem_of_call hcall
    obtain ⟨hexisting, hwas⟩ := hagrees c hc hresult
    refine ⟨fun i hi => hrow (hexisting.symm.trans hi), fun hsuccess => ?_⟩
    rw [pinned_eq, server_step_write hcall hresult, hwas]
    rcases handled_cases srv itemType page c env headers with
      ⟨hfails, -⟩ | ⟨-, i, hi, -, heq⟩ | ⟨-, hnone, heq⟩
    · rw [hsuccess] at hfails
      cases hfails
    · rw [heq, h.table.itemId_delete, if_pos (hexisting.symm.trans hi), hi]
      rfl
    · rw [heq, h.table.isSome_itemId_upsert, hnone]
      rfl
  | render => exact trivial
  | effects => exact trivial
  | tick => exact trivial
  | unmount => exact trivial
  | read id env => exact trivial
  | received id => exact trivial
  | readFailed id message => exact trivial
  | returned id delivered => exact trivial

variable (itemType itemKey label) in
/-- The call of a click. -/
theorem Inv.call_toggle (h : page.Inv) :
    ∃ c, (page.toggle itemType itemKey label).call page.nextCall = some c ∧
      c.existing = (page.existing itemType itemKey).map (·.id) ∧
      c.wasPinned = page.pinned itemType itemKey ∧ c.result = none := by
  have hold : page.calls.find? (fun c => c.id = page.nextCall) = none := by
    rw [List.find?_eq_none]
    intro c hc
    simpa using (h.lt c hc).ne
  exact ⟨_, by simp [call, UseWatchlist.toggle, List.find?_append, hold]; rfl, rfl, rfl, rfl⟩

/-- **A stale call** deletes a row that is gone, or leaves its item pinned. -/
theorem Inv.not_flips (h : page.Inv) (haccepts : page.Accepts itemKey)
    (hstale : ¬ page.Fresh itemType (.click itemKey label))
    (hsuccess : page.WriteSucceeds srv itemType itemKey label env headers) :
    ¬ Each (UseWatchlist.step srv itemType) (Flips srv itemType) page
      [.click itemKey label, .write page.nextCall env headers] := by
  rintro ⟨hclick, hwrite, -⟩
  have hstep : page.step srv itemType (.click itemKey label) =
      page.toggle itemType itemKey label := if_pos haccepts
  have hid : (page.existing itemType itemKey).map (·.id) ≠ page.server.itemId itemType itemKey :=
    fun heq => hstale fun _ => heq
  cases hexisting : page.existing itemType itemKey with
  | some w =>
    -- a row with its id would be the item
    obtain ⟨row, hrow, hrowid⟩ := hclick haccepts w hexisting
    have hmem := List.mem_of_find?_eq_some hexisting
    have hkey : w.itemKey = itemKey := by simpa using List.find?_some hexisting
    obtain ⟨hw, htype⟩ := List.mem_filter.1 hmem
    have hknown : Known page.server w := by
      cases hdata : page.rendered.data with
      | none =>
        rw [hdata] at hw
        cases hw
      | some rows =>
        rw [hdata] at hw
        exact h.rendered rows hdata w hw
    obtain ⟨hrowtype, hrowkey⟩ := hknown.2 row hrow hrowid
    refine hid ?_
    rw [hexisting]
    exact (h.table.itemId_eq_some_iff.2 ⟨row, hrow, hrowtype.trans (by simpa using htype),
      hrowkey.trans hkey, hrowid⟩).symm
  | none =>
    obtain ⟨c, hcall, hnone, hwas, hresult⟩ := h.call_toggle itemType itemKey label
    rw [hexisting] at hnone hid
    have hpinned : page.pinned itemType itemKey = true := by
      rw [pinned_eq, Option.isSome_iff_ne_none]
      exact fun h => hid h.symm
    rw [hstep] at hwrite
    have hflip := (hwrite c hcall hresult).2 (hsuccess c hcall)
    rw [pinned_eq, server_step_write hcall hresult, hwas, hpinned] at hflip
    rcases handled_cases srv itemType (page.toggle itemType itemKey label) c env headers with
      ⟨hfails, -⟩ | ⟨-, i, hi, -, -⟩ | ⟨-, -, heq⟩
    · rw [hsuccess c hcall] at hfails
      cases hfails
    · rw [hnone] at hi
      cases hi
    · rw [heq] at hflip
      have htable : WatchlistTable (page.toggle itemType itemKey label).server := h.table
      rw [htable.isSome_itemId_upsert] at hflip
      cases hflip

/-! ### Runs -/

/-- **In every run whose calls start fresh**, each of them flips its item and deletes only a row
that is there; and a call that starts stale and succeeds does not. -/
theorem toggle_flips {server : Store} (hserver : WatchlistTable server)
    (es : List WatchlistEvent) :
    (Each (step srv itemType) (Fresh itemType) (mount server) es →
      Each (step srv itemType) (Flips srv itemType) (mount server) es) ∧
    ∀ page itemKey label env headers, page = Trace.run (step srv itemType) (mount server) es →
      page.Accepts itemKey → ¬ page.Fresh itemType (.click itemKey label) →
        page.WriteSucceeds srv itemType itemKey label env headers →
          ¬ Each (step srv itemType) (Flips srv itemType) page
            [.click itemKey label, .write page.nextCall env headers] := by
  constructor
  · have hstep : ∀ page e, Inv page ∧ Agrees itemType page → Fresh itemType page e →
        (Inv (step srv itemType page e) ∧ Agrees itemType (step srv itemType page e)) ∧
          Flips srv itemType page e := by
      rintro page e ⟨hinv, hagrees⟩ hfresh
      exact ⟨⟨hinv.step e, hinv.agrees_step hagrees hfresh⟩, hinv.flips hagrees hfresh⟩
    exact Each.of_invariant ⟨inv_mount hserver, agrees_mount⟩ hstep
  · rintro page itemKey label env headers rfl haccepts hstale hsuccess
    have hinv : Inv (Trace.run (step srv itemType) (mount server) es) :=
      run_invariant (inv_mount hserver) (fun page e h => h.step e) es
    exact hinv.not_flips haccepts hstale hsuccess

end UseWatchlist

namespace Sample

open UseWatchlist

def adminHeaders : HeaderMap := [⟨"X-Admin-Key", asBytes "s3cret"⟩]

/-- An empty list is loaded and rendered, and the pin of a pool clicked. -/
def firstPin : List WatchlistEvent :=
  [.effects, .read 0 requestEnv, .received 0, .render, .click "0a" "XLM/USDC",
    .write 0 requestEnv adminHeaders]

/-- The write returns, and the page is rendered before the new list arrives. -/
def pinReturned : List WatchlistEvent := [.returned 0 true, .render]

/-- The pin is clicked again. -/
def secondPin : List WatchlistEvent :=
  [.click "0a" "XLM/USDC", .write 1 requestEnv adminHeaders]

theorem watchlistTable_empty : WatchlistTable Store.empty where
  ids := List.nodup_nil
  lt := by simp [Store.empty]
  keys := List.nodup_nil

/-- **The second click does not take the pin off.** -/
theorem secondPin_stays : ¬ ∀ (srv : ApiServer) (itemType : String) (server : Store)
    (es : List WatchlistEvent), WatchlistTable server →
      Each (step srv itemType) (Flips srv itemType) (mount server) es := by
  intro hall
  have h := hall adminServer "pool" Store.empty (firstPin ++ pinReturned ++ secondPin)
    watchlistTable_empty
  obtain ⟨-, hlast, -⟩ := (each_append.1 h).2
  have hflip := (hlast ⟨1, "0a", "XLM/USDC", none, true, none⟩ (by decide +kernel) rfl).2
    (by decide +kernel)
  exact absurd hflip (by decide +kernel)

/-- The first click pins the item, and the second one does not flip it. -/
theorem firstPin_flips :
    Each (step adminServer "pool") (Flips adminServer "pool") (mount Store.empty) firstPin ∧
      ¬ Each (step adminServer "pool") (Flips adminServer "pool")
        (run (step adminServer "pool") (mount Store.empty) (firstPin ++ pinReturned))
        secondPin := by
  refine ⟨(toggle_flips watchlistTable_empty firstPin).1
    ⟨trivial, trivial, trivial, trivial, fun _ => by decide +kernel, trivial, trivial⟩,
    (toggle_flips watchlistTable_empty (firstPin ++ pinReturned)).2 _ "0a" "XLM/USDC" requestEnv
      adminHeaders rfl (by decide +kernel)
      (fun hfresh => absurd (hfresh (by decide +kernel)) (by decide +kernel)) fun c hc => ?_⟩
  have hcall : (UseWatchlist.toggle "pool"
      (run (step adminServer "pool") (mount Store.empty) (firstPin ++ pinReturned))
      "0a" "XLM/USDC").call 1 = some ⟨1, "0a", "XLM/USDC", none, true, none⟩ := by
    decide +kernel
  obtain rfl := Option.some.inj (hcall.symm.trans hc)
  decide +kernel

end Sample

end Lumina
