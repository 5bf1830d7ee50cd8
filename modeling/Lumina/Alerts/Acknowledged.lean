import Lumina.Model.Routes
import Lumina.Trace.Basic
import Mathlib.Data.Finset.Card
import Mathlib.Data.List.DropRight

/-!
# Acknowledgements

Alerts are acknowledged one by one or many at once, and an acknowledgement can be undone.  After
any history of these calls an alert is acknowledged exactly if the last call that names it is an
acknowledgement, with the time of the first one since it was last undone, and nothing else has
changed.  A bulk call is the calls for its ids in any order, and counts the alerts that it names
(`acknowledgements_exact`).

## Main definitions

* `AckCall` : the calls, with the clock of the database.
* `acknowledgedSince` : the first acknowledgement of an id since it was last undone.
* `AlertRow.history` : the calls, after the acknowledgement that an alert starts with.
-/

namespace Lumina

/-- A call of the database functions. -/
inductive AckCall where
  | acknowledge (now : Time) (id : ℤ)
  | unacknowledge (id : ℤ)
  | acknowledgeAll (now : Time) (ids : List ℤ)

namespace AckCall

/-- The store after a call. -/
def after (s : Store) : AckCall → Store
  | acknowledge now id => (acknowledgeAlert now id s).2
  | unacknowledge id => (unacknowledgeAlert id s).2
  | acknowledgeAll now ids => (acknowledgeAlerts now ids s).2

/-- The time at which the call acknowledges an id, if it does. -/
def acks (id : ℤ) : AckCall → Option Time
  | acknowledge now id' => if id = id' then some now else none
  | unacknowledge _ => none
  | acknowledgeAll now ids => if id ∈ ids then some now else none

/-- The call undoes the acknowledgement of an id. -/
def undoes (id : ℤ) : AckCall → Bool
  | unacknowledge id' => id = id'
  | _ => false

/-- The call names an id. -/
def names (id : ℤ) (c : AckCall) : Bool := (c.acks id).isSome || c.undoes id

end AckCall

/-- The first acknowledgement of an id since it was last undone, or ever. -/
def acknowledgedSince (id : ℤ) (calls : List AckCall) : Option Time :=
  (calls.rtakeWhile fun c => !c.undoes id).findSome? (·.acks id)

/-- The calls, after the acknowledgement that the alert starts with, if it has one. -/
def AlertRow.history (a : AlertRow) (calls : List AckCall) : List AckCall :=
  (a.acknowledgedAt.map fun t => AckCall.acknowledge t a.id).toList ++ calls

/-- The store with a new time for each of its alerts. -/
def Store.withAcks (s : Store) (at' : AlertRow → Option Time) : Store :=
  { s with db :=
    { s.db with alerts := s.db.alerts.map fun a => { a with acknowledgedAt := at' a } } }

variable {s : Store} {id : ℤ} {now : Time} {ids l : List ℤ} {c : AckCall} {calls : List AckCall}

/-! ### One call -/

/-- The time of an alert after a call. -/
def AckCall.next (id : ℤ) (c : AckCall) (current : Option Time) : Option Time :=
  if c.undoes id then none else current.or (c.acks id)

theorem AckCall.not_undoes_of_acks {t : Time} (h : c.acks id = some t) : c.undoes id = false := by
  cases c with
  | acknowledge now id' => rfl
  | unacknowledge id' => cases h
  | acknowledgeAll now ids => rfl

/-- **One call** changes the times of the alerts and nothing else. -/
theorem AckCall.after_eq (c : AckCall) (s : Store) :
    c.after s = s.withAcks fun a => c.next a.id a.acknowledgedAt := by
  have hsame : ∀ f : AlertRow → AlertRow,
      (∀ a, f a = { a with acknowledgedAt := c.next a.id a.acknowledgedAt }) →
      ({ s with db := { s.db with alerts := s.db.alerts.map f } } : Store) =
        s.withAcks fun a => c.next a.id a.acknowledgedAt := by
    intro f hf
    rw [funext hf]
    rfl
  cases c with
  | acknowledge now id =>
    refine hsame _ fun a => ?_
    by_cases h : (a.id : ℤ) = id
    · cases a.acknowledgedAt <;> simp [h, next, undoes, acks]
    · simp [h, next, undoes, acks]
  | unacknowledge id =>
    refine hsame _ fun a => ?_
    by_cases h : (a.id : ℤ) = id
    · simp [h, next, undoes]
    · simp [h, next, undoes, acks]
  | acknowledgeAll now ids =>
    refine hsame _ fun a => ?_
    by_cases h : (a.id : ℤ) ∈ ids
    · cases a.acknowledgedAt <;> simp [h, next, undoes, acks]
    · simp [h, next, undoes, acks]

/-! ### Histories -/

/-- Some calls change the times of the alerts and nothing else. -/
theorem run_after (calls : List AckCall) (s : Store) :
    Trace.run (fun s c => c.after s) s calls =
      s.withAcks fun a => calls.foldl (fun t c => c.next a.id t) a.acknowledgedAt := by
  induction calls using List.reverseRecOn with
  | nil => simp [Store.withAcks]
  | append_singleton calls c ih =>
    rw [Trace.run_snoc, ih, AckCall.after_eq]
    simp [Store.withAcks, Function.comp_def]

/-- The time after a history is that of the first acknowledgement since the last undo. -/
theorem foldl_next (id : ℤ) (calls : List AckCall) :
    calls.foldl (fun t c => c.next id t) none = acknowledgedSince id calls := by
  unfold acknowledgedSince
  induction calls using List.reverseRecOn with
  | nil => rfl
  | append_singleton calls c ih =>
    rw [List.foldl_append, List.foldl_cons, List.foldl_nil, ih, AckCall.next,
      List.rtakeWhile_concat]
    cases hundo : c.undoes id with
    | true => simp
    | false => simp [List.findSome?_append]

/-- The history of an alert starts from nothing. -/
theorem foldl_next_history (a : AlertRow) (calls : List AckCall) :
    calls.foldl (fun t c => c.next a.id t) a.acknowledgedAt =
      acknowledgedSince a.id (a.history calls) := by
  rw [← foldl_next, AlertRow.history, List.foldl_append]
  cases a.acknowledgedAt with
  | none => rfl
  | some t => simp [AckCall.next, AckCall.undoes, AckCall.acks]

/-- **Acknowledged** is what the last call says that names the alert. -/
theorem isSome_acknowledgedSince_iff : (acknowledgedSince id calls).isSome ↔
    ∃ c, (calls.filter (·.names id)).getLast? = some c ∧ (c.acks id).isSome := by
  rw [← foldl_next]
  induction calls using List.reverseRecOn with
  | nil => simp
  | append_singleton calls c ih =>
    rw [List.foldl_append, List.foldl_cons, List.foldl_nil, List.filter_append]
    cases hacks : c.acks id with
    | some t =>
      have hundo := AckCall.not_undoes_of_acks hacks
      simp [AckCall.next, AckCall.names, hacks, hundo]
    | none =>
      cases hundo : c.undoes id with
      | true => simp [AckCall.next, AckCall.names, hacks, hundo]
      | false => simpa [AckCall.next, AckCall.names, hacks, hundo] using ih

/-! ### Bulk calls -/

/-- A bulk call is the calls for its ids one by one. -/
theorem acknowledgeAlerts_eq_foldl (h : ∀ id, id ∈ l ↔ id ∈ ids) (s : Store) :
    (acknowledgeAlerts now ids s).2 = l.foldl (fun s id => (acknowledgeAlert now id s).2) s := by
  have hrun : l.foldl (fun s id => (acknowledgeAlert now id s).2) s =
      Trace.run (fun s c => c.after s) s (l.map (AckCall.acknowledge now)) := by
    rw [Trace.run, List.foldl_map]
    rfl
  have htime : ∀ (id : ℤ) (t : Option Time),
      (l.map (AckCall.acknowledge now)).foldl (fun t c => c.next id t) t =
        (AckCall.acknowledgeAll now ids).next id t := by
    intro id t
    have hnext : (AckCall.acknowledgeAll now ids).next id t =
        if id ∈ l then t.or (some now) else t := by
      simp [AckCall.next, AckCall.undoes, AckCall.acks, h id]
      split_ifs <;> simp
    rw [hnext]
    clear h hrun hnext
    induction l generalizing t with
    | nil => simp
    | cons id' l ih =>
      rw [List.map_cons, List.foldl_cons, ih]
      by_cases hid : id = id'
      · cases t <;> simp [AckCall.next, AckCall.undoes, AckCall.acks, hid]
      · simp [AckCall.next, AckCall.undoes, AckCall.acks, hid]
  rw [hrun, run_after, show (acknowledgeAlerts now ids s).2 =
    (AckCall.acknowledgeAll now ids).after s from rfl, AckCall.after_eq]
  simp only [htime]

/-- It counts the ids that it names, where there are alerts with them. -/
theorem acknowledgeAlerts_count (hids : (s.db.alerts.map (·.id)).Nodup) :
    (acknowledgeAlerts now ids s).1 =
      (ids.toFinset.filter fun id => ∃ a ∈ s.db.alerts, (a.id : ℤ) = id).card := by
  have hnodup : ((s.db.alerts.filter fun a => (a.id : ℤ) ∈ ids).map fun a => (a.id : ℤ)).Nodup := by
    have hint : (s.db.alerts.map fun a => (a.id : ℤ)).Nodup := by
      have hcast := hids.map (Nat.cast_injective (R := ℤ))
      rwa [List.map_map] at hcast
    exact hint.sublist (List.filter_sublist.map _)
  have hset : (ids.toFinset.filter fun id => ∃ a ∈ s.db.alerts, (a.id : ℤ) = id) =
      ((s.db.alerts.filter fun a => (a.id : ℤ) ∈ ids).map fun a => (a.id : ℤ)).toFinset := by
    ext id
    simp only [Finset.mem_filter, List.mem_toFinset, List.mem_map, List.mem_filter,
      decide_eq_true_eq]
    grind
  rw [hset, List.toFinset_card_of_nodup hnodup, List.length_map, acknowledgeAlerts,
    List.countP_eq_length_filter]

/-- **The acknowledgement history is exact.** -/
theorem acknowledgements_exact (hids : (s.db.alerts.map (·.id)).Nodup) (calls : List AckCall) :
    (∃ at' : AlertRow → Option Time,
      Trace.run (fun s c => c.after s) s calls = s.withAcks at' ∧
        ∀ a ∈ s.db.alerts,
          ((at' a).isSome ↔ ∃ c, ((a.history calls).filter (·.names a.id)).getLast? = some c ∧
            (c.acks a.id).isSome) ∧
          at' a = acknowledgedSince a.id (a.history calls) ∧
          ((∀ c ∈ calls, c.names a.id = false) → at' a = a.acknowledgedAt)) ∧
    ∀ now ids (l : List ℤ), (∀ id, id ∈ l ↔ id ∈ ids) →
      acknowledgeAlerts now ids (Trace.run (fun s c => c.after s) s calls) =
        ((ids.toFinset.filter fun id => ∃ a ∈ s.db.alerts, (a.id : ℤ) = id).card,
          l.foldl (fun s id => (acknowledgeAlert now id s).2)
            (Trace.run (fun s c => c.after s) s calls)) := by
  constructor
  · refine ⟨fun a => acknowledgedSince a.id (a.history calls), ?_, fun a _ => ⟨?_, rfl, ?_⟩⟩
    · rw [run_after]
      simp only [foldl_next_history]
    · exact isSome_acknowledgedSince_iff
    · intro hnames
      show acknowledgedSince a.id (a.history calls) = a.acknowledgedAt
      rw [← foldl_next_history]
      induction calls with
      | nil => rfl
      | cons c calls ih =>
        obtain ⟨hc, hcalls⟩ := List.forall_mem_cons.1 hnames
        obtain ⟨hacks, hundo⟩ := Bool.or_eq_false_iff.1 hc
        have hnone : c.acks a.id = none := by simpa using hacks
        have hsame : c.next a.id a.acknowledgedAt = a.acknowledgedAt := by
          simp [AckCall.next, hundo, hnone]
        rw [List.foldl_cons, hsame]
        exact ih hcalls
  · intro now ids l hl
    have hrun := run_after calls s
    refine Prod.ext ?_ (acknowledgeAlerts_eq_foldl hl _)
    rw [acknowledgeAlerts_count]
    · rw [hrun]
      simp [Store.withAcks]
    · rw [hrun]
      simpa [Store.withAcks, Function.comp_def] using hids

namespace Sample

def ackAlert (id : ℕ) : AlertRow :=
  ⟨id, 0, "whale_payment", "info", [], [], none⟩

def ackStore : Store :=
  { Store.empty with db := { Db.empty with alerts := [ackAlert 1, ackAlert 2] } }

def ackCalls : List AckCall :=
  [.acknowledgeAll 10 [1, 1, 7], .acknowledge 20 1, .unacknowledge 2, .acknowledge 30 2]

/-- The first time stays, and an id that names nothing does not count. -/
theorem acknowledgements_kept :
    (Trace.run (fun s c => c.after s) ackStore ackCalls).db.alerts.map (·.acknowledgedAt) =
        [some 10, some 30] ∧
      (acknowledgeAlerts 40 [1, 1, 7] (Trace.run (fun s c => c.after s) ackStore ackCalls)).1 =
        1 := by
  obtain ⟨⟨at', hrun, hacks⟩, hbulk⟩ :=
    acknowledgements_exact (s := ackStore) (by decide) ackCalls
  refine ⟨?_, ?_⟩
  · have h1 : at' (ackAlert 1) = some 10 :=
      ((hacks _ (by simp [ackStore])).2.1).trans (by decide)
    have h2 : at' (ackAlert 2) = some 30 :=
      ((hacks _ (by simp [ackStore])).2.1).trans (by decide)
    rw [hrun]
    simp [Store.withAcks, ackStore, h1, h2]
  · rw [hbulk 40 [1, 1, 7] [1, 1, 7] fun _ => Iff.rfl]
    decide

end Sample

end Lumina
