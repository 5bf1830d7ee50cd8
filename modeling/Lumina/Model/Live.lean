import Lumina.Model.System

/-!
# The live feed of a page

`live.ts` of the web pages: one `EventSource` for the whole page, and two sets of listeners, for
its events and for whether it is connected.  `useLiveEvents` and `useLiveStatus` subscribe a
listener for the lifetime of a component; `LiveToaster` shows the graver alerts for some seconds.

A set of listeners is a list without duplicates, in the order in which `forEach` visits it.
A listener for events may throw, which ends the round.  The only listener for the status is the
one of `LiveBadge`, which sets a state of the component and does not throw.

## Main definitions

* `LiveFeed` : the module's state, `LiveFeed.step` : its functions and the events of the source.
* `LiveCall` : a call of a listener.
* `LiveToaster` : the toasts and their timers.
-/

namespace Lumina

/-- The payload of a live event. -/
structure LiveEvent where
  type : String
  kind : Option String
  severity : Option String
  message : Option Text
  time : Option Time
  deriving DecidableEq

/-- What the page parses from the payload that the ingester writes. -/
def LiveEvent.ofNotification (n : Notification) : LiveEvent :=
  ⟨"alert", some n.1, some n.2.1, some n.2.2.1, some n.2.2.2⟩

/-- A call of a listener, which is known by a number. -/
inductive LiveCall where
  | event (listener : ℕ) (e : LiveEvent)
  | status (listener : ℕ) (connected : Bool)
  deriving DecidableEq

/-- The variables of the module. -/
structure LiveFeed where
  eventListeners : List ℕ
  statusListeners : List ℕ
  /-- There is an `EventSource`. -/
  source : Bool
  connected : Bool
  deriving DecidableEq

/-- A call of a function of the module, or an event of the source. -/
inductive FeedEvent where
  /-- `subscribeLiveEvents`, and whether an `EventSource` can be made. -/
  | subscribeEvents (listener : ℕ) (available : Bool)
  | unsubscribeEvents (listener : ℕ)
  /-- `subscribeLiveStatus`. -/
  | subscribeStatus (listener : ℕ) (available : Bool)
  | unsubscribeStatus (listener : ℕ)
  | opened
  | error
  /-- A message, unless its payload is malformed. -/
  | alert (data : Option LiveEvent)

namespace LiveFeed

/-- The module before any call. -/
def initial : LiveFeed := ⟨[], [], false, false⟩

variable (throws : ℕ → LiveEvent → Bool) (s : LiveFeed)

/-- `setConnected`, with the calls that it makes. -/
def setConnected (value : Bool) : LiveFeed × List LiveCall :=
  if s.connected = value then (s, [])
  else ({ s with connected := value }, s.statusListeners.map (LiveCall.status · value))

/-- `ensureConnected`. -/
def ensureConnected (available : Bool) : LiveFeed := { s with source := s.source || available }

/-- `Set.prototype.add`. -/
def addTo (listeners : List ℕ) (listener : ℕ) : List ℕ :=
  if listener ∈ listeners then listeners else listeners ++ [listener]

/-- `eventListeners.forEach((l) => l(data))`, which ends at the first listener that throws. -/
def forEachListener (e : LiveEvent) : List ℕ → List LiveCall
  | [] => []
  | l :: ls => if throws l e then [.event l e] else .event l e :: forEachListener e ls

/-- What happens at a call or an event, with the listeners that are called. -/
def step : FeedEvent → LiveFeed × List LiveCall
  | .subscribeEvents l available =>
    ({ s.ensureConnected available with eventListeners := addTo s.eventListeners l }, [])
  | .unsubscribeEvents l => ({ s with eventListeners := s.eventListeners.filter (· ≠ l) }, [])
  | .subscribeStatus l available =>
    ({ s.ensureConnected available with statusListeners := addTo s.statusListeners l },
      [.status l s.connected])
  | .unsubscribeStatus l => ({ s with statusListeners := s.statusListeners.filter (· ≠ l) }, [])
  | .opened => if s.source then s.setConnected true else (s, [])
  | .error => if s.source then s.setConnected false else (s, [])
  | .alert data =>
    if s.source then
      let (s', calls) := s.setConnected true
      match data with
      | some e => (s', calls ++ forEachListener throws e s.eventListeners)
      | none => (s', calls)
    else (s, [])

end LiveFeed

/-! ### Toasts -/

structure Toast where
  event : LiveEvent
  id : ℕ
  deriving DecidableEq

/-- The toasts that are shown, and the timers that are set. -/
structure LiveToaster where
  toasts : List Toast
  nextId : ℕ
  timers : List ℕ
  deriving DecidableEq

inductive ToasterEvent where
  /-- A live event arrives. -/
  | live (e : LiveEvent)
  /-- The timer of a toast fires. -/
  | expire (id : ℕ)
  /-- A click on the cross of a toast. -/
  | dismiss (id : ℕ)
  deriving DecidableEq

namespace LiveToaster

def mount : LiveToaster := ⟨[], 1, []⟩

/-- The events that the toaster shows. -/
def Shows (e : LiveEvent) : Prop :=
  e.type = "alert" ∧ (e.severity = some "WARNING" ∨ e.severity = some "CRITICAL")

instance (e : LiveEvent) : Decidable (Shows e) := inferInstanceAs (Decidable (_ ∧ _))

variable (s : LiveToaster)

/-- `setToasts((t) => t.filter((x) => x.id !== id))`. -/
def remove (id : ℕ) : LiveToaster := { s with toasts := s.toasts.filter (·.id ≠ id) }

/-- What happens at an event. -/
def step : ToasterEvent → LiveToaster
  | .live e =>
    if Shows e then
      { toasts := s.toasts ++ [⟨e, s.nextId⟩]
        nextId := s.nextId + 1
        timers := s.timers ++ [s.nextId] }
    else s
  | .expire id =>
    if id ∈ s.timers then { s.remove id with timers := s.timers.filter (· ≠ id) } else s
  | .dismiss id =>
    -- the cross is on the toast
    if id ∈ s.toasts.map (·.id) then s.remove id else s

end LiveToaster

end Lumina
