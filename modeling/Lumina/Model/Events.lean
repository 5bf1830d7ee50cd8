import Lumina.Channel.Broadcast
import Lumina.Model.System

/-!
# Live events

The ingester publishes an event with `pg_notify` after it has recorded an alert.  The API listens on
one connection of its own and passes what it hears on to a broadcast channel; a response to
`GET /events` follows the channel, and the `EventSource` of a page follows the response.  Every
link may be down for a while, and what is published meanwhile does not come later.

## Main definitions

* `EventStream` : a response to `GET /events`, `LivePage` : a page in some browser.
* `LiveSystem` : the system with its listener, its channel and the pages.
* `LiveSystem.push` : what happens to a live event on its way.
-/

namespace Lumina

/-- `new_bus`. -/
def newBus : Broadcast Notification := .new 256

/-- A response to `GET /events` that is under way. -/
structure EventStream where
  /-- The receiver of the channel. -/
  receiver : ℕ
  /-- What was sent to the browser and is not there yet. -/
  frames : List Notification

/-- `events_stream`, whose receiver subscribes at the end of the channel. -/
def eventsStream (bus : Broadcast Notification) : EventStream := ⟨bus.tail, []⟩

/-- The stream asks its receiver; that it lags is skipped. -/
def EventStream.poll (bus : Broadcast Notification) (stream : EventStream) : EventStream :=
  ⟨(bus.recv stream.receiver).2, stream.frames ++ (bus.recv stream.receiver).1.toList⟩

/-- A page with its `EventSource`. -/
structure LivePage where
  stream : Option EventStream
  /-- The events that were handed to the page. -/
  received : List Notification

namespace LivePage

variable (bus : Broadcast Notification) (page : LivePage)

/-- The `EventSource` connects, as it does again after every error. -/
def connect : LivePage :=
  match page.stream with
  | some _ => page
  | none => { page with stream := some (eventsStream bus) }

def poll : LivePage := { page with stream := page.stream.map (·.poll bus) }

/-- The next event arrives. -/
def read : LivePage :=
  match page.stream with
  | some ⟨receiver, event :: frames⟩ => ⟨some ⟨receiver, frames⟩, page.received ++ [event]⟩
  | _ => page

/-- The response ends, with all that is still on its way. -/
def disconnect : LivePage := { page with stream := none }

end LivePage

/-- The system and the ways of its live events. -/
structure LiveSystem where
  system : System
  /-- What `recv` has yet to return, while the listener is connected. -/
  listener : Option (List Notification)
  bus : Broadcast Notification
  pages : List LivePage

/-- What happens to live events; pages are numbered. -/
inductive PushEvent where
  /-- The listener connects. -/
  | listen
  /-- The connection of the listener is lost. -/
  | lost
  /-- `recv` returns, and the notification goes to the channel. -/
  | forward
  | openPage
  | connect (page : ℕ)
  /-- The response to a page is polled. -/
  | poll (page : ℕ)
  | read (page : ℕ)
  | disconnect (page : ℕ)
  deriving DecidableEq

namespace LiveSystem

def empty : LiveSystem := ⟨System.empty, none, newBus, []⟩

variable (s : LiveSystem)

/-- The system moves on, and the listener is notified of what was published. -/
def notify (system : System) : LiveSystem :=
  { s with
    system := system
    listener := s.listener.map (· ++ system.notified.drop s.system.notified.length) }

/-- `listen_and_forward` passes a notification on; without a receiver, `send` fails. -/
def forward : LiveSystem :=
  match s.listener with
  | some (event :: queue) =>
    { s with
      listener := some queue
      bus := if s.pages.any (·.stream.isSome) then s.bus.send event else s.bus }
  | _ => s

/-- What happens at an event. -/
def push : PushEvent → LiveSystem
  | .listen => { s with listener := s.listener.or (some []) }
  | .lost => { s with listener := none }
  | .forward => s.forward
  | .openPage => { s with pages := s.pages ++ [⟨none, []⟩] }
  | .connect page => { s with pages := s.pages.modify page (·.connect s.bus) }
  | .poll page => { s with pages := s.pages.modify page (·.poll s.bus) }
  | .read page => { s with pages := s.pages.modify page (·.read) }
  | .disconnect page => { s with pages := s.pages.modify page (·.disconnect) }

@[simp] theorem push_system (e : PushEvent) : (s.push e).system = s.system := by
  cases e with
  | forward =>
    simp only [push, forward]
    split <;> rfl
  | _ => rfl

end LiveSystem

end Lumina
