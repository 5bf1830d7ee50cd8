import Lumina.Model.Routes
import Lumina.Model.UsePolled
import Mathlib.Data.Finset.Basic

/-!
# Pinning

`useWatchlist` of the web pages: one polled list backs the pins of a page.  A call of `toggle` looks
the item up in the list of the render that its button belongs to, and sends a write; when that
returns, it asks for the list again and lifts the guard that keeps further calls for the item out.
The server handles the writes and the reads in any order.

## Main definitions

* `ToggleCall` : a call of `toggle`, up to the `await`.
* `UseWatchlist` : the hook, the calls and the reads under way, and the store of the server.
* `UseWatchlist.step` : what happens at an event.
-/

namespace Lumina

/-- A call of `toggle` that waits for its write. -/
structure ToggleCall where
  id : ℕ
  itemKey : String
  label : String
  /-- The id of `existing`. -/
  existing : Option ℕ
  /-- Whether the item was pinned on the server when the call started.  The program does not know
  it. -/
  wasPinned : Bool
  /-- Whether the write succeeded, once the server has handled it. -/
  result : Option Bool
  deriving DecidableEq

/-- The write that a call sends. -/
def ToggleCall.request (itemType : String) (c : ToggleCall) : WriteRequest :=
  match c.existing with
  | some id => .deleteWatchlistItem id
  | none => .createWatchlistItem ⟨itemType, c.itemKey, c.label⟩

/-- What the buttons of a render know. -/
structure Rendered where
  pending : Finset String
  data : Option (List WatchlistItemRow)

/-- The hook in a page, what it waits for, and the server. -/
structure UseWatchlist where
  watchlist : UsePolled (List WatchlistItemRow)
  pending : Finset String
  rendered : Rendered
  calls : List ToggleCall
  nextCall : ℕ
  /-- The lists that are on their way to the reads of `watchlist`. -/
  answers : List (ℕ × List WatchlistItemRow)
  server : Store

inductive WatchlistEvent where
  /-- A click on the pin of an item. -/
  | click (itemKey label : String)
  /-- The page is rendered with the state of the hook. -/
  | render
  | effects
  | tick
  | unmount
  /-- The server handles a read. -/
  | read (id : ℕ) (env : RequestEnv)
  /-- The list of a read arrives. -/
  | received (id : ℕ)
  /-- A read fails. -/
  | readFailed (id : ℕ) (message : String)
  /-- The server handles the write of a call. -/
  | write (id : ℕ) (env : RequestEnv) (headers : HeaderMap)
  /-- A call returns from its `await`.  A write that fails on the way to the server is not handled
  later. -/
  | returned (id : ℕ) (delivered : Bool)

namespace UseWatchlist

variable (srv : ApiServer) (itemType : String) (s : UseWatchlist)

/-- The first render. -/
def mount (server : Store) : UseWatchlist where
  watchlist := .mount
  pending := ∅
  rendered := ⟨∅, none⟩
  calls := []
  nextCall := 0
  answers := []
  server := server

/-- `items` of the render. -/
def items : List WatchlistItemRow :=
  (s.rendered.data.getD []).filter fun w => w.itemType = itemType

/-- `items.find((w) => w.item_key === itemKey)`. -/
def existing (itemKey : String) : Option WatchlistItemRow :=
  (s.items itemType).find? fun w => w.itemKey = itemKey

/-- The item on the server. -/
def serverItem (itemKey : String) : Option WatchlistItemRow :=
  s.server.watchlistItems.find? fun w => w.itemType = itemType && w.itemKey = itemKey

/-- A call under way. -/
def call (id : ℕ) : Option ToggleCall := s.calls.find? fun c => c.id = id

/-- The item is pinned on the server. -/
def pinned (itemKey : String) : Bool := (s.serverItem itemType itemKey).isSome

/-- The page is there, and its render shows no call for the item. -/
def Accepts (itemKey : String) : Prop :=
  s.watchlist.mounted = true ∧ itemKey ∉ s.rendered.pending

instance (itemKey : String) : Decidable (s.Accepts itemKey) :=
  inferInstanceAs (Decidable (_ ∧ _))

/-- `toggle`, up to the `await`.  The update of `pending` is rendered with the click. -/
def toggle (itemKey label : String) : UseWatchlist :=
  let c : ToggleCall :=
    { id := s.nextCall
      itemKey := itemKey
      label := label
      existing := (s.existing itemType itemKey).map (·.id)
      wasPinned := s.pinned itemType itemKey
      result := none }
  { s with
    pending := insert itemKey s.pending
    rendered := { s.rendered with pending := insert itemKey s.rendered.pending }
    calls := s.calls ++ [c]
    nextCall := s.nextCall + 1 }

/-- The answer is a success. -/
def succeeded : Outcome Error Response → Bool
  | .ret resp => 200 ≤ resp.status && resp.status < 300
  | _ => false

/-- What the server makes of the write of a call. -/
def handled (c : ToggleCall) (env : RequestEnv) (headers : HeaderMap) :
    Outcome Error Response × Store :=
  (c.request itemType).handle srv.state env headers s.server

/-- The list in an answer, if there is one. -/
def listOf : Outcome Error Response → Option (List WatchlistItemRow)
  | .ret ⟨200, .watchlistItems rows⟩ => some rows
  | _ => none

/-- What happens at an event. -/
def step : WatchlistEvent → UseWatchlist
  | .click itemKey label => if s.Accepts itemKey then s.toggle itemType itemKey label else s
  | .render =>
    if s.watchlist.mounted then { s with rendered := ⟨s.pending, s.watchlist.state.data⟩ } else s
  | .effects => { s with watchlist := s.watchlist.step .effects }
  | .tick => { s with watchlist := s.watchlist.step .tick }
  | .unmount => { s with watchlist := s.watchlist.step .unmount }
  | .read id env =>
    -- a read is under way from its call until it is settled
    match s.watchlist.request id, listOf (ReadRequest.handle srv env .listWatchlist s.server).1 with
    | some _, some rows => { s with answers := s.answers ++ [(id, rows)] }
    | _, _ => s
  | .received id =>
    match s.answers.find? fun a => a.1 = id with
    | some a => { s with watchlist := s.watchlist.step (.settled id (.ok a.2)) }
    | none => s
  | .readFailed id message =>
    { s with watchlist := s.watchlist.step (.settled id (.error message)) }
  | .write id env headers =>
    match s.call id with
    | some c =>
      if c.result = none then
        let (o, server) := s.handled srv itemType c env headers
        { s with
          server := server
          calls := s.calls.map fun d =>
            if d.id = id then { d with result := some (succeeded o) } else d }
      else s
    | none => s
  | .returned id delivered =>
    match s.call id with
    | some c =>
      let watchlist :=
        if delivered ∧ c.result = some true then s.watchlist.step .refetch else s.watchlist
      { s with
        watchlist := watchlist
        pending := s.pending.erase c.itemKey
        calls := s.calls.filter fun d => d.id ≠ id }
    | none => s

end UseWatchlist

end Lumina
