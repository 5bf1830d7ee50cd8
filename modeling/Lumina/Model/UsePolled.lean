import Mathlib.Data.List.Basic

/-!
# The polling hook

`usePolled` of the web pages: a component calls it at every render with its dependencies.  React
runs the effect of a render after the render, the cleanup of the effect before it first; the
effect starts a request and a timer for the next ones, and `refetch` starts one more.  The
responses arrive in any order.

## Main definitions

* `AsyncState` : what the hook returns to the page.
* `PollRequest` : a call of `fn`, in the order of the calls.
* `UsePolled` : the hook, with the requests it has started and what it has stored.
* `UsePolled.step` : what happens at an event.
-/

namespace Lumina

structure AsyncState (T : Type) where
  data : Option T
  error : Option String
  loading : Bool
  deriving DecidableEq

/-- A call of `fn`: the effect that made it, and the dependencies of the `fn` it called, as the
number of their changes. -/
structure PollRequest where
  id : ℕ
  effect : ℕ
  deps : ℕ
  deriving DecidableEq

/-- A response in `data`, with the dependencies of the time. -/
structure Stored (T : Type) where
  request : PollRequest
  deps : ℕ
  value : T
  deriving DecidableEq

/-- The hook. -/
structure UsePolled (T : Type) where
  state : AsyncState T
  mounted : Bool
  /-- The dependencies of `fnRef.current`, as the number of their changes. -/
  deps : ℕ
  /-- The effect of the last render has not yet run. -/
  due : Bool
  /-- The effects that have run. -/
  effects : ℕ
  /-- The flag of each effect. -/
  cancelled : ℕ → Bool
  /-- The effect behind `runRef.current`. -/
  runRef : Option ℕ
  /-- The effect whose interval is set. -/
  interval : Option ℕ
  /-- The requests so far. -/
  requests : ℕ
  inFlight : List PollRequest
  /-- The requests whose data has arrived, in the order of arrival. -/
  received : List PollRequest
  /-- What has been stored in `data`, in the order of storing. -/
  stored : List (Stored T)

inductive PollEvent (T : Type) where
  /-- A render with other dependencies. -/
  | depsChange
  /-- React runs the effect of the last render. -/
  | effects
  /-- The interval fires. -/
  | tick
  | refetch
  /-- The promise of a request is settled. -/
  | settled (id : ℕ) (result : Except String T)
  | unmount

namespace UsePolled

variable {T : Type}

/-- The first render. -/
def mount : UsePolled T where
  state := ⟨none, none, true⟩
  mounted := true
  deps := 0
  due := true
  effects := 0
  cancelled := fun _ => false
  runRef := none
  interval := none
  requests := 0
  inFlight := []
  received := []
  stored := []

/-- `run` of an effect, up to the call of `fn`. -/
def run (effect : ℕ) (isFirst : Bool) (s : UsePolled T) : UsePolled T :=
  { s with
    state := if isFirst then { s.state with loading := true } else s.state
    requests := s.requests + 1
    inFlight := s.inFlight ++ [⟨s.requests, effect, s.deps⟩] }

/-- The cleanup of the last effect. -/
def cleanup (s : UsePolled T) : UsePolled T :=
  { s with
    cancelled := fun effect => if effect + 1 = s.effects then true else s.cancelled effect
    interval := none }

/-- The effect of a render. -/
def effect (s : UsePolled T) : UsePolled T :=
  { run s.effects true
      { s with due := false, effects := s.effects + 1, runRef := some s.effects } with
    interval := some s.effects }

/-- The effect that is due, after the cleanup of the one before. -/
def flush (s : UsePolled T) : UsePolled T := if s.due then s.cleanup.effect else s

/-- The request under way with a number. -/
def request (s : UsePolled T) (id : ℕ) : Option PollRequest := s.inFlight.find? (·.id = id)

/-- The continuation of `await fnRef.current()`. -/
def settle (q : PollRequest) (result : Except String T) (s : UsePolled T) : UsePolled T :=
  match result with
  | .ok data =>
    let s := { s with received := s.received ++ [q] }
    if s.cancelled q.effect then s
    else
      { s with
        state := ⟨some data, none, false⟩
        stored := s.stored ++ [⟨q, s.deps, data⟩] }
  | .error message =>
    if s.cancelled q.effect then s
    else { s with state := { s.state with error := some message, loading := false } }

/-- What happens at an event. -/
def step (s : UsePolled T) : PollEvent T → UsePolled T
  | .depsChange =>
    -- React runs an effect that is due before it renders again
    if s.mounted then { s.flush with deps := s.deps + 1, due := true } else s
  | .effects => if s.mounted then s.flush else s
  | .tick =>
    match s.interval with
    | some effect => s.run effect false
    | none => s
  | .refetch =>
    match s.runRef with
    | some effect => if s.cancelled effect then s else s.run effect false
    | none => s
  | .settled id result =>
    match s.request id with
    | some q => settle q result { s with inFlight := s.inFlight.erase q }
    | none => s
  | .unmount => if s.mounted then { s.flush.cleanup with mounted := false } else s

end UsePolled

end Lumina
