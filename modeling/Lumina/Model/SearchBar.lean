import Mathlib.Algebra.GroupWithZero.Nat
import Mathlib.Data.List.DropRight

/-!
# The search bar

`SearchBar` of the web pages: the text of the box, a timer that a change of the trimmed text sets
again, the requests under way, whose responses arrive in any order, and the hits that are shown.
React runs the effects of typing, clicks and keys before the next event, so the timer is that of
the text in the box.

## Main definitions

* `jsTrim`, `utf16Length` : `trim` and `length` of JavaScript.
* `SearchBar` : the component, `SearchBar.step` : what happens at an event.
* `SearchBar.opens` : the hit that an event opens.
-/

namespace Lumina

/-- The white space and line ends that `String.prototype.trim` removes. -/
def isJsWhitespace (c : Char) : Bool :=
  (9 ≤ c.val && c.val ≤ 13) || c.val = 0x20 || c.val = 0xA0 || c.val = 0x1680 ||
    (0x2000 ≤ c.val && c.val ≤ 0x200A) || c.val = 0x2028 || c.val = 0x2029 || c.val = 0x202F ||
    c.val = 0x205F || c.val = 0x3000 || c.val = 0xFEFF

/-- `trim`. -/
def jsTrim (s : String) : String :=
  String.ofList ((s.toList.dropWhile isJsWhitespace).rdropWhile isJsWhitespace)

/-- `length`, in code units. -/
def utf16Length (s : String) : ℕ := (s.toList.map fun c => if c.val < 0x10000 then 1 else 2).sum

/-- The texts that are searched for. -/
def isSearchable (trimmed : String) : Bool := 2 ≤ utf16Length trimmed

/-- A call of `api.search`. -/
structure SearchRequest where
  id : ℕ
  query : String
  deriving DecidableEq

/-- The component. -/
structure SearchBar (Hit : Type) where
  query : String
  results : List Hit
  isOpen : Bool
  activeIndex : ℤ
  loading : Bool
  /-- The timer that is set, with the text it will search for. -/
  timer : Option String
  /-- The requests so far. -/
  requests : ℕ
  inFlight : List SearchRequest
  /-- The text that `results` is the answer to, where it is an answer. -/
  answered : Option String
  deriving DecidableEq

inductive SearchKey where
  | arrowDown
  | arrowUp
  | enter
  | escape
  deriving DecidableEq

inductive SearchEvent (Hit : Type) where
  /-- The text is edited. -/
  | change (value : String)
  | focus
  | clickOutside
  /-- The timer fires. -/
  | debounce
  /-- The promise of a request is settled. -/
  | settled (id : ℕ) (result : Except Unit (List Hit))
  | keyDown (key : SearchKey)
  /-- The pointer enters the hit with that index, or clicks on it. -/
  | mouseEnter (i : ℕ)
  | click (i : ℕ)
  deriving DecidableEq

namespace SearchBar

variable {Hit : Type}

/-- The first render. -/
def mount : SearchBar Hit where
  query := ""
  results := []
  isOpen := false
  activeIndex := -1
  loading := false
  timer := none
  requests := 0
  inFlight := []
  answered := none

def trimmed (s : SearchBar Hit) : String := jsTrim s.query

def searchable (s : SearchBar Hit) : Bool := isSearchable s.trimmed

def displayResults (s : SearchBar Hit) : List Hit := if s.searchable then s.results else []

def displayLoading (s : SearchBar Hit) : Bool := s.searchable && s.loading

def showDropdown (s : SearchBar Hit) : Bool := s.isOpen && s.searchable

/-- `setQuery`, with the effect of the render after it where the trimmed text is another one. -/
def setQuery (value : String) (s : SearchBar Hit) : SearchBar Hit :=
  { s with
    query := value
    timer :=
      if jsTrim value = s.trimmed then s.timer
      else if isSearchable (jsTrim value) then some (jsTrim value) else none }

/-- `go`, but for the page it navigates to. -/
def go (s : SearchBar Hit) : SearchBar Hit :=
  { s.setQuery "" with results := [], isOpen := false, answered := none }

/-- The request under way with a number. -/
def request (s : SearchBar Hit) (id : ℕ) : Option SearchRequest := s.inFlight.find? (·.id = id)

/-- `then`, `catch` and `finally` of a request. -/
def settle (q : SearchRequest) (result : Except Unit (List Hit)) (s : SearchBar Hit) :
    SearchBar Hit :=
  match result with
  | .ok rows =>
    { s with results := rows, activeIndex := -1, loading := false, answered := some q.query }
  | .error _ => { s with results := [], loading := false, answered := none }

/-- `displayResults[activeIndex] ?? displayResults[0]`. -/
def target (s : SearchBar Hit) : Option Hit :=
  (if s.activeIndex < 0 then none else s.displayResults[s.activeIndex.toNat]?).orElse
    fun _ => s.displayResults.head?

/-- The hit that an event opens. -/
def opens (s : SearchBar Hit) : SearchEvent Hit → Option Hit
  | .keyDown .enter => if !s.isOpen || s.displayResults.isEmpty then none else s.target
  | .click i => if s.showDropdown && !s.displayLoading then s.displayResults[i]? else none
  | _ => none

/-- `onKeyDown`. -/
def onKeyDown (key : SearchKey) (s : SearchBar Hit) : SearchBar Hit :=
  if !s.isOpen || s.displayResults.isEmpty then s
  else
    match key with
    | .arrowDown =>
      { s with activeIndex := (s.activeIndex + 1).tmod s.displayResults.length }
    | .arrowUp =>
      { s with
        activeIndex :=
          if s.activeIndex ≤ 0 then s.displayResults.length - 1 else s.activeIndex - 1 }
    | .enter => if s.target.isSome then s.go else s
    | .escape => { s with isOpen := false }

/-- What happens at an event. -/
def step (s : SearchBar Hit) : SearchEvent Hit → SearchBar Hit
  | .change value => { s.setQuery value with isOpen := true }
  | .focus => { s with isOpen := true }
  | .clickOutside => { s with isOpen := false }
  | .debounce =>
    match s.timer with
    | some query =>
      { s with
        loading := true
        timer := none
        requests := s.requests + 1
        inFlight := s.inFlight ++ [⟨s.requests, query⟩] }
    | none => s
  | .settled id result =>
    match s.request id with
    | some q => settle q result { s with inFlight := s.inFlight.erase q }
    | none => s
  | .keyDown key => s.onKeyDown key
  | .mouseEnter i =>
    if s.showDropdown && !s.displayLoading && i < s.displayResults.length then
      { s with activeIndex := i }
    else s
  | .click i => if (s.opens (.click i)).isSome then s.go else s

end SearchBar

end Lumina
