import Lumina.Model.Js
import Mathlib.Order.Compare

/-!
# The sorted table

`useSortableRows` of the web pages: the rows in the order of one column, with a direction that a
second click on the column flips.

## Main definitions

* `SortState`, `SortState.toggleSort` : the column and the direction.
* `compareRows` : the comparator.
* `SortState.sorted` : the sorted rows.
-/

namespace Lumina

inductive SortDir where
  | asc
  | desc
  deriving DecidableEq

/-- What the language provides: the text of a number, the number for an exact value, and the sign of
`localeCompare`. -/
structure JsEnv where
  numberText : F64 → JsString
  round : ℚ → F64
  localeCompare : JsString → JsString → Ordering

/-- The column and the direction. -/
structure SortState (κ : Type) where
  sortKey : κ
  sortDir : SortDir
  deriving DecidableEq

namespace SortState

variable {κ : Type}

/-- The state of the first render. -/
def init (initialKey : κ) (initialDir : SortDir) : SortState κ := ⟨initialKey, initialDir⟩

/-- A click on the head of a column. -/
def toggleSort [DecidableEq κ] (st : SortState κ) (key : κ) : SortState κ :=
  if key = st.sortKey then
    { st with sortDir := if st.sortDir = .asc then .desc else .asc }
  else ⟨key, .desc⟩

end SortState

/-- The sign of `an - bn`.  The difference of two infinities of one sign is not a number, which the
sort takes for zero. -/
def signOfDifference : F64 → F64 → Ordering
  | .finite x, .finite y => compare x y
  | .finite _, .infinite negative => if negative then .gt else .lt
  | .infinite negative, .finite _ => if negative then .lt else .gt
  | .infinite negative, .infinite negative' =>
    if negative = negative' then .eq else if negative then .lt else .gt
  | _, _ => .eq

/-- `typeof value === "number" ? value : parseFloat(String(value))`. -/
def sortNumber (env : JsEnv) : JsValue → F64
  | .number x => x
  | value => parseFloat env.round (value.text env.numberText)

/-- `String(value ?? "")`. -/
def sortText (env : JsEnv) (value : JsValue) : JsString :=
  if value = .null ∨ value = .undefined then [] else value.text env.numberText

/-- The sign of `cmp`. -/
def compareValues (env : JsEnv) (av bv : JsValue) : Ordering :=
  let an := sortNumber env av
  let bn := sortNumber env bv
  if an ≠ .nan ∧ bn ≠ .nan then signOfDifference an bn
  else env.localeCompare (sortText env av) (sortText env bv)

section Rows

variable {κ : Type} (env : JsEnv) (st : SortState κ)

/-- The comparator of the sort. -/
def compareRows (a b : κ → JsValue) : Ordering :=
  let cmp := compareValues env (a st.sortKey) (b st.sortKey)
  if st.sortDir = .asc then cmp else cmp.swap

/-- The sorted rows; the sort is stable. -/
def SortState.sorted (rows : List (κ → JsValue)) : List (κ → JsValue) :=
  rows.mergeSort fun a b => compareRows env st a b ≠ .gt

end Rows

end Lumina
