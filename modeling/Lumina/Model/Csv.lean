import Lumina.Model.Js

/-!
# The export of a table

`csv.ts` writes the rows of a page as comma-separated values.

## Main definitions

* `csvCell`, `toCsv` : the text of a cell, and of a table.
-/

namespace Lumina

section Export

variable (numberText : F64 → JsString)

/-- The string of a cell. -/
def csvText (value : JsValue) : JsString :=
  if value = .null ∨ value = .undefined then [] else value.text numberText

/-- The text of a cell: one with a quote, a comma or a line feed is quoted. -/
def csvCell (value : JsValue) : JsString :=
  let s := csvText numberText value
  if s.any fun c => c ∈ units "\",\n" then
    units "\"" ++ s.flatMap (fun c => if c ∈ units "\"" then units "\"\"" else [c]) ++ units "\""
  else s

/-- The text of a table with a header.  A row is a function of its keys, and `String` gives the
name of a key. -/
def toCsv {κ : Type} (string : κ → JsString) (rows : List (κ → JsValue)) (columns : List κ) :
    JsString :=
  let header := List.intercalate (units ",")
    (columns.map fun c => csvCell numberText (.string (string c)))
  let body := rows.map fun row =>
    List.intercalate (units ",") (columns.map fun c => csvCell numberText (row c))
  List.intercalate (units "\n") (header :: body)

end Export

end Lumina
