import Lumina.Csv.Dialect
import Lumina.Model.Csv

/-!
# Reading an export

An export is the table of its header and its rows, written with the quotes of `csvDialect`.  A
reader gives the table back exactly if no record but the last has a last cell that ends in a
carriage return and stands without quotes (`csv_roundTrip_iff`): `csvCell` quotes line feeds, and
not carriage returns.

## Main definitions

* `csvDialect` : quotes, commas, carriage returns and line feeds.
* `csvTable` : the header and the rows as the strings of their cells.
-/

namespace Lumina

/-- The characters of the export. -/
def csvDialect : Csv.Dialect UInt16 := ⟨34, 44, 13, 10, by decide⟩

variable {κ : Type} {numberText : F64 → JsString} {string : κ → JsString}
  {rows : List (κ → JsValue)} {columns : List κ} {v : JsValue}

/-- The header and the rows. -/
def csvTable (numberText : F64 → JsString) (string : κ → JsString) (rows : List (κ → JsValue))
    (columns : List κ) : List (List JsString) :=
  columns.map string :: rows.map fun row => columns.map fun c => csvText numberText (row c)

/-- A cell is written as the dialect writes its string. -/
theorem csvCell_eq : csvCell numberText v = csvDialect.cell (csvText numberText v) := by
  have hquotes : ∀ s : JsString,
      (s.any fun c => decide (c ∈ units "\",\n")) = true ↔ csvDialect.NeedsQuotes s := by
    intro s
    have hspecial : ∀ c : UInt16, c ∈ units "\",\n" ↔ c = 34 ∨ c = 44 ∨ c = 10 := by
      intro c
      show c ∈ [34, 44, 10] ↔ _
      simp
    simp only [List.any_eq_true, decide_eq_true_eq, hspecial, Csv.Dialect.NeedsQuotes, csvDialect]
    grind
  have hquote : ∀ c : UInt16, c ∈ units "\"" ↔ c = 34 := by
    intro c
    show c ∈ [34] ↔ _
    simp
  unfold csvCell Csv.Dialect.cell
  simp only [hquotes, hquote]
  rfl

/-- An export is the text of its table. -/
theorem toCsv_eq : toCsv numberText string rows columns =
    csvDialect.write (csvTable numberText string rows columns) := by
  have hheader : ∀ c, csvCell numberText (.string (string c)) = csvDialect.cell (string c) :=
    fun c => csvCell_eq
  unfold toCsv Csv.Dialect.write csvTable Csv.Dialect.writeRecord
  simp only [hheader, csvCell_eq, List.map_cons, List.map_map, Function.comp_def]
  rfl

/-- **An export is read back** exactly if no record but the last ends in a carriage return that
stands without quotes. -/
theorem csv_roundTrip_iff (hcolumns : 2 ≤ columns.length) :
    csvDialect.read (toCsv numberText string rows columns) =
        some (csvTable numberText string rows columns) ↔
      ∀ record ∈ (csvTable numberText string rows columns).dropLast,
        ∀ s ∈ record.getLast?, ¬ csvDialect.EndsInCr s := by
  have hlength : ∀ record ∈ csvTable numberText string rows columns, 2 ≤ record.length := by
    intro record hrecord
    rcases List.mem_cons.1 hrecord with rfl | hrecord
    · simpa using hcolumns
    · obtain ⟨row, -, rfl⟩ := List.mem_map.1 hrecord
      simpa using hcolumns
  rw [toCsv_eq, Csv.Dialect.read_write hlength, Option.some.injEq, Csv.Dialect.shown_eq_iff]

namespace Sample

/-- The name of a row and its note. -/
def noted (name note : String) : Bool → JsValue
  | false => .string (units name)
  | true => .string (units note)

def notedColumn (c : Bool) : JsString := if c then units "note" else units "name"

/-- The carriage return at the end of the first note is lost. -/
theorem note_lost :
    csvDialect.read (toCsv (fun _ => []) notedColumn [noted "A" "x\r", noted "B" "y"]
      [false, true]) =
    some [[units "name", units "note"], [units "A", units "x"], [units "B", units "y"]] := by
  decide +kernel

/-- **An export is not read back.** -/
theorem note_not_roundTrip : ¬ ∀ (κ : Type) (numberText : F64 → JsString) (string : κ → JsString)
    (rows : List (κ → JsValue)) (columns : List κ), 2 ≤ columns.length →
      csvDialect.read (toCsv numberText string rows columns) =
        some (csvTable numberText string rows columns) := by
  intro hall
  have h := hall Bool (fun _ => []) notedColumn [noted "A" "x\r", noted "B" "y"] [false, true]
    (by decide)
  rw [note_lost] at h
  exact absurd h (by decide +kernel)

/-- Within quotes a carriage return is kept, and so it is in the last record. -/
theorem note_kept :
    csvDialect.read (toCsv (fun _ => []) notedColumn [noted "A" "x,\r", noted "B\r" "y\r"]
      [false, true]) =
    some (csvTable (fun _ => []) notedColumn [noted "A" "x,\r", noted "B\r" "y\r"]
      [false, true]) :=
  (csv_roundTrip_iff (by decide)).2 (by decide +kernel)

end Sample

end Lumina
