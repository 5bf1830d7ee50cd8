import Lumina.Model.Routes

/-!
# The alerts page

The page lists the last alerts, narrows them down by itself, and sends the acknowledgements of one
alert or of all that it shows.

## Main definitions

* `AlertsPage` : the list that the page has, and what it is narrowed down to.
* `AlertsPage.filtered`, `AlertsPage.unackedVisible` : the rows that are shown, and those of them
  that are not acknowledged.
* `AlertsPage.acknowledgeAllVisible`, `AlertsPage.toggle` : the requests of its buttons.
-/

namespace Lumina

/-- The page with the data of its last poll. -/
structure AlertsPage where
  data : Option (List AlertRow)
  severity : String
  kind : String
  unackedOnly : Bool

namespace AlertsPage

/-- `api.alerts(200)`, which the page polls. -/
def read : ReadRequest := .alerts ⟨some 200, none, none, none, none, false⟩

variable (page : AlertsPage)

/-- `filtered`. -/
def filtered : List AlertRow :=
  let rows := page.data.getD []
  let rows :=
    if page.severity ≠ "ALL" then rows.filter fun a => a.severity = page.severity else rows
  let rows := if page.kind ≠ "ALL" then rows.filter fun a => a.kind = page.kind else rows
  if page.unackedOnly then rows.filter fun a => a.acknowledgedAt = none else rows

/-- `unackedVisible`. -/
def unackedVisible : List ℤ :=
  (page.filtered.filter fun a => a.acknowledgedAt = none).map fun a => (a.id : ℤ)

/-- `acknowledgeAllVisible`, up to the `await`. -/
def acknowledgeAllVisible : Option WriteRequest :=
  if page.unackedVisible.length = 0 then none
  else some (.acknowledgeAlertsBulk page.unackedVisible)

/-- The button of a row: `acknowledge` or `unacknowledge`. -/
def toggle (a : AlertRow) : WriteRequest :=
  match a.acknowledgedAt with
  | some _ => .unacknowledgeAlert a.id
  | none => .acknowledgeAlert a.id

end AlertsPage

end Lumina
