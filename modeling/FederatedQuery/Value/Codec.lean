import FederatedQuery.Value.Basic
import FederatedQuery.Json.Record
import FederatedQuery.Time.Reader

/-!
# The canonical form of values

In documents a value is a record of its kind and its content, `{"type": …, "value": …}`.
The null value has no content. Instants are texts, ranges are records of their ends, and
a dataset is a record with the list of its rows.

## Main definitions

* `Value.toJson`: writes the canonical form.
* `Value.ofJson?`: reads it.
* `Row.toJson`, `Row.ofJson?`: the same for rows.
-/

namespace FederatedQuery

/-! ### Ranges and instants -/

/-- An instant as a text. -/
def Instant.toJson (t : Instant) : Json := .string t.canonical

/-- The instant that a text gives. -/
def Instant.ofJson? (j : Json) : Option Instant := j.text?.bind Instant.read?

/-- A range of time as a record of its ends. -/
def TimeRange.toJson (r : TimeRange) : Json :=
  .object [("start", r.start.toJson), ("end", r.stop.toJson)]

/-- Reads a range of time. -/
def TimeRange.ofJson? (j : Json) : Option TimeRange := do
  let r ← j.record? ["start", "end"]
  let start ← r.required "start" fun part => Instant.ofJson? part.val
  let stop ← r.required "end" fun part => Instant.ofJson? part.val
  some ⟨start, stop⟩

/-- An end of a range of numbers. -/
def NumberRange.boundToJson : Option Float → Json
  | some x => .ofDouble x
  | none => .null

/-- A range of numbers as a record of its ends. -/
def NumberRange.toJson (r : NumberRange) : Json :=
  .object [("start", boundToJson r.start), ("end", boundToJson r.stop)]

/-- Reads a range of numbers. -/
def NumberRange.ofJson? (j : Json) : Option NumberRange := do
  let r ← j.record? ["start", "end"]
  let start ← r.optional "start" fun part => part.val.double?
  let stop ← r.optional "end" fun part => part.val.double?
  some ⟨start, stop⟩

/-! ### Values -/

namespace Value

/-- The record of a kind and a content. -/
def tagged (kind : Kind) (content : Json) : Json :=
  .object [("type", .string kind.name), ("value", content)]

/-- The record that holds the rows of a dataset. -/
def dataRecord (rows : List Json) : Json := .object [("data", .array rows)]

mutual

/-- The canonical form of a value. -/
def toJson : Value → Json
  | .null => .object [("type", .string Kind.null.name)]
  | .boolean b => tagged .boolean (.bool b)
  | .number x => tagged .number (.ofDouble x)
  | .string s => tagged .string (.string s)
  | .time t => tagged .time t.toJson
  | .timeRange r => tagged .timeRange r.toJson
  | .numberRange r => tagged .numberRange r.toJson
  | .stringSet items => tagged .stringSet (.array (items.map .string))
  | .dataset rows => tagged .dataset (dataRecord (rowsToJson rows))

/-- The canonical form of each row. -/
def rowsToJson : List (List (String × Value)) → List Json
  | [] => []
  | row :: rest => .object (cellsToJson row) :: rowsToJson rest

/-- The canonical form of each cell. -/
def cellsToJson : List (String × Value) → Json.Fields
  | [] => []
  | (name, value) :: rest => (name, toJson value) :: cellsToJson rest

end

/-- Reads the content of a value that is not a dataset. -/
def scalar? (kind : Kind) (content : Json) : Option Value :=
  match kind with
  | .boolean => content.bool?.map .boolean
  | .number => content.double?.map .number
  | .string => content.text?.map .string
  | .time => (Instant.ofJson? content).map .time
  | .timeRange => (TimeRange.ofJson? content).map .timeRange
  | .numberRange => (NumberRange.ofJson? content).map .numberRange
  | .stringSet => (content.readItems? fun part => part.val.text?).map .stringSet
  | .null | .dataset => none

/-- Reads the kind of a value: in an object it is a choice, and at the front of an array it
is a tag. -/
def kind? (nested named : Bool) (j : Json) : Option Kind :=
  if named then (j.choice? nested).bind Kind.ofName? else j.tagged? nested Kind.ofName? Kind.all

/-- Reads a value; `nested` tells whether it stands inside a tagged record. The content that
an object gives before the kind is read as if it stood inside one. -/
def ofJson? (nested : Bool) (j : Json) : Option Value := do
  let r ← j.record? ["type", "value"]
  let kind ← r.required "type" fun part => kind? nested r.named part.val
  match kind with
  | .null =>
    match r.get? "value" with
    | none => if r.named then some .null else none
    | some part => if part.val.isNull then some .null else none
  | .dataset =>
    let nested := nested || r.isBefore "value" "type"
    r.required "value" fun content => do
      let d ← content.val.record? ["data"]
      d.required "data" fun rows => do
        let rows ← rows.val.readItems? fun row =>
          (row.val.readFields? fun cell => ofJson? nested cell.val).map Row.ofCells
        some (.dataset rows)
  | kind => r.required "value" fun content => scalar? kind content.val
termination_by sizeOf j
decreasing_by
  have := content.property
  have := rows.property
  have := row.property
  have := cell.property
  omega

end Value

/-- The canonical form of a row. -/
def Row.toJson (row : Row) : Json := .object (Value.cellsToJson row)

/-- Reads a row that stands by itself. -/
def Row.ofJson? (j : Json) : Option Row :=
  (j.readFields? fun cell => Value.ofJson? false cell.val).map Row.ofCells

/-- The canonical form of a dataset. -/
def Dataset.toJson (rows : Dataset) : Json := Value.dataRecord (Value.rowsToJson rows)

end FederatedQuery
