import FederatedQuery.Compile.Basic
import FederatedQuery.Execution.Error
import FederatedQuery.Time.Reader
import FederatedQuery.Value.Cell

/-!
# Rows of native answers

The items of a native answer hold records, in a way that depends on the kind of query.
Of a record only the key of its group and the native columns are taken; what is missing
is null. The key of a bucket is the bucket itself, which starts at the time that the
answer gives. Totals have a row even when there are no rows to total.

A page of selected rows holds whole rows, together with the identifiers from which the
next page is found.

## Main definitions

* `Compiled.rows`: the rows in the answer to a query for aggregates.
* `Page`, `Page.ofItems`: a page of selected rows.
-/

namespace FederatedQuery

/-- The time that an answer gives. -/
def answerTime? (j : Option Json) : Option Instant := (j.bind Json.text?).bind Instant.readStrict?

/-- The cell of a record called `name`. -/
def recordCell (record : Json.Fields) (name : String) : Value :=
  match record.lookup name with
  | some cell => .ofCell cell
  | none => .null

namespace Compiled

/-- The row in a record: the key of the group and the native columns. -/
def row (c : Compiled) (record : Json.Fields) : Row :=
  let keyed : Row :=
    match c.grouping with
    | some g => Row.put [] g.name (recordCell record g.name)
    | none => []
  c.columns.foldl (fun row column => Row.put row column (recordCell record column)) keyed

/-- The row in an item that is a step of a series. -/
def seriesRow (c : Compiled) (entry : Json) : Except ExecutionError Row :=
  match (entry.get? "result").bind Json.fields? with
  | none => .error (.invalidAnswer (.seriesWithoutResult entry))
  | some record =>
    match c.grouping with
    | some (.bucket name period _) =>
      match answerTime? (entry.get? "timestamp") with
      | some start => .ok (Row.put (c.row record) name (.timeRange (period.bucketAt start)))
      | none => .error (.invalidAnswer (.seriesWithoutTimestamp entry))
    | _ => .ok (c.row record)

/-- The rows in an item that lists records. -/
def topRows (c : Compiled) (entry : Json) : Except ExecutionError (List Row) :=
  match (entry.get? "result").bind Json.items? with
  | none => .error (.invalidAnswer (.topWithoutResult entry))
  | some records =>
    records.mapM fun record =>
      match record.fields? with
      | some fields => .ok (c.row fields)
      | none => .error (.invalidAnswer (.topRecord record))

/-- The row in an item that is one group. -/
def groupRow (c : Compiled) (entry : Json) : Except ExecutionError Row :=
  match (entry.get? "event").bind Json.fields? with
  | some record => .ok (c.row record)
  | none => .error (.invalidAnswer (.groupWithoutEvent entry))

/-- The rows in the answer to a query for aggregates. -/
def rows (c : Compiled) (items : List Json) : Except ExecutionError (List Row) :=
  match c.query.shape with
  | .select .. => .ok []
  | .totals _ | .timeseries .. => do
    let rows ← items.mapM c.seriesRow
    .ok (if rows.isEmpty && c.grouping.isNone then [c.row []] else rows)
  | .topN .. => (items.mapM c.topRows).map List.flatten
  | .groupBy .. => items.mapM c.groupRow

end Compiled

/-! ### Selected rows -/

/-- A page of selected rows. -/
structure Page where
  /-- The paging identifiers that came with the page. -/
  identifiers : Json.Fields
  rows : List Row

namespace Page

/-- The row in an event. The time of the event is the time attribute, or null if it cannot
be read. -/
def rowOf (timeAttribute : String) (event : Json) : Except ExecutionError Row :=
  match (event.get? "event").bind Json.fields? with
  | none => .error (.invalidAnswer (.selectionEvent event))
  | some record =>
    .ok (record.foldl (fun row (column, cell) =>
      if column = "timestamp" then
        Row.put row timeAttribute
          (match answerTime? (some cell) with
            | some time => .time time
            | none => .null)
      else Row.put row column (.ofCell cell)) [])

/-- The page with what one more item brings. -/
def addItem (timeAttribute : String) (page : Page) (entry : Json) :
    Except ExecutionError Page :=
  match entry.get? "result" with
  | none => .error (.invalidAnswer (.selectionWithoutResult entry))
  | some result => do
    let returned := ((result.get? "pagingIdentifiers").bind Json.fields?).getD []
    let events := ((result.get? "events").bind Json.items?).getD []
    let rows ← events.mapM (rowOf timeAttribute)
    .ok ⟨Json.Fields.putAll page.identifiers returned, page.rows ++ rows⟩

/-- The page that the items of an answer make up. -/
def ofItems (timeAttribute : String) (items : List Json) : Except ExecutionError Page :=
  items.foldlM (addItem timeAttribute) ⟨[], []⟩

end Page

end FederatedQuery
