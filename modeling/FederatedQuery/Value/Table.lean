import FederatedQuery.Value.Plain
import FederatedQuery.Value.Text
import FederatedQuery.Json.Printer

/-!
# Datasets as comma-separated text

A dataset is written as a header and a line for every row. The columns are the names that
hold something other than a dataset in some row, in ascending order. A field is quoted
when it holds a quote, a comma or a line break, and a record that would be an empty line
is written as a pair of quotes.

## Main definitions

* `Table.field`, `Table.record`: one field and one line.
* `Dataset.columns`: the columns.
* `Dataset.toTable`: the text of a dataset.
-/

namespace FederatedQuery

namespace Table

/-- Whether a field has to be quoted. -/
def needsQuotes (s : String) : Bool :=
  s.toList.any fun c => c = '"' || c = ',' || c = '\n' || c = '\r'

/-- A field of a record. -/
def field (s : String) : String :=
  if needsQuotes s then
    String.ofList ('"' :: s.toList.flatMap (fun c => if c = '"' then ['"', '"'] else [c]) ++ ['"'])
  else s

/-- A record with its line end. -/
def record (fields : List String) : String :=
  let line := String.intercalate "," (fields.map field)
  (if line.isEmpty then "\"\"" else line) ++ "\n"

/-- The text of a cell: nothing for null, the string or number itself, and otherwise the
compact plain form, without quotes if that is a text. -/
def cell : Option Value → String
  | none => ""
  | some .null => ""
  | some (.string s) => s
  | some (.number x) => Value.numberText x
  | some value =>
    match value.plain with
    | .string s => s
    | other => other.compress

end Table

namespace Dataset

/-- Puts a name into a list of names in ascending order, once. -/
def insertName (name : String) : List String → List String
  | [] => [name]
  | n :: rest =>
    if name = n then n :: rest
    else if name < n then name :: n :: rest
    else n :: insertName name rest

/-- The names that hold something other than a dataset in some row. -/
def columns (rows : Dataset) : List String :=
  rows.foldl (fun names row =>
    row.foldl (fun names cell =>
      if cell.2.isDataset then names else insertName cell.1 names) names) []

/-- The dataset as comma-separated text. -/
def toTable (rows : Dataset) : String :=
  let names := columns rows
  String.join (Table.record names ::
    rows.map fun row => Table.record (names.map fun name => Table.cell (Row.get? row name)))

end Dataset

end FederatedQuery
