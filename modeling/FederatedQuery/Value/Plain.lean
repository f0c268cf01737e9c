import FederatedQuery.Value.Codec

/-!
# Plain results

Values as the readers of results want them, without the names of their kinds: a number
is a JSON number, an instant is a text with milliseconds, a dataset is an array of
objects.

## Main definitions

* `Value.plain`: the plain form of a value.
* `Dataset.plain`: the plain form of a dataset.
-/

namespace FederatedQuery

namespace Value

mutual

/-- The plain form of a value. -/
def plain : Value → Json
  | .null => .null
  | .boolean b => .bool b
  | .number x => .ofDouble x
  | .string s => .string s
  | .time t => .string t.millis
  | .timeRange r => .object [("start", .string r.start.millis), ("end", .string r.stop.millis)]
  | .numberRange r => r.toJson
  | .stringSet items => .array (items.map .string)
  | .dataset rows => .array (plainRows rows)

/-- The plain forms of rows. -/
def plainRows : List (List (String × Value)) → List Json
  | [] => []
  | row :: rest => .object (plainCells row) :: plainRows rest

/-- The plain forms of cells. -/
def plainCells : List (String × Value) → Json.Fields
  | [] => []
  | (name, value) :: rest => (name, plain value) :: plainCells rest

end

end Value

/-- The plain form of a dataset. -/
def Dataset.plain (rows : Dataset) : Json := .array (Value.plainRows rows)

end FederatedQuery
