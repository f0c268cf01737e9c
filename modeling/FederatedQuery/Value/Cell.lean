import FederatedQuery.Value.Basic
import FederatedQuery.Json.Printer

/-!
# Cells of native answers

A backend answers in JSON. Scalars become the value of their kind, with every number read
as a double; an array becomes a set of strings; an object is kept as its compact text.

## Main definitions

* `Value.ofCell`: the value of a native cell.
-/

namespace FederatedQuery.Value

/-- An item of a native array as a string. -/
def itemText : Json → String
  | .string s => s
  | other => other.compress

/-- The value of a native cell. -/
def ofCell : Json → Value
  | .null => .null
  | .bool b => .boolean b
  | .int n => .number (Float.ofInt n)
  | .float x => .number x
  | .string s => .string s
  | .array items => .stringSet (items.map itemText)
  | .object fields => .string (Json.object fields).compress

end FederatedQuery.Value
