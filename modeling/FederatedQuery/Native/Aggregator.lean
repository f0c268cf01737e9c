import FederatedQuery.Native.Filter

/-!
# Native aggregators

A native query computes numbers over the rows of a group. Each of them has a name, under
which the answer gives it, and may be restricted to the rows on which a filter holds.

## Main definitions

* `Native.Aggregation`: what is computed.
* `Native.Aggregator`: a computation with its name and its filter.
* `Aggregator.toJson`: the form in native documents.
-/

namespace FederatedQuery.Native

/-- What is computed over rows. -/
inductive Aggregation where
  /-- The number of rows. -/
  | count
  /-- The sum of a field of integers. -/
  | longSum (field : String)
  | doubleSum (field : String)
  | doubleMin (field : String)
  | doubleMax (field : String)
  /-- The number of distinct values recorded in the sketches of a field. -/
  | hyperUnique (field : String)
  /-- The number of distinct values of a field. -/
  | cardinality (field : String)
  deriving DecidableEq

namespace Aggregation

/-- The name of a computation. -/
def type : Aggregation → String
  | .count => "count"
  | .longSum _ => "longSum"
  | .doubleSum _ => "doubleSum"
  | .doubleMin _ => "doubleMin"
  | .doubleMax _ => "doubleMax"
  | .hyperUnique _ => "hyperUnique"
  | .cardinality _ => "cardinality"

/-- The fields of a document that say which field of the rows is read. -/
def fieldsToJson : Aggregation → Json.Fields
  | .count => []
  | .cardinality field => [("fieldNames", .array [.string field])]
  | .longSum field | .doubleSum field | .doubleMin field | .doubleMax field
  | .hyperUnique field => [("fieldName", .string field)]

end Aggregation

/-- A computation over the rows on which a filter holds. -/
structure Aggregator where
  name : String
  aggregation : Aggregation
  /-- The rows that count; all of them if there is no filter. -/
  filter : Option Filter

namespace Aggregator

/-- The form of a computation over all rows. -/
def baseToJson (a : Aggregator) : Json :=
  .object ([("type", .string a.aggregation.type), ("name", .string a.name)] ++
    a.aggregation.fieldsToJson)

/-- The form of an aggregator in native documents. -/
def toJson (a : Aggregator) : Json :=
  match a.filter with
  | none => a.baseToJson
  | some filter =>
    .object [("type", .string "filtered"), ("filter", filter.toJson),
      ("aggregator", a.baseToJson)]

end Aggregator

end FederatedQuery.Native
