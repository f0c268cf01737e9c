import FederatedQuery.Attribute.Inference
import FederatedQuery.Time.Range

/-!
# Native filters

The conditions that a backend understands: tests of one dimension, and their conjunctions,
disjunctions and negations.

## Main definitions

* `Native.Filter`: the conditions.
* `Filter.conjuncts`, `Filter.disjuncts`: the parts of a condition.
* `Filter.toJson`: the form in native documents.
-/

namespace FederatedQuery.Native

/-- How a bound compares: as numbers, or as texts by code point. -/
inductive BoundOrder where
  | numeric
  | lexicographic
  deriving DecidableEq

/-- The name of an order. -/
def BoundOrder.name : BoundOrder → String
  | .numeric => "numeric"
  | .lexicographic => "lexicographic"

/-- An end of a bound. An end of which it is not said whether it is strict is not. -/
structure Edge where
  text : String
  strict : Option Bool
  deriving DecidableEq

/-- A condition on the rows of a datasource. -/
inductive Filter where
  /-- The dimension has the given value, or none. -/
  | selector (dimension : String) (value : Option String)
  /-- The dimension has one of the given values. -/
  | oneOf (dimension : String) (values : List String)
  /-- The dimension matches a regular expression. -/
  | regex (dimension pattern : String)
  /-- The dimension contains a text. -/
  | search (dimension text : String)
  /-- The dimension lies between two ends. -/
  | bound (dimension : String) (order : BoundOrder) (lower upper : Option Edge)
  /-- The time of the row lies in a range. -/
  | interval (range : TimeRange)
  | and (fields : List Filter)
  | or (fields : List Filter)
  | not (field : Filter)

namespace Filter

/-- The conditions that together make up a condition. -/
def conjuncts : Filter → List Filter
  | .and fields => fields
  | filter => [filter]

/-- The conditions of which one has to hold. -/
def disjuncts : Filter → List Filter
  | .or fields => fields
  | filter => [filter]

/-- An end of a bound as fields. -/
def edgeFields (key strictKey : String) : Option Edge → Json.Fields
  | none => []
  | some edge => (key, .string edge.text) :: Json.field? strictKey (edge.strict.map .bool)

mutual

/-- The form of a filter in native documents. -/
def toJson : Filter → Json
  | .selector dimension value =>
    .object [("type", .string "selector"), ("dimension", .string dimension),
      ("value", (value.map Json.string).getD .null)]
  | .oneOf dimension values =>
    .object [("type", .string "in"), ("dimension", .string dimension),
      ("values", .array (values.map .string))]
  | .regex dimension pattern =>
    .object [("type", .string "regex"), ("dimension", .string dimension),
      ("pattern", .string pattern)]
  | .search dimension text =>
    .object [("type", .string "search"), ("dimension", .string dimension),
      ("query", .object [("type", .string "contains"), ("value", .string text),
        ("caseSensitive", .bool true)])]
  | .bound dimension order lower upper =>
    .object ([("type", .string "bound"), ("dimension", .string dimension),
      ("ordering", .string order.name)] ++ edgeFields "lower" "lowerStrict" lower ++
      edgeFields "upper" "upperStrict" upper)
  | .interval range =>
    .object [("type", .string "interval"), ("dimension", .string timeColumn),
      ("intervals", .array [.string range.interval])]
  | .and fields => .object [("type", .string "and"), ("fields", .array (listToJson fields))]
  | .or fields => .object [("type", .string "or"), ("fields", .array (listToJson fields))]
  | .not field => .object [("type", .string "not"), ("field", toJson field)]

/-- The form of each filter of a list. -/
def listToJson : List Filter → List Json
  | [] => []
  | filter :: rest => toJson filter :: listToJson rest

end

end Filter

end FederatedQuery.Native
