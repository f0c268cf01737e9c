import FederatedQuery.Expression.Codec

/-!
# Makers

A pre-aggregated column can only be combined further in the way in which it was made: a
column of sums by summing, a column of maxima by taking the maximum. The *maker* of a
column says which way that is.

## Main definitions

* `Maker`: the ways of combining, with `Maker.field?`.
* `Maker.toJson`, `Maker.ofJson?`: the form in documents.
-/

namespace FederatedQuery

/-- A way of combining numbers into one, step by step. -/
inductive Accumulation where
  | sum
  | min
  | max
  deriving DecidableEq

/-- The name of a way of combining. -/
def Accumulation.name : Accumulation → String
  | .sum => "sum"
  | .min => "min"
  | .max => "max"

/-- How a column combines further. -/
inductive Maker where
  /-- The column counts rows. -/
  | count
  /-- The column accumulates an expression. -/
  | accumulate (how : Accumulation) (expression : Expression)

namespace Maker

/-- The maker that accumulates the column called `name`. -/
def ofField (how : Accumulation) (name : String) : Maker := .accumulate how (.ref name)

/-- The column that a maker accumulates, if it names one. -/
def field? : Maker → Option String
  | .accumulate _ (.ref name) => some name
  | _ => none

/-- The form of a maker in documents: a record with the tag `op`. -/
def toJson : Maker → Json
  | .count => .object [("op", .string "count")]
  | .accumulate how expression =>
    .object [("op", .string how.name), ("expression", expression.toJson)]

/-- Reads a maker. The rules of the algebra are not checked for its expression. -/
def ofJson? (j : Json) : Option Maker := do
  let tag ← (j.tag? "op").bind Json.text?
  let accumulate (how : Accumulation) : Option Maker := do
    let r ← j.contents? ["expression"]
    r.required "expression" fun part =>
      (Expression.ofJson? true part.val).map (.accumulate how)
  match tag with
  | "count" => (j.contents? []).map fun _ => .count
  | "sum" => accumulate .sum
  | "min" => accumulate .min
  | "max" => accumulate .max
  | _ => none

end Maker

end FederatedQuery
