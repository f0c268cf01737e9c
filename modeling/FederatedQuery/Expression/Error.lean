import FederatedQuery.Expression.Text

/-!
# What can be wrong with an expression

## Main definitions

* `Malformation`: the ways in which an expression breaks the rules of the algebra.
* `ExpressionError`: those, and the failures of evaluation.
* `ExpressionError.message`: the sentence that tells of an error.
-/

namespace FederatedQuery

/-- A rule of the algebra that is broken. -/
inductive Malformation where
  /-- A document does not have the shape of an expression. -/
  | shape
  | reversedRange (start stop : Instant)
  | invalidPeriod (text : String)
  | unknownDirection (text : String)
  | namelessReference
  | infiniteLiteral (x : Float)
  /-- A split or an apply without a name. -/
  | emptyName (op : String)
  | splitKey (key : Expression)
  | sortKey (key : Expression)
  | negativeLimit (n : Int)
  | emptyRegexp

/-- What an evaluation cannot deal with. -/
inductive Obstacle where
  /-- An operation that only a backend can carry out. -/
  | operation (e : Expression)
  /-- Arithmetic on values that are not numbers. -/
  | operands (a b : Kind)

/-- What went wrong with an expression. -/
inductive ExpressionError where
  | malformed (what : Malformation)
  | unresolved (name : String)
  | notEvaluable (what : Obstacle)

/-- The sentence about a broken rule; `none` for a document of the wrong shape. -/
def Malformation.message? : Malformation → Option String
  | .shape => none
  | .reversedRange start stop =>
    some ("time range ends (" ++ stop.spaced ++ ") before it starts (" ++ start.spaced ++ ")")
  | .invalidPeriod text => some ("invalid period '" ++ text ++ "'")
  | .unknownDirection text =>
    some ("sort direction must be 'ascending' or 'descending', got '" ++ text ++ "'")
  | .namelessReference => some "reference needs a name"
  | .infiniteLiteral x => some ("non-finite number literal " ++ Value.numberText x)
  | .emptyName op => some (op ++ " needs a non-empty name")
  | .splitKey key => some ("split key must be a single scalar expression, got " ++ key.text)
  | .sortKey key => some ("sort expression must be a reference, got " ++ key.text)
  | .negativeLimit n => some ("limit must be a non-negative integer, got " ++ toString n)
  | .emptyRegexp => some "match needs a non-empty regexp"

/-- The description of an obstacle. -/
def Obstacle.text : Obstacle → String
  | .operation e => e.text
  | .operands a b => "arithmetic on " ++ a.name ++ " and " ++ b.name

/-- The sentence about an error; `none` for a document of the wrong shape. -/
def ExpressionError.message? : ExpressionError → Option String
  | .malformed what => what.message?.map ("Malformed expression: " ++ ·)
  | .unresolved name => some ("Unresolved reference: $" ++ name)
  | .notEvaluable what => some ("Cannot evaluate client-side: " ++ what.text)

end FederatedQuery
