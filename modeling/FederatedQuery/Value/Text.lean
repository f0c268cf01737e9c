import FederatedQuery.Value.Basic
import FederatedQuery.Decimal.Layout
import FederatedQuery.Text.Quoted

/-!
# Values in sentences

The notation of a value in the text of an expression and in error messages. Strings are
quoted, ranges stand in brackets, and of a dataset only the number of rows is told.

## Main definitions

* `Value.text`: the notation.
-/

namespace FederatedQuery

/-- An end of a range of numbers. -/
def NumberRange.boundText : Option Float → String
  | some x => "Some(" ++ Decimal.Layout.bound.write x ++ ")"
  | none => "None"

/-- A range of numbers, closed on the left and open on the right. -/
def NumberRange.text (r : NumberRange) : String :=
  "[" ++ boundText r.start ++ ", " ++ boundText r.stop ++ ")"

/-- The plain decimal text of a number. -/
def Value.numberText (x : Float) : String := Decimal.Layout.plain.write x

/-- The notation of a value. -/
def Value.text : Value → String
  | .null => "null"
  | .boolean b => if b then "true" else "false"
  | .number x => numberText x
  | .string s => Text.quoted s
  | .time t => t.millis
  | .timeRange r => "[" ++ r.interval ++ "]"
  | .numberRange r => r.text
  | .stringSet items => Text.quotedList items
  | .dataset rows => "<dataset of " ++ toString rows.length ++ " rows>"

end FederatedQuery
