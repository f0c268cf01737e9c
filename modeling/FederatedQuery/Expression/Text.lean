import FederatedQuery.Expression.Basic
import FederatedQuery.Value.Text

/-!
# The text of an expression

An expression is written as a chain of calls, `$wiki.filter($page.is("Main")).count()`:
a reference with a dollar sign, and every operation after its operand and a point.

## Main definitions

* `Expression.text`: the notation.
-/

namespace FederatedQuery.Expression

/-- A call of `name` on the operand written `operand`. -/
def call (operand name arguments : String) : String :=
  operand ++ "." ++ name ++ "(" ++ arguments ++ ")"

/-- The text of an expression. -/
def text : Expression → String
  | .literal value => value.text
  | .ref name => "$" ++ name
  | .filter operand predicate => call operand.text "filter" predicate.text
  | .split operand key name => call operand.text "split" (key.text ++ ", " ++ Text.quoted name)
  | .apply operand body name => call operand.text "apply" (Text.quoted name ++ ", " ++ body.text)
  | .sort operand key direction =>
    call operand.text "sort" (key.text ++ ", " ++ direction.name)
  | .limit operand rows => call operand.text "limit" (toString rows.toNat)
  | .count operand => call operand.text "count" ""
  | .not operand => call operand.text "not" ""
  | .regex operand regexp => call operand.text "match" (Text.quoted regexp)
  | .timeBucket operand duration => call operand.text "timeBucket" duration
  | .binary op operand argument => call operand.text op.name argument.text

end FederatedQuery.Expression
