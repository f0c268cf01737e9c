import FederatedQuery.Expression.Error
import FederatedQuery.Value.Order

/-!
# Evaluation

What a backend does not compute is computed from the row at hand and the rows around it.
A name means the cell of that name in the innermost row that has one. An operation on
numbers gives `null` when one of them is `null` and when the result is not finite;
comparisons with `null` give `null`. A condition holds when it is the truth value *true*
and nothing else, and the second condition of a conjunction or disjunction is looked at
only if the first leaves it open.

## Main definitions

* `Scope`: the rows in which names are looked up, innermost first.
* `Expression.evaluate`: the value of an expression.
-/

namespace FederatedQuery

/-- The rows that an expression sees, innermost first. -/
abbrev Scope := List Row

/-- The value of a name: that of the innermost row which has it. -/
def Scope.lookup? (scope : Scope) (name : String) : Option Value :=
  scope.findSome? fun row => Row.get? row name

/-- The operation on doubles. -/
def Arithmetic.onDoubles : Arithmetic → Float → Float → Float
  | .add, x, y => x + y
  | .subtract, x, y => x - y
  | .multiply, x, y => x * y
  | .divide, x, y => x / y

/-- The operation on values. -/
def Arithmetic.onValues (op : Arithmetic) : Value → Value → Except ExpressionError Value
  | .null, _ => .ok .null
  | _, .null => .ok .null
  | .number x, .number y => .ok (.ofDouble (op.onDoubles x y))
  | a, b => .error (.notEvaluable (.operands a.kind b.kind))

/-- Whether a comparison accepts the order of its operands. -/
def Comparison.accepts : Comparison → Ordering → Bool
  | .greaterThan, o => o == .gt
  | .greaterThanOrEqual, o => o != .lt
  | .lessThan, o => o == .lt
  | .lessThanOrEqual, o => o != .gt

/-- The comparison of values. -/
def Comparison.onValues (c : Comparison) (a b : Value) : Value :=
  if a.isNull || b.isNull then .null else .boolean (c.accepts (a.compare b))

namespace Expression

/-- The value of an expression in a scope. -/
def evaluate (scope : Scope) : Expression → Except ExpressionError Value
  | .literal value => .ok value
  | .ref name =>
    match scope.lookup? name with
    | some value => .ok value
    | none => .error (.unresolved name)
  | .not a => do
    let x ← a.evaluate scope
    .ok (.boolean !x.isTrue)
  | e@(.binary op a b) =>
    match op with
    | .arithmetic op => do
      let x ← a.evaluate scope
      let y ← b.evaluate scope
      op.onValues x y
    | .comparison c => do
      let x ← a.evaluate scope
      let y ← b.evaluate scope
      .ok (c.onValues x y)
    | .relation .is => do
      let x ← a.evaluate scope
      let y ← b.evaluate scope
      .ok (.boolean (x == y))
    | .connective .and => do
      let x ← a.evaluate scope
      if x.isTrue then
        let y ← b.evaluate scope
        .ok (.boolean y.isTrue)
      else .ok (.boolean false)
    | .connective .or => do
      let x ← a.evaluate scope
      if x.isTrue then .ok (.boolean true)
      else
        let y ← b.evaluate scope
        .ok (.boolean y.isTrue)
    | _ => .error (.notEvaluable (.operation e))
  | e => .error (.notEvaluable (.operation e))

end Expression

end FederatedQuery
