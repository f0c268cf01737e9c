import FederatedQuery.Expression.Build
import FederatedQuery.Native.Restriction
import FederatedQuery.Plan.Pattern

/-!
# Groupings

The rows of a source are grouped by a dimension or by buckets of time. The key of a group
is the value of the dimension or the bucket; a condition on the key selects the rows of
one group.

## Main definitions

* `Grouping`: what rows are grouped by.
* `Grouping.ofSplit`: the grouping that a split asks for.
* `Grouping.condition`: the condition that selects one group.
-/

namespace FederatedQuery

/-- What rows are grouped by, and the name of the key. -/
inductive Grouping where
  | dimension (name dimension : String)
  | bucket (name : String) (period : Period) (timeAttribute : String)

namespace Grouping

/-- The name of the key. -/
def name : Grouping → String
  | .dimension name _ => name
  | .bucket name _ _ => name

/-- The condition that selects the rows of the group with the given key. -/
def condition (g : Grouping) (key : Value) : Expression :=
  match g with
  | .dimension _ d => (Expression.ref d).eqTo (.ofValue key)
  | .bucket _ _ time => (Expression.ref time).overlapWith (.ofValue key)

/-- The grouping that a split asks for. Rows are grouped by an attribute that is no metric
and no time, or by buckets of the time attribute. -/
def ofSplit (x : External) (split : SplitKey) : Except CompileError Grouping :=
  match split.key with
  | .ref name =>
    match x.attribute? name with
    | none => .error (.unknownAttribute name)
    | some column =>
      if column.unsplitable then .error (.unsupportedShape (.splitOnMetric column.name))
      else if column.kind = .time then .error (.unsupportedShape (.splitOnTime column.name))
      else .ok (.dimension split.name column.name)
  | .timeBucket operand duration =>
    if x.isTimeRef operand then
      match Period.parse? duration with
      | some period => .ok (.bucket split.name period x.timeAttribute)
      | none => .error (.unsupportedShape (.invalidBucket duration))
    else .error (.unsupportedShape (.bucketOperand x.timeAttribute operand))
  | key => .error (.unsupportedShape (.splitKey key))

end Grouping

end FederatedQuery
