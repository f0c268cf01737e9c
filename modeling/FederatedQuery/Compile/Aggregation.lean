import FederatedQuery.Native.Aggregator
import FederatedQuery.Native.Restriction

/-!
# Aggregates in native queries

An aggregate over the rows of a source becomes a native aggregator. The filters on its
rows become the filter of the aggregator, and the attribute that it is about decides how
the backend computes it: a pre-aggregated column combines only in the way in which it was
made.

An expression that computes with aggregates is divided: the backend delivers every
aggregate in a hidden column, and the expression that is left refers to those columns.
An average is the quotient of a hidden sum and a hidden count.

## Main definitions

* `Aggregate.toNative`: the native aggregator of an aggregate.
* `Outputs`: the native columns and the derived values of a pattern.
* `Outputs.hoist`: replaces the aggregates of an expression by hidden columns.
* `Outputs.addApply`: one more result of a pattern.
-/

namespace FederatedQuery

/-- The rows without their filters, and the filters, outermost first. -/
def Expression.unfilter : Expression → Expression × List Expression
  | .filter operand predicate =>
    let (base, predicates) := operand.unfilter
    (base, predicate :: predicates)
  | e => (e, [])

/-- The condition that filters, given outermost first, put on a row: the innermost, and
then the others from the outermost inwards. There is none without a filter. -/
def Expression.conjunction (predicates : List Expression) : Option Expression :=
  predicates.getLast?.map fun innermost => predicates.dropLast.foldl conj innermost

open Native

namespace Aggregate

/-- The column that an aggregate is about. -/
def column (x : External) (field : Expression) : Except CompileError Attribute :=
  match field with
  | .ref name =>
    match x.attribute? name with
    | some column => .ok column
    | none => .error (.unknownAttribute name)
  | e => .error (.unsupportedShape (.aggregateArgument e))

/-- The native computation that combines numbers in the given way. -/
def floating : Accumulation → String → Aggregation
  | .sum => .doubleSum
  | .min => .doubleMin
  | .max => .doubleMax

/-- The computation for a column of plain numbers; only integers have a sum of their own. -/
def ofPlain (how : Accumulation) (column : Attribute) : Aggregation :=
  if how = .sum ∧ column.nativeType = some "LONG" then .longSum column.name
  else floating how column.name

/-- The native sum, minimum or maximum of a column. A pre-aggregated column has it only if
it was made in the same way, except that counts of rows are summed. -/
def accumulation (how : Accumulation) (column : Attribute) : Except CompileError Aggregation :=
  let unavailable := CompileError.unsupportedShape (.noAggregator how.name column.name)
  match column.maker with
  | some .count => if how = .sum then .ok (.longSum column.name) else .error unavailable
  | some (.accumulate made e) =>
    if made = how then
      .ok (floating how ((Maker.accumulate made e).field?.getD column.name))
    else .error unavailable
  | none =>
    if column.unsplitable then .error unavailable
    else if column.kind = .number then .ok (ofPlain how column)
    else .error (.unsupportedShape (.notNumeric column.name column.kind))

/-- The native number of distinct values of a column. -/
def distinctCount (column : Attribute) : Except CompileError Aggregation :=
  if column.nativeType = some "hyperUnique" then .ok (.hyperUnique column.name)
  else if column.unsplitable || !column.kind.isAssignableToAny [.string, .stringSet] then
    .error (.unsupportedShape (.noAggregator "countDistinct" column.name))
  else .ok (.cardinality column.name)

/-- The native computation of an aggregate, apart from the rows that it is over. -/
def aggregation (x : External) : Expression → Except CompileError Aggregation
  | .count _ => .ok .count
  | .binary (.measure .sum) _ field => column x field >>= accumulation .sum
  | .binary (.measure .min) _ field => column x field >>= accumulation .min
  | .binary (.measure .max) _ field => column x field >>= accumulation .max
  | .binary (.measure .countDistinct) _ field => column x field >>= distinctCount
  | e => .error (.unsupportedShape (.noNative e.op.name))

/-- The native aggregator called `name` of an aggregate over the rows called `dataName`. -/
def toNative (x : External) (dataName name : String) (e : Expression) :
    Except CompileError Aggregator :=
  match e.operand? with
  | none => .error (.unsupportedShape (.notAggregate e))
  | some operand => do
    let (base, predicates) := operand.unfilter
    if base != .ref dataName then
      throw (.unsupportedShape (.foreignAggregate base dataName))
    let aggregation ← aggregation x e
    let restriction ← Restriction.ofCondition x (Expression.conjunction predicates)
    .ok ⟨name, aggregation, restriction.toFilter⟩

end Aggregate

/-! ### The outputs of a pattern -/

/-- What is computed for every group: natively, and afterwards. -/
structure Outputs where
  aggregators : List Aggregator
  /-- The names of the native columns, hidden ones included. -/
  columns : List String
  /-- The native columns that are dropped in the end. -/
  hidden : List String
  /-- The values computed from the native columns, by name, in order. -/
  derived : List (String × Expression)

namespace Outputs

/-- Nothing is computed yet. -/
def none : Outputs := ⟨[], [], [], []⟩

/-- Whether a name is that of a native column that stays. -/
def isPushed (o : Outputs) (name : String) : Bool :=
  o.columns.contains name && !o.hidden.contains name

/-- The name of the hidden column after `n` others. -/
def hiddenName (n : Nat) : String := "!T_" ++ toString n

/-- One more derived value. -/
def addDerived (o : Outputs) (name : String) (e : Expression) : Outputs :=
  { o with derived := o.derived ++ [(name, e)] }

variable (x : External) (dataName : String)

/-- One more native column, for the given aggregate. -/
def addAggregate (o : Outputs) (name : String) (e : Expression) :
    Except CompileError Outputs := do
  let aggregator ← Aggregate.toNative x dataName name e
  .ok { o with aggregators := o.aggregators ++ [aggregator], columns := o.columns ++ [name] }

/-- One more hidden column, for the given aggregate, and a reference to it. -/
def addHidden (o : Outputs) (e : Expression) : Except CompileError (Expression × Outputs) := do
  let name := hiddenName o.hidden.length
  let o ← o.addAggregate x dataName name e
  .ok (.ref name, { o with hidden := o.hidden ++ [name] })

/-- An expression with every aggregate replaced by a reference to a hidden column. -/
def hoist (o : Outputs) : Expression → Except CompileError (Expression × Outputs)
  | .binary (.measure .average) rows field => do
    let (sum, o) ← o.addHidden x dataName (.binary (.measure .sum) rows field)
    let (count, o) ← o.addHidden x dataName (.count rows)
    .ok (.binary (.arithmetic .divide) sum count, o)
  | .binary (.arithmetic op) a b => do
    let (a, o) ← hoist o a
    let (b, o) ← hoist o b
    .ok (.binary (.arithmetic op) a b, o)
  | .literal value => .ok (.literal value, o)
  | .ref name => .ok (.ref name, o)
  | e =>
    if e.isAggregate then o.addHidden x dataName e
    else .error (.unsupportedShape (.overAggregates e.op.name))

/-- Whether the backend computes an expression as it is. -/
def isNative : Expression → Bool
  | .binary (.measure .average) _ _ => false
  | e => e.isAggregate

/-- One more result of a pattern. An aggregate is a native column, except an average; any
other expression is derived, from hidden columns if it has aggregates. -/
def addApply (o : Outputs) (name : String) (e : Expression) : Except CompileError Outputs :=
  if isNative e then o.addAggregate x dataName name e
  else if e.hasAggregate then do
    let (e, o) ← o.hoist x dataName e
    .ok (o.addDerived name e)
  else .ok (o.addDerived name e)

end Outputs

end FederatedQuery
