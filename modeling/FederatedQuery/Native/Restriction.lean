import FederatedQuery.Compile.Error
import FederatedQuery.External.Basic
import FederatedQuery.Native.Filter

/-!
# Restrictions

A native query is restricted in two ways: to an interval of time, and by a filter. The
conditions of an expression are divided between the two. A conjunct that asks the time
attribute to overlap a literal range narrows the interval; every other conjunct goes into
the filter, except that the literal *true* is dropped. Two ranges without common instants
leave an empty interval, which starts where the later of them starts.

## Main definitions

* `Expression.conjuncts`: the conditions that together make up a condition.
* `Native.filterOf`: the native filter of a condition.
* `Restriction.ofCondition`: the interval and the filter of a condition.
-/

namespace FederatedQuery

/-- The conditions that together make up a condition, in order. -/
def Expression.conjuncts : Expression → List Expression
  | .binary (.connective .and) a b => a.conjuncts ++ b.conjuncts
  | e => [e]

/-- The value of a literal. -/
def Expression.literal? : Expression → Option Value
  | .literal value => some value
  | _ => none

/-- Whether an expression refers to the time attribute. -/
def External.isTimeRef (x : External) : Expression → Bool
  | .ref name => name == x.timeAttribute
  | _ => false

namespace Native

/-! ### Filters -/

/-- The column that the left side of a condition names, if it can be filtered by and has
one of the accepted kinds. -/
def dimensionOf (x : External) (whole left : Expression) (accepted : List Kind) :
    Except CompileError Attribute :=
  match left with
  | .ref name =>
    match x.attribute? name with
    | none => .error (.unknownAttribute name)
    | some column =>
      if column.unsplitable then .error (.unpushable whole (.preAggregated name))
      else if column.kind.isAssignableToAny accepted then .ok column
      else .error (.unpushable whole (.wrongKind name column.kind))
  | _ => .error (.unpushable whole .notAttribute)

/-- The text of a value in a selector; `some none` for the null value. -/
def selectorText? : Value → Option (Option String)
  | .null => some none
  | .string s => some (some s)
  | .number x => some (some (Value.numberText x))
  | .boolean b => some (some (if b then "true" else "false"))
  | _ => none

/-- The two sides of an equality as an attribute and a literal. -/
def equalitySides? (a b : Expression) : Option (Expression × Value) :=
  match b.literal?, a.literal? with
  | some value, _ => some (a, value)
  | none, some value => some (b, value)
  | none, none => none

/-- The filter of an equality. -/
def equality (x : External) (whole a b : Expression) : Except CompileError Filter :=
  match equalitySides? a b with
  | none => .error (.unpushable whole .noLiteralSide)
  | some (left, value) =>
    if x.isTimeRef left then .error (.unpushable whole .timeEquality)
    else do
      let column ← dimensionOf x whole left [.string, .stringSet, .number]
      match value with
      | .stringSet values => .ok (.oneOf column.name values)
      | value =>
        match selectorText? value with
        | some text => .ok (.selector column.name text)
        | none => .error (.unpushable whole .unsupportedLiteral)

/-- The filter of an overlap. -/
def overlap (x : External) (whole a b : Expression) : Except CompileError Filter :=
  match b.literal? with
  | none => .error (.unpushable whole .noRangeOrSet)
  | some value =>
    if x.isTimeRef a then
      match value with
      | .timeRange range => .ok (.interval range)
      | _ => .error (.unpushable whole .timeOverlap)
    else
      match value with
      | .stringSet values => do
        let column ← dimensionOf x whole a [.string, .stringSet]
        .ok (.oneOf column.name values)
      | .numberRange range => do
        let column ← dimensionOf x whole a [.number]
        .ok (.bound column.name .numeric
          (range.start.map fun s => ⟨Value.numberText s, none⟩)
          (range.stop.map fun e => ⟨Value.numberText e, some true⟩))
      | _ => .error (.unpushable whole .unsupportedOverlap)

/-- The filter of a search for a text. -/
def containment (x : External) (whole a b : Expression) : Except CompileError Filter :=
  match b.literal? with
  | some (.string text) => do
    let column ← dimensionOf x whole a [.string]
    .ok (.search column.name text)
  | _ => .error (.unpushable whole .containsText)

/-- The text of the literal that is compared with, and the order that it is compared in. -/
def comparedText? : Option Value → Option (String × BoundOrder)
  | some (.number x) => some (Value.numberText x, .numeric)
  | some (.string s) => some (s, .lexicographic)
  | _ => none

/-- The filter of a comparison. -/
def comparison (x : External) (whole : Expression) (c : Comparison) (a b : Expression) :
    Except CompileError Filter :=
  if x.isTimeRef a then .error (.unpushable whole .timeComparison)
  else do
    let column ← dimensionOf x whole a [.string, .number]
    match comparedText? b.literal? with
    | none => .error (.unpushable whole .comparisonLiteral)
    | some (text, order) =>
      let bound (lower upper : Option Edge) : Filter := .bound column.name order lower upper
      match c with
      | .greaterThan => .ok (bound (some ⟨text, some true⟩) none)
      | .greaterThanOrEqual => .ok (bound (some ⟨text, some false⟩) none)
      | .lessThan => .ok (bound none (some ⟨text, some true⟩))
      | .lessThanOrEqual => .ok (bound none (some ⟨text, some false⟩))

/-- The native filter of a condition. Nested conjunctions become one conjunction, nested
disjunctions one disjunction. -/
def filterOf (x : External) : Expression → Except CompileError Filter
  | e@(.binary op a b) =>
    match op with
    | .connective .and => do
      let left ← filterOf x a
      let right ← filterOf x b
      .ok (.and (left.conjuncts ++ right.conjuncts))
    | .connective .or => do
      let left ← filterOf x a
      let right ← filterOf x b
      .ok (.or (left.disjuncts ++ right.disjuncts))
    | .relation .is => equality x e a b
    | .relation .overlap => overlap x e a b
    | .relation .contains => containment x e a b
    | .comparison c => comparison x e c a b
    | _ => .error (.unpushable e .operation)
  | .not a => do
    let inner ← filterOf x a
    .ok (.not inner)
  | e@(.regex a pattern) => do
    let column ← dimensionOf x e a [.string]
    .ok (.regex column.name pattern)
  | e => .error (.unpushable e .operation)

/-! ### Restrictions -/

/-- What a native query is restricted to. -/
structure Restriction where
  /-- The range of time; `none` for all time. -/
  interval : Option TimeRange
  filter : Option Filter

namespace Restriction

/-- No restriction. -/
def all : Restriction := ⟨none, none⟩

/-- The range to which a conjunct restricts the time attribute, if that is what it does. -/
def timeRange? (x : External) : Expression → Option TimeRange
  | .binary (.relation .overlap) a (.literal (.timeRange range)) =>
    if x.isTimeRef a then some range else none
  | _ => none

/-- Whether a conjunct is the literal *true*. -/
def isTrivial : Expression → Bool
  | .literal (.boolean true) => true
  | _ => false

/-- The common part of two ranges; an empty range if they have none. -/
def narrow (current : Option TimeRange) (range : TimeRange) : TimeRange :=
  match current with
  | none => range
  | some current =>
    (current.intersect? range).getD
      ⟨max current.start range.start, max current.start range.start⟩

/-- One more conjunct, given the interval and the filters of those before it. -/
def addConjunct (x : External) (state : Option TimeRange × List Filter) (e : Expression) :
    Except CompileError (Option TimeRange × List Filter) :=
  match timeRange? x e with
  | some range => .ok (some (narrow state.1 range), state.2)
  | none =>
    if isTrivial e then .ok state
    else (filterOf x e).map fun filter => (state.1, state.2 ++ [filter])

/-- One filter for a list of them. -/
def conjunction : List Filter → Option Filter
  | [] => none
  | [filter] => some filter
  | filters => some (.and filters)

/-- The restriction that a condition stands for. -/
def ofCondition (x : External) (condition : Option Expression) :
    Except CompileError Restriction :=
  match condition with
  | none => .ok all
  | some e => do
    let (interval, filters) ← e.conjuncts.foldlM (addConjunct x) (none, [])
    .ok ⟨interval, conjunction filters⟩

/-- The filter that says the same as a restriction, interval included. -/
def toFilter (r : Restriction) : Option Filter :=
  match r.interval, r.filter with
  | some range, some filter => some (.and [.interval range, filter])
  | some range, none => some (.interval range)
  | none, filter => filter

end Restriction

/-- The time that a native query covers. -/
inductive Span where
  /-- All time. -/
  | eternity
  | range (range : TimeRange)
  deriving DecidableEq

/-- The interval text of a span. -/
def Span.text : Span → String
  | .eternity => "1000/3000"
  | .range r => r.interval

/-- The time that a query with the given restriction covers. -/
def Restriction.span (r : Restriction) (x : External) : Except CompileError Span :=
  match r.interval with
  | some range => .ok (.range range)
  | none =>
    if x.allowEternity then .ok .eternity
    else .error (.unsupportedShape (.unboundedTime x.source x.timeAttribute))

end Native

end FederatedQuery
