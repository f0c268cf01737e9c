import FederatedQuery.Expression.Text

/-!
# Why an expression cannot be compiled

## Main definitions

* `ShapeFault`: query shapes that no native query has.
* `FilterFault`: conditions that no native filter expresses.
* `CompileError`: those, and names that mean nothing.
* `CompileError.message`: the sentence that tells of an error.
-/

namespace FederatedQuery

/-- A shape that no native query has. -/
inductive ShapeFault where
  /-- A query without a restriction in time, for a datasource that asks for one. -/
  | unboundedTime (source timeAttribute : String)
  /-- A datasource used as if it were a value. -/
  | outsideAggregate (name : String) (e : Expression)
  | severalDatasources (e : Expression)
  | expectedDatasource (e : Expression)
  | sortKey (e : Expression)
  | operatorOrder (e : Expression)
  | applyOnRows (e : Expression)
  | foreignNested (e : Expression)
  /-- An operation that is not arithmetic, over aggregates. -/
  | overAggregates (op : String)
  | aggregateArgument (e : Expression)
  | notAggregate (e : Expression)
  | foreignAggregate (e : Expression) (dataName : String)
  | noAggregator (op metric : String)
  | notNumeric (column : String) (kind : Kind)
  | noNative (op : String)
  | nestedWithoutSplit
  | sortOnDataset (name : String)
  | splitOnMetric (name : String)
  | splitOnTime (name : String)
  | invalidBucket (duration : String)
  | bucketOperand (timeAttribute : String) (e : Expression)
  | splitKey (e : Expression)
  /-- Single rows of a datasource that does not give them. -/
  | rawRows (source : String)

/-- A reason why a condition is no native filter. -/
inductive FilterFault where
  | notAttribute
  | preAggregated (name : String)
  | wrongKind (name : String) (kind : Kind)
  | noLiteralSide
  | timeEquality
  | unsupportedLiteral
  | noRangeOrSet
  | timeOverlap
  | unsupportedOverlap
  | containsText
  | timeComparison
  | comparisonLiteral
  | operation
  deriving DecidableEq

/-- Why an expression cannot be compiled. -/
inductive CompileError where
  | unsupportedShape (fault : ShapeFault)
  | unpushable (condition : Expression) (fault : FilterFault)
  | unknownAttribute (name : String)
  | unknownDatasource (name : String)

/-- The sentence about a shape. -/
def ShapeFault.message : ShapeFault → String
  | .unboundedTime source time =>
    "querying " ++ source ++ " needs a filter on $" ++ time ++ " (or allowEternity)"
  | .outsideAggregate name e => "$" ++ name ++ " is used outside an aggregate: " ++ e.text
  | .severalDatasources e => "aggregates over several datasources: " ++ e.text
  | .expectedDatasource e => "expected a datasource: " ++ e.text
  | .sortKey e => "sort key must be a reference: " ++ e.text
  | .operatorOrder e => "unsupported operator order: " ++ e.text
  | .applyOnRows e => "apply on raw rows: " ++ e.text
  | .foreignNested e => "nested dataset must be built from the split data: " ++ e.text
  | .overAggregates op => "cannot compute " ++ op ++ " over aggregates"
  | .aggregateArgument e => "aggregates take an attribute, got " ++ e.text
  | .notAggregate e => e.text
  | .foreignAggregate e dataName => "aggregate over " ++ e.text ++ " inside $" ++ dataName
  | .noAggregator op metric =>
    op ++ " of pre-aggregated metric " ++ metric ++ " has no known native aggregator"
  | .notNumeric name kind => name ++ " has type " ++ kind.name ++ ", expected NUMBER"
  | .noNative op => "no native aggregator for " ++ op
  | .nestedWithoutSplit => "nested dataset without a split"
  | .sortOnDataset name => "cannot sort on dataset " ++ name
  | .splitOnMetric name => "cannot split on pre-aggregated metric " ++ name
  | .splitOnTime name => "split on $" ++ name ++ " needs a timeBucket"
  | .invalidBucket duration => "Malformed expression: invalid period '" ++ duration ++ "'"
  | .bucketOperand time e => "timeBucket needs $" ++ time ++ ", got " ++ e.text
  | .splitKey e => "cannot split on " ++ e.text
  | .rawRows source => "raw rows of " ++ source ++ " need allowSelectQueries"

/-- The words about a condition. -/
def FilterFault.reason : FilterFault → String
  | .notAttribute => "left side must be an attribute"
  | .preAggregated name => name ++ " is a pre-aggregated metric"
  | .wrongKind name kind => name ++ " has type " ++ kind.name
  | .noLiteralSide => "needs a literal side"
  | .timeEquality => "equality on the time attribute"
  | .unsupportedLiteral => "unsupported literal"
  | .noRangeOrSet => "needs a literal range or set"
  | .timeOverlap => "time attribute overlaps a time range"
  | .unsupportedOverlap => "unsupported overlap literal"
  | .containsText => "contains needs a string literal"
  | .timeComparison => "comparison on the time attribute"
  | .comparisonLiteral => "comparison needs a number or string literal"
  | .operation => "no native filter for this operator"

/-- The sentence about an error. -/
def CompileError.message : CompileError → String
  | .unsupportedShape fault => "Unsupported query shape: " ++ fault.message
  | .unpushable e fault =>
    "Filter cannot be pushed down: " ++ e.text ++ " (" ++ fault.reason ++ ")"
  | .unknownAttribute name => "Unknown attribute: " ++ name
  | .unknownDatasource name => "Unknown datasource: " ++ name

end FederatedQuery
