import FederatedQuery.Expression.Basic
import FederatedQuery.Native.Aggregator
import FederatedQuery.Native.Restriction
import FederatedQuery.Time.Period

/-!
# Native queries

A native query names a datasource, restricts it in time and by a filter, and asks for
rows or for aggregates in one of a few shapes. The aggregates come in total, in buckets
of time, or for every value of a dimension; in the last case either the foremost groups
by some metric or the groups of a whole ordering.

## Main definitions

* `Native.Shape`: what is asked for.
* `Native.Query`: a query.
* `Query.toJson`: the native document.
* `Query.atPage`: the query for a later page of rows.
-/

namespace FederatedQuery.Native

/-- A dimension and the name under which the answer gives it. -/
structure Dimension where
  dimension : String
  outputName : String

/-- What a query asks for. -/
inductive Shape where
  /-- A page of rows that follows the given paging identifiers. -/
  | select (dimensions metrics : List String) (threshold : Nat) (fromNext : Bool)
    (identifiers : Json.Fields)
  /-- Aggregates over all rows. -/
  | totals (aggregators : List Aggregator)
  /-- Aggregates for every bucket of time that holds rows. -/
  | timeseries (period : Period) (aggregators : List Aggregator) (descending : Bool)
  /-- The foremost groups by one of the aggregates. -/
  | topN (dimension : Dimension) (metric : SortKey) (threshold : Nat)
    (aggregators : List Aggregator)
  /-- The first groups in an ordering. -/
  | groupBy (dimension : Dimension) (aggregators : List Aggregator) (order : Option SortKey)
    (limit : Nat)

/-- A native query. -/
structure Query where
  source : String
  span : Span
  filter : Option Filter
  shape : Shape

namespace Shape

/-- The aggregators of a query. -/
def aggregators : Shape → List Aggregator
  | .select .. => []
  | .totals aggregators | .timeseries _ aggregators _ | .topN _ _ _ aggregators
  | .groupBy _ aggregators _ _ => aggregators

/-- The name of a kind of query. -/
def type : Shape → String
  | .select .. => "select"
  | .totals _ | .timeseries .. => "timeseries"
  | .topN .. => "topN"
  | .groupBy .. => "groupBy"

/-- The buckets of time into which a query sorts its rows. -/
def granularity : Shape → Json
  | .timeseries period _ _ =>
    .object [("type", .string "period"), ("period", .string period.text),
      ("timeZone", .string "Etc/UTC")]
  | _ => .string "all"

/-- The form of a dimension. -/
def dimensionToJson (d : Dimension) : Json :=
  .object [("type", .string "default"), ("dimension", .string d.dimension),
    ("outputName", .string d.outputName)]

/-- The form of the metric by which groups are foremost: the plain name puts the largest
first. -/
def metricToJson (metric : SortKey) : Json :=
  match metric.direction with
  | .descending => .string metric.name
  | .ascending => .object [("type", .string "inverted"), ("metric", .string metric.name)]

/-- The form of a column of an ordering. -/
def orderToJson (key : SortKey) : Json :=
  .object [("dimension", .string key.name), ("direction", .string key.direction.name)]

/-- The form of a list of names. -/
def namesToJson (names : List String) : Json := .array (names.map .string)

/-- The form of a list of aggregators. -/
def aggregatorsToJson (aggregators : List Aggregator) : Json :=
  .array (aggregators.map Aggregator.toJson)

/-- The fields of a document that only queries of this shape have. -/
def fieldsToJson : Shape → Json.Fields
  | .select dimensions metrics threshold fromNext identifiers =>
    [("dimensions", namesToJson dimensions), ("metrics", namesToJson metrics),
      ("pagingSpec", .object
        ([("pagingIdentifiers", .object identifiers), ("threshold", .int threshold)] ++
          Json.field? "fromNext" (if fromNext then some (.bool true) else none)))]
  | .totals aggregators => [("aggregations", aggregatorsToJson aggregators)]
  | .timeseries _ aggregators descending =>
    [("aggregations", aggregatorsToJson aggregators),
      ("context", .object [("skipEmptyBuckets", .string "true")])] ++
      Json.field? "descending" (if descending then some (.bool true) else none)
  | .topN dimension metric threshold aggregators =>
    [("dimension", dimensionToJson dimension), ("metric", metricToJson metric),
      ("threshold", .int threshold), ("aggregations", aggregatorsToJson aggregators)]
  | .groupBy dimension aggregators order limit =>
    [("dimensions", .array [dimensionToJson dimension]),
      ("aggregations", aggregatorsToJson aggregators),
      ("limitSpec", .object [("type", .string "default"), ("limit", .int limit),
        ("columns", .array (order.toList.map orderToJson))])]

end Shape

namespace Query

/-- The native document of a query. -/
def toJson (q : Query) : Json :=
  .object
    ([("queryType", .string q.shape.type), ("dataSource", .string q.source),
      ("intervals", .string q.span.text), ("granularity", q.shape.granularity)] ++
      Json.field? "filter" (q.filter.map Filter.toJson) ++ q.shape.fieldsToJson)

/-- The query for the page of rows that follows the given identifiers. -/
def atPage (q : Query) (identifiers : Json.Fields) : Query :=
  match q.shape with
  | .select dimensions metrics threshold fromNext _ =>
    { q with shape := .select dimensions metrics threshold fromNext identifiers }
  | _ => q

end Query

end FederatedQuery.Native
