import FederatedQuery.External.Basic

/-!
# The columns in a backend's metadata

A backend tells of the columns of a datasource in one of two ways: by the merged metadata
of its segments, which have a native type for every column and perhaps the aggregators of
the metrics, or by a listing that only names dimensions and metrics. In both the time of
a row is not among the columns, and the time attribute is put first.

Columns given with the datasource take the place of those found under the same names.

## Main definitions

* `Metadata.ofSegments`: the columns in the metadata of segments.
* `Metadata.ofListing`: the columns in a listing.
* `Metadata.override`: the columns with those that take their place.
-/

namespace FederatedQuery.Metadata

/-- The attribute that holds the time of a row. -/
def timeAttribute (name : String) : Attribute := .plain name .time Native.timeColumn

/-- Whether a name is one of those for the time of a row. -/
def isTime (timeName name : String) : Bool := name == Native.timeColumn || name == timeName

/-! ### Metadata of segments -/

/-- Whether the backend reports that it could not analyse a column. -/
def isErroneous (column : Json) : Bool :=
  (match column.get? "errorMessage" with
    | some message => !message.isNull
    | none => false) || (column.get? "size").bind Json.int? == some (-1)

/-- The attribute for a column. When the aggregators are known, the metrics are the columns
that have one; otherwise they are told by their native types. -/
def ofColumn (aggregators : Option Json.Fields) (name : String) (column : Json) :
    Except ExternalError Attribute :=
  match column.textAt? "type" with
  | none => .error (.invalidResponse (.untypedColumn name))
  | some nativeType =>
    let manyValues := ((column.get? "hasMultipleValues").bind Json.bool?).getD false
    let base := Attribute.plain name (Native.kindOf nativeType manyValues) nativeType
    match aggregators with
    | none => .ok { base with unsplitable := Native.looksLikeMetric nativeType }
    | some aggregators =>
      let aggregator := aggregators.lookup name
      .ok { base with
        unsplitable := aggregator.isSome
        maker := if isErroneous column then none else aggregator.bind Maker.ofAggregator? }

/-- The columns in the merged metadata of segments, in the order in which they are
reported. -/
def ofSegments (timeName : String) (merged : Json) : Except ExternalError (List Attribute) := do
  let some columns := (merged.get? "columns").bind Json.fields?
    | throw (.invalidResponse .noColumns)
  let aggregators := (merged.get? "aggregators").bind Json.fields?
  let attributes ← (columns.filter fun column => !isTime timeName column.1).mapM
    fun (name, column) => ofColumn aggregators name column
  .ok (timeAttribute timeName :: attributes)

/-! ### Listings -/

/-- The names in one of the lists of a listing. -/
def listedNames (timeName : String) (listing : Json) (key : String) :
    Except ExternalError (List String) :=
  match (listing.get? key).bind Json.items? with
  | none => .error (.invalidResponse (.listingWithout key))
  | some items => .ok ((items.filterMap Json.text?).filter fun name => !isTime timeName name)

/-- The columns in a listing: dimensions are strings, metrics are numbers. -/
def ofListing (timeName : String) (listing : Json) : Except ExternalError (List Attribute) := do
  let dimensions ← listedNames timeName listing "dimensions"
  let metrics ← listedNames timeName listing "metrics"
  .ok (timeAttribute timeName ::
    (dimensions.map (fun name => Attribute.plain name .string "STRING") ++
      metrics.map fun name =>
        { Attribute.plain name .number "FLOAT" with unsplitable := true }))

/-! ### Overrides -/

/-- The columns with one that takes the place of the first of its name, or comes last. -/
def overrideOne : List Attribute → Attribute → List Attribute
  | [], new => [new]
  | column :: rest, new =>
    if column.name = new.name then new :: rest else column :: overrideOne rest new

/-- The columns with those that take their place. -/
def override (columns overrides : List Attribute) : List Attribute :=
  overrides.foldl overrideOne columns

end FederatedQuery.Metadata
