import FederatedQuery.Attribute.Basic

/-!
# What metadata says about a column

A backend reports the native type of a column and, for a metric, the aggregator that
made it. From these follow the kind of the column's values, whether it can be split by,
and its maker.

## Main definitions

* `Native.kindOf`: the kind of a native type.
* `Native.looksLikeMetric`: whether a column of that type is taken for a metric when the
  backend does not say.
* `Maker.ofAggregator?`: the maker of a column made by a native aggregator.
-/

namespace FederatedQuery

namespace Native

/-- The backend's name for the time of a row. -/
def timeColumn : String := "__time"

/-- The column that by convention counts the rows merged into one. -/
def rollupCountColumn : String := "count"

/-- The native types of sketches, which only ever hold metrics. -/
def sketchTypes : List String :=
  ["hyperUnique", "approximateHistogram", "thetaSketch", "HLLSketch",
    "quantilesDoublesSketch", "cardinality"]

/-- Whether a native type holds numbers. -/
def isNumeric (nativeType : String) : Bool :=
  nativeType == "LONG" || nativeType == "FLOAT" || nativeType == "DOUBLE"

/-- Whether a native type is that of a sketch. -/
def isSketch (nativeType : String) : Bool := sketchTypes.contains nativeType

/-- The kind of the values of a native type. -/
def kindOf (nativeType : String) (manyValues : Bool) : Kind :=
  if nativeType == "STRING" then (if manyValues then .stringSet else .string)
  else if isNumeric nativeType then .number
  else .null

/-- Whether a column is taken for a metric when its aggregators are not known: numbers and
sketches are. -/
def looksLikeMetric (nativeType : String) : Bool := isNumeric nativeType || isSketch nativeType

end Native

/-- The makers of native aggregators: `none` for a count. An aggregator that is not listed
has no maker. -/
def Maker.table : List (String × Option Accumulation) :=
  [("count", none),
    ("longSum", some .sum), ("doubleSum", some .sum), ("floatSum", some .sum),
    ("longMin", some .min), ("doubleMin", some .min), ("floatMin", some .min),
    ("longMax", some .max), ("doubleMax", some .max), ("floatMax", some .max)]

/-- The maker of a column made by the given native aggregator. The sum of the rollup count
counts rows. -/
def Maker.ofAggregator? (aggregator : Json) : Option Maker := do
  let type ← aggregator.textAt? "type"
  match ← Maker.table.lookup type with
  | none => some .count
  | some how =>
    let field ← aggregator.textAt? "fieldName"
    if how = .sum ∧ aggregator.textAt? "name" = some Native.rollupCountColumn then
      some .count
    else some (.ofField how field)

end FederatedQuery
