import FederatedQuery.Attribute.Basic
import FederatedQuery.Attribute.Inference
import FederatedQuery.External.Error
import FederatedQuery.External.Version

/-!
# Datasources

An external is a handle on one remote datasource: how to reach it, what is known of its
columns, and what may be asked of it. It is described by a document, its descriptor.
What is not known of the columns is learned later, by introspection, which gives a new
external and leaves the old one as it is.

## Main definitions

* `Strategy`: how columns are discovered.
* `External`: the handle.
* `External.read`: builds an external from its descriptor.
* `External.toJson`: the descriptor of an external.
* `Request`, `External.request`: a native query for a datasource.
-/

namespace FederatedQuery

/-- The engines of backends. -/
inductive Engine where
  | druid
  deriving DecidableEq

/-- The name of an engine. -/
def Engine.name : Engine → String
  | .druid => "druid"

/-- The engine with the given name. -/
def Engine.parse (name : String) : Except ExternalError Engine :=
  if name = "druid" then .ok .druid else .error (.unsupportedEngine name)

/-- How the columns of a datasource are discovered. -/
inductive Strategy where
  /-- By the metadata of segments, and if the backend has none by its listing. -/
  | segmentMetadataFallback
  /-- By the metadata of segments only. -/
  | segmentMetadataOnly
  /-- By the listing of the datasource only. -/
  | datasourceGet
  deriving DecidableEq

/-- The name of a strategy. -/
def Strategy.name : Strategy → String
  | .segmentMetadataFallback => "segment-metadata-fallback"
  | .segmentMetadataOnly => "segment-metadata-only"
  | .datasourceGet => "datasource-get"

/-- The strategy with the given name. -/
def Strategy.ofName? (name : String) : Option Strategy :=
  if name = "segment-metadata-fallback" then some .segmentMetadataFallback
  else if name = "segment-metadata-only" then some .segmentMetadataOnly
  else if name = "datasource-get" then some .datasourceGet
  else none

@[simp] theorem Strategy.ofName?_name (s : Strategy) : ofName? s.name = some s := by
  cases s <;> decide

/-- The strategy with the given name, which must be one. -/
def Strategy.parse (name : String) : Except ExternalError Strategy :=
  match ofName? name with
  | some strategy => .ok strategy
  | none => .error (.invalidStrategy name)

/-- A handle on a remote datasource. -/
structure External where
  /-- The name under which its backend is reached. -/
  backend : String
  engine : Engine
  /-- The name of the datasource at its backend. -/
  source : String
  /-- The columns, once they are known; never an empty list read from a descriptor. -/
  attributes : Option (List Attribute)
  strategy : Strategy
  /-- The name of the column that holds the time of a row. -/
  timeAttribute : String
  /-- Settings sent along with every query. -/
  context : Option Json.Fields
  /-- Columns that take the place of discovered ones. -/
  overrides : List Attribute
  /-- Whether a query need not be restricted in time. -/
  allowEternity : Bool
  /-- Whether single rows may be asked for. -/
  allowSelect : Bool
  /-- The version of the backend, once it is known. -/
  version : Option String

namespace External

/-- The known columns, the time attribute first. -/
def columns (x : External) : List Attribute := x.attributes.getD []

/-- The known column of the given name. -/
def attribute? (x : External) (name : String) : Option Attribute :=
  Attribute.find? x.columns name

/-- Whether the columns are known. -/
def isIntrospected (x : External) : Bool := x.attributes.isSome

/-- Whether the backend is known to be of the given version or a later one. -/
def versionAtLeast (x : External) (least : String) : Bool := Version.atLeast x.version least

/-! ### Descriptors -/

/-- A descriptor as written. -/
structure Descriptor where
  engine : String
  source : String
  attributes : Option (List Attribute)
  strategy : Option String
  timeAttribute : String
  context : Option Json.Fields
  overrides : List Attribute
  allowEternity : Bool
  allowSelect : Bool
  version : Option String

/-- Reads a list of columns. -/
def readAttributes? (j : Json) : Option (List Attribute) :=
  j.readItems? fun part => Attribute.ofJson? part.val

/-- Reads a descriptor. -/
def Descriptor.ofJson? (j : Json) : Option Descriptor := do
  let r ← j.record?
    ["engine", "source", "attributes", "introspectionStrategy", "timeAttribute", "context",
      "attributeOverrides", "allowEternity", "allowSelectQueries", "version"]
  let engine ← r.required "engine" fun part => part.val.text?
  let source ← r.required "source" fun part => part.val.text?
  let attributes ← r.absentOr "attributes" fun part => readAttributes? part.val
  let strategy ← r.absentOr "introspectionStrategy" fun part => part.val.text?
  let timeAttribute ← r.withDefault "timeAttribute" Native.timeColumn fun part => part.val.text?
  let context ← r.absentOr "context" fun part => part.val.fields?
  let overrides ← r.withDefault "attributeOverrides" [] fun part => readAttributes? part.val
  let allowEternity ← r.withDefault "allowEternity" false fun part => part.val.bool?
  let allowSelect ← r.withDefault "allowSelectQueries" false fun part => part.val.bool?
  let version ← r.absentOr "version" fun part => part.val.text?
  some ⟨engine, source, attributes, strategy, timeAttribute, context, overrides,
    allowEternity, allowSelect, version⟩

/-- The external that a descriptor describes. An empty list of columns counts as none. -/
def ofDescriptor (backend : String) (d : Descriptor) : Except ExternalError External := do
  let engine ← Engine.parse d.engine
  let strategy ← match d.strategy with
    | some name => Strategy.parse name
    | none => .ok .segmentMetadataFallback
  if d.source.isEmpty then throw (.invalidDescriptor .emptySource)
  if d.timeAttribute.isEmpty then throw (.invalidDescriptor .emptyTimeAttribute)
  .ok
    { backend := backend
      engine := engine
      source := d.source
      attributes := d.attributes.filter fun attributes => !attributes.isEmpty
      strategy := strategy
      timeAttribute := d.timeAttribute
      context := d.context
      overrides := d.overrides
      allowEternity := d.allowEternity
      allowSelect := d.allowSelect
      version := d.version }

/-- The external that a descriptor document describes. -/
def read (backend : String) (j : Json) : Except ExternalError External :=
  match Descriptor.ofJson? j with
  | none => .error (.invalidDescriptor .shape)
  | some d => ofDescriptor backend d

/-- The descriptor document of an external. What has its default is left out, except the
time attribute. -/
def toJson (x : External) : Json :=
  let flag (b : Bool) : Option Json := if b then some (.bool true) else none
  let columns (attributes : List Attribute) : Json := .array (attributes.map Attribute.toJson)
  .object
    ([("engine", .string x.engine.name), ("source", .string x.source)] ++
      Json.field? "attributes" (x.attributes.map columns) ++
      Json.field? "introspectionStrategy"
        (if x.strategy = .segmentMetadataFallback then none
          else some (.string x.strategy.name)) ++
      [("timeAttribute", .string x.timeAttribute)] ++
      Json.field? "context" (x.context.map .object) ++
      Json.field? "attributeOverrides"
        (if x.overrides.isEmpty then none else some (columns x.overrides)) ++
      Json.field? "allowEternity" (flag x.allowEternity) ++
      Json.field? "allowSelectQueries" (flag x.allowSelect) ++
      Json.field? "version" (x.version.map .string))

end External

/-! ### Requests -/

/-- A query on its way to a backend. -/
structure Request where
  backend : String
  query : Json
  /-- The settings of the datasource. -/
  context : Option Json.Fields

/-- The settings `defaults`, unless `fields` has them already. -/
def Json.Fields.fill (fields defaults : Json.Fields) : Json.Fields :=
  defaults.foldl (fun acc field =>
    if (List.lookup field.1 acc).isSome then acc else acc ++ [field]) fields

/-- The request for a native query: the settings of the datasource are put into the
`context` of the document, where its own settings come first. -/
def External.request (x : External) (query : Json) : Request :=
  match x.context, query with
  | some context, .object fields =>
    let merged : Json :=
      match fields.lookup "context" with
      | none => .object context
      | some (.object own) => .object (Json.Fields.fill own context)
      | some other => other
    ⟨x.backend, .object (Json.Fields.put fields "context" merged), x.context⟩
  | _, _ => ⟨x.backend, query, x.context⟩

end FederatedQuery
