import FederatedQuery.Exchange
import FederatedQuery.External.Metadata
import FederatedQuery.Text.Search

/-!
# Introspection

What is not known of a datasource is asked of its backend: first the version of the
backend, unless it is known, and then the columns. Backends differ in what they can tell,
so there are three attempts of falling capability: the metadata of segments with their
aggregators, the metadata without them, and the listing of the datasource. A step down is
taken only when the backend refuses an attempt in words that show that it does not know
it, and when the strategy allows the next attempt. Any other failure ends introspection.

## Main definitions

* `Attempt`: the attempts, with their native queries.
* `Refusal`: the messages by which a backend refuses an attempt.
* `Attempt.stepDown?`: the next attempt after an error.
* `External.introspect`: the exchange that learns what is not known.
-/

namespace FederatedQuery

/-- A way of asking for the columns of a datasource. -/
inductive Attempt where
  /-- The metadata of segments, with or without their aggregators. -/
  | segmentMetadata (aggregators : Bool)
  /-- The listing of the datasource. -/
  | listing
  deriving DecidableEq

namespace Attempt

/-- How much an attempt asks of the backend. -/
def capability : Attempt → Nat
  | .segmentMetadata true => 2
  | .segmentMetadata false => 1
  | .listing => 0

/-- The first attempt of a strategy. -/
def initial : Strategy → Attempt
  | .segmentMetadataFallback | .segmentMetadataOnly => .segmentMetadata true
  | .datasourceGet => .listing

/-- The native query of an attempt. -/
def query (source : String) : Attempt → Json
  | .segmentMetadata aggregators =>
    .object ([("queryType", .string "segmentMetadata"), ("dataSource", .string source),
      ("merge", .bool true)] ++
      if aggregators then
        [("analysisTypes", .array [.string "aggregators"]),
          ("lenientAggregatorMerge", .bool true)]
      else [("analysisTypes", .array [])])
  | .listing =>
    .object [("queryType", .string "introspect"), ("dataSource", .string source)]

/-- The columns in the items of a reply to an attempt; the first item counts. -/
def columns (timeName : String) (items : List Json) :
    Attempt → Except ExternalError (List Attribute)
  | .segmentMetadata _ =>
    match items with
    | [] => .error (.invalidResponse .noSegments)
    | first :: _ => Metadata.ofSegments timeName first
  | .listing =>
    match items with
    | [] => .error (.invalidResponse .emptyListing)
    | first :: _ => Metadata.ofListing timeName first

end Attempt

namespace Refusal

/-- The backend cannot analyse aggregators. -/
def ofAggregators (message : String) : Bool :=
  Text.contains message "SegmentMetadataQuery$AnalysisType"

/-- The backend has no metadata of segments, or has it only for given intervals. -/
def ofSegmentMetadata (message : String) : Bool :=
  Text.contains message "querySegmentSpec can't be null" ||
    (Text.contains message "type id 'segmentMetadata'" && Text.contains message "resolve")

/-- The backend does not tell its version. -/
def ofStatus (message : String) : Bool :=
  Text.contains message "type id 'status'" && Text.contains message "resolve"

end Refusal

/-- The next attempt after an error, if the error is a refusal and the strategy allows it. -/
def Attempt.stepDown? (strategy : Strategy) (attempt : Attempt) (error : ExternalError) :
    Option Attempt :=
  match attempt, error with
  | .segmentMetadata aggregators, .requester message =>
    if aggregators && Refusal.ofAggregators message then some (.segmentMetadata false)
    else if Refusal.ofSegmentMetadata message && strategy = .segmentMetadataFallback then
      some .listing
    else none
  | _, _ => none

/-- Every step down asks less of the backend. -/
theorem Attempt.capability_stepDown {strategy : Strategy} {attempt next : Attempt}
    {error : ExternalError} (h : attempt.stepDown? strategy error = some next) :
    next.capability < attempt.capability := by
  unfold stepDown? at h
  split at h
  · rename_i aggregators message
    cases aggregators <;> split at h <;> simp_all
    all_goals
      obtain ⟨_, rfl⟩ := h
      simp [capability]
  · simp at h

namespace External

/-- The external once its columns and perhaps its version are known. -/
def introspected (x : External) (columns : List Attribute) (version : Option String) :
    External :=
  { x with
    attributes := some (Metadata.override columns x.overrides)
    version := version }

/-- The query for the version of a backend. -/
def statusQuery : Json := .object [("queryType", .string "status")]

/-- The version of the backend, asked for unless it is known. -/
def learnVersion (x : External) : Exchange ExternalError (Option String) :=
  match x.version with
  | some version => .done (some version)
  | none => do
    match ← Exchange.items (x.request statusQuery) with
    | .ok items => return items.findSome? fun item => item.textAt? "version"
    | .error message =>
      if Refusal.ofStatus message then return none else .fail (.requester message)

/-- The columns of the datasource, by the given attempt or one of less capability. -/
def learnColumns (x : External) (attempt : Attempt) :
    Exchange ExternalError (List Attribute) := do
  let reply ← Exchange.items (x.request (attempt.query x.source))
  match (reply.mapError ExternalError.requester).bind (attempt.columns x.timeAttribute) with
  | .ok columns => return columns
  | .error error =>
    match _h : attempt.stepDown? x.strategy error with
    | some next => x.learnColumns next
    | none => .fail error
termination_by attempt.capability
decreasing_by exact Attempt.capability_stepDown _h

/-- The exchange that learns the columns of a datasource, if they are not known, and the
version of its backend. -/
def introspect (x : External) : Exchange ExternalError External := do
  if x.isIntrospected then return x
  let version ← x.learnVersion
  let columns ← x.learnColumns (Attempt.initial x.strategy)
  return x.introspected columns version

end External

end FederatedQuery
