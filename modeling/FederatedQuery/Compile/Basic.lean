import FederatedQuery.Compile.Aggregation
import FederatedQuery.Compile.Grouping
import FederatedQuery.Native.Query

/-!
# Compiling patterns

A pattern becomes one native query, and what that query cannot do is left for afterwards.
Without results and groups the query selects rows, page by page. With groups, a sort by
the key or by a native column is left to the backend, together with the limit. Any other
sort needs all groups, so it is done afterwards, and the query asks for one row more than
may be fetched, by which too large an answer is noticed.

## Main definitions

* `Compiled`: a native query and what is left to do.
* `Pattern.compile`: the compilation of a pattern.
-/

namespace FederatedQuery

open Native

/-- The sizes that matter to compilation. -/
structure Limits where
  /-- The number of rows on a page. -/
  pageSize : Nat
  /-- The number of rows that may be fetched. -/
  maxRows : Nat

namespace Limits

/-- The usual sizes. -/
def standard : Limits := ⟨50, 100000⟩

/-- The number of rows after which an answer is too large in any case; it fits into 64
bits. -/
def cap (limits : Limits) : Nat := min (limits.maxRows + 1) (Word.count - 1)

end Limits

/-- How the pages of a selection are read. -/
structure Paging where
  /-- The number of rows on a full page. -/
  threshold : Nat
  threshold_pos : 0 < threshold
  /-- Whether the identifiers of a page name the row after it, and not its last row. -/
  fromNext : Bool
  /-- The number of rows after which reading ends. -/
  limit : Option Nat
  timeAttribute : String

/-- What is left to do with the rows of an answer. -/
structure Finish where
  /-- The values to compute, by name, in order. -/
  derived : List (String × Expression)
  /-- The columns to drop. -/
  hidden : List String
  sort : Option SortKey
  limit : Option Nat

/-- A native query and what is left to do. -/
structure Compiled where
  query : Query
  grouping : Option Grouping
  /-- The native columns, hidden ones included. -/
  columns : List String
  finish : Finish
  /-- The patterns to compute for every group. -/
  nested : List (String × Pattern)
  /-- How pages are read, if the query selects rows. -/
  paging : Option Paging

namespace Pattern

/-- The native outputs of the scalar results of a pattern. -/
def outputs (p : Pattern) : Except CompileError Outputs :=
  p.applies.foldlM (fun o (name, body) =>
    match body with
    | .scalar e => o.addApply p.source.external p.dataName name e
    | .nested _ => .ok o) .none

/-- The nested patterns among the results of a pattern. -/
def nestedPatterns (p : Pattern) : List (String × Pattern) :=
  p.applies.filterMap fun (name, body) =>
    match body with
    | .scalar _ => none
    | .nested pattern => some (name, pattern)

/-! ### Selections of rows -/

/-- The sort of a selection, which is done after all rows are fetched; its column must be
known. -/
def checkRowSort (p : Pattern) : Except CompileError Unit :=
  match p.sort with
  | none => .ok ()
  | some key =>
    match p.source.external.attribute? key.name with
    | some _ => .ok ()
    | none => .error (.unknownAttribute key.name)

/-- The first version of the backend whose paging identifiers can name the next row. -/
def fromNextVersion : String := "0.9.2"

/-- The columns that are read as dimensions. -/
def rowDimensions (x : External) : List String :=
  (x.columns.filter fun column =>
    !column.unsplitable && column.name != x.timeAttribute && column.kind != .time).map
    Attribute.name

/-- The columns that are read as metrics. -/
def rowMetrics (x : External) : List String :=
  (x.columns.filter Attribute.unsplitable).map Attribute.name

/-- How the rows of a pattern are paged: an unsorted selection reads no more than its limit,
and no page is larger than that. -/
def paging (p : Pattern) (limits : Limits) : Paging :=
  let limit := if p.sort.isSome then none else p.limit
  { threshold := max 1 (min (limit.getD limits.pageSize) limits.pageSize)
    threshold_pos := by omega
    fromNext := p.source.external.versionAtLeast fromNextVersion
    limit := limit
    timeAttribute := p.source.external.timeAttribute }

/-- The compilation of a selection of rows. -/
def compileRows (p : Pattern) (limits : Limits) (restriction : Restriction) :
    Except CompileError Compiled := do
  let x := p.source.external
  if !x.allowSelect then throw (.unsupportedShape (.rawRows x.source))
  p.checkRowSort
  let paging := p.paging limits
  let span ← restriction.span x
  .ok
    { query := ⟨x.source, span, restriction.filter,
        .select (rowDimensions x) (rowMetrics x) paging.threshold paging.fromNext []⟩
      grouping := none
      columns := []
      finish := ⟨[], [], p.sort, if p.sort.isSome then p.limit else none⟩
      nested := []
      paging := some paging }

/-! ### Totals -/

/-- The compilation of results over all rows. -/
def compileTotals (p : Pattern) (restriction : Restriction) (outputs : Outputs) :
    Except CompileError Compiled := do
  let x := p.source.external
  if !p.nestedPatterns.isEmpty then throw (.unsupportedShape .nestedWithoutSplit)
  let span ← restriction.span x
  .ok
    { query := ⟨x.source, span, restriction.filter, .totals outputs.aggregators⟩
      grouping := none
      columns := outputs.columns
      finish := ⟨outputs.derived, outputs.hidden, none, none⟩
      nested := []
      paging := none }

/-! ### Groups -/

/-- The sort of groups must be by their key or by a result that is no dataset. -/
def checkGroupSort (p : Pattern) (split : SplitKey) : Except CompileError Unit :=
  match p.sort with
  | none => .ok ()
  | some key =>
    if key.name != split.name && !p.applies.any (fun apply => apply.1 == key.name) then
      .error (.unknownAttribute key.name)
    else if p.nestedPatterns.any (fun nested => nested.1 == key.name) then
      .error (.unsupportedShape (.sortOnDataset key.name))
    else .ok ()

/-- What a query for groups asks for, and the sort and the limit that are left. -/
structure GroupShape where
  shape : Shape
  sort : Option SortKey
  limit : Option Nat

/-- Groups by buckets of time. They come in the order of time; the limit is never the
backend's. -/
def bucketShape (p : Pattern) (name : String) (period : Period) (outputs : Outputs) :
    GroupShape :=
  match p.sort with
  | some key =>
    if key.name = name then
      ⟨.timeseries period outputs.aggregators (key.direction = .descending), none, p.limit⟩
    else ⟨.timeseries period outputs.aggregators false, some key, p.limit⟩
  | none => ⟨.timeseries period outputs.aggregators false, none, p.limit⟩

/-- Groups by a dimension. -/
def dimensionShape (p : Pattern) (limits : Limits) (name dimension : String)
    (outputs : Outputs) : GroupShape :=
  let d : Dimension := ⟨dimension, name⟩
  let first (order : Option SortKey) : GroupShape :=
    let limit := (p.limit.map (min · limits.cap)).getD limits.cap
    ⟨.groupBy d outputs.aggregators order limit, none, none⟩
  match p.sort with
  | none => first none
  | some key =>
    if outputs.isPushed key.name then
      match p.limit with
      | some limit => ⟨.topN d key limit outputs.aggregators, none, none⟩
      | none => first (some key)
    else if key.name = name then first (some key)
    else ⟨.groupBy d outputs.aggregators none limits.cap, some key, p.limit⟩

/-- What a query for groups asks for. -/
def groupShape (p : Pattern) (limits : Limits) (outputs : Outputs) : Grouping → GroupShape
  | .bucket name period _ => p.bucketShape name period outputs
  | .dimension name dimension => p.dimensionShape limits name dimension outputs

/-- The compilation of results for every group. -/
def compileGroups (p : Pattern) (limits : Limits) (restriction : Restriction)
    (outputs : Outputs) (split : SplitKey) : Except CompileError Compiled := do
  let x := p.source.external
  let grouping ← Grouping.ofSplit x split
  p.checkGroupSort split
  let span ← restriction.span x
  let g := p.groupShape limits outputs grouping
  .ok
    { query := ⟨x.source, span, restriction.filter, g.shape⟩
      grouping := some grouping
      columns := outputs.columns
      finish := ⟨outputs.derived, outputs.hidden, g.sort, g.limit⟩
      nested := p.nestedPatterns
      paging := none }

/-! ### Patterns -/

/-- The compilation of a pattern. -/
def compile (p : Pattern) (limits : Limits) : Except CompileError Compiled := do
  let restriction ← Restriction.ofCondition p.source.external p.source.filter
  if p.split.isNone && p.applies.isEmpty then p.compileRows limits restriction
  else
    let outputs ← p.outputs
    match p.split with
    | none => p.compileTotals restriction outputs
    | some split => p.compileGroups limits restriction outputs split

end Pattern

end FederatedQuery
