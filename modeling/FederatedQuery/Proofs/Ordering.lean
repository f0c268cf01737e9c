import FederatedQuery.Proofs.Finishing
import FederatedQuery.Proofs.Outputs
import FederatedQuery.Proofs.Sample
import Mathlib.Data.List.Nodup

/-!
# Sorting and limiting by the backend

A backend holds the groups of a query and honours the document of the query: it sorts them as the
document says, keeps as many as it says, and turns buckets of time around if it says so. The
plain answer of a pattern does without: it decodes all groups, derives values, drops hidden
columns, sorts and limits, all of it at home.

Whatever part of sorting and limiting is left to the backend, the rows are those of the plain
answer, unless there are more groups than rows may be fetched, which may then be noticed.

## Main definitions

* `NativeGroup`: the groups, with `NativeGroup.sorted` and `NativeGroup.Ascending`.
* `HonoursDocument`: the backends that do what a document says.
* `Native.Shape.served`: the groups that a query gets.
* `Pattern.plainAnswer`: the plain answer.

## Main results

* `Compiled.fetch_groups`: the rows that a query for groups yields.
* `Pattern.arrange_groupShape`: what is left to do makes the plain answer of them.
-/

namespace FederatedQuery

open Native

/-! ### Groups -/

/-- A group in the answer of a backend. -/
structure NativeGroup where
  /-- The time that is given for the group; the start of its bucket, if it is one. -/
  timestamp : Json
  record : Json.Fields

namespace NativeGroup

/-- The start of a bucket. -/
def start? (g : NativeGroup) : Option Instant := answerTime? (some g.timestamp)

/-- The order of two groups by a column. -/
def compareBy (key : SortKey) (a b : NativeGroup) : Ordering :=
  let x := recordCell a.record key.name
  let y := recordCell b.record key.name
  match key.direction with
  | .ascending => x.compare y
  | .descending => y.compare x

/-- The order of two groups by several columns, of which earlier ones count more. -/
def compareByAll (keys : List SortKey) (a b : NativeGroup) : Ordering :=
  keys.foldr (fun key rest => (compareBy key a b).then rest) .eq

/-- The groups sorted by columns; groups that are equal in all of them stay in their order. -/
def sorted (keys : List SortKey) (groups : List NativeGroup) : List NativeGroup :=
  groups.mergeSort fun a b => compareByAll keys a b != .gt

/-- Groups are different buckets in the order of time. -/
def Ascending (groups : List NativeGroup) : Prop :=
  (∀ g ∈ groups, g.start?.isSome) ∧
    groups.Pairwise fun a b => ∀ s ∈ a.start?, ∀ t ∈ b.start?, s < t

/-- Without columns to sort by, groups stay in their order. -/
theorem sorted_nil (groups : List NativeGroup) : sorted [] groups = groups :=
  List.mergeSort_of_pairwise (List.pairwise_of_forall fun _ _ => rfl)

theorem compareByAll_singleton (key : SortKey) (a b : NativeGroup) :
    compareByAll [key] a b = compareBy key a b := by
  unfold compareByAll
  rw [List.foldr_cons, List.foldr_nil]
  cases compareBy key a b <;> rfl

end NativeGroup

/-! ### Documents -/

namespace Json

/-- The column of an ordering. -/
def orderKey? (column : Json) : Option SortKey := do
  let name ← column.textAt? "dimension"
  let direction ← (column.textAt? "direction").bind Direction.ofName?
  some ⟨name, direction⟩

/-- The columns by which a query sorts groups. -/
def orderKeys (query : Json) : List SortKey :=
  (((query.get? "limitSpec").bind fun spec => (spec.get? "columns").bind items?).getD []).filterMap
    orderKey?

/-- The number of groups that a query keeps in an ordering. -/
def orderLimit? (query : Json) : Option Nat :=
  ((query.get? "limitSpec").bind fun spec => (spec.get? "limit").bind int?).map Int.toNat

/-- The metric by which a query wants the foremost groups: a plain name puts the largest first,
an inverted metric the smallest. -/
def metricKey? (query : Json) : Option SortKey :=
  match query.get? "metric" with
  | some (.string name) => some ⟨name, .descending⟩
  | some metric =>
    if metric.textAt? "type" = some "inverted" then
      (metric.textAt? "metric").map fun name => ⟨name, .ascending⟩
    else none
  | none => none

/-- The number of foremost groups that a query wants. -/
def topThreshold? (query : Json) : Option Nat :=
  ((query.get? "threshold").bind int?).map Int.toNat

/-- Whether a query wants the latest bucket first. -/
def isDescending (query : Json) : Bool := ((query.get? "descending").bind bool?).getD false

end Json

/-! ### Backends -/

/-- Items are groups, one each. -/
def AreGroups (items : List Json) (groups : List NativeGroup) : Prop :=
  List.Forall₂ (fun item g => item.get? "event" = some (.object g.record)) items groups

/-- Items are lists of foremost groups. -/
def AreTops (items : List Json) (groups : List NativeGroup) : Prop :=
  ∃ parts : List (List NativeGroup), parts.flatten = groups ∧
    List.Forall₂ (fun item part =>
      item.get? "result" = some (.array (part.map fun g => .object g.record))) items parts

/-- Items are the steps of a series. -/
def AreSteps (items : List Json) (groups : List NativeGroup) : Prop :=
  List.Forall₂ (fun item g =>
    item.get? "result" = some (.object g.record) ∧ item.get? "timestamp" = some g.timestamp)
    items groups

/-- A backend that holds groups and honours the document of a query. -/
structure HonoursDocument {σ : Type} (answer : σ → Request → Reply × σ)
    (groups : List NativeGroup) : Prop where
  /-- Groups are sorted by the columns, and as many are kept as the limit says. -/
  groupBy : ∀ s r, r.query.textAt? "queryType" = some "groupBy" →
    ∃ items, (answer s r).1.items = .ok items ∧
      AreGroups items (match r.query.orderLimit? with
        | some limit => (NativeGroup.sorted r.query.orderKeys groups).take limit
        | none => NativeGroup.sorted r.query.orderKeys groups)
  /-- The foremost groups are the first ones in the order of the metric. -/
  topN : ∀ s r key threshold, r.query.textAt? "queryType" = some "topN" →
    r.query.metricKey? = some key → r.query.topThreshold? = some threshold →
    ∃ items, (answer s r).1.items = .ok items ∧
      AreTops items ((NativeGroup.sorted [key] groups).take threshold)
  /-- Buckets come as they are, or the other way round. -/
  timeseries : ∀ s r, r.query.textAt? "queryType" = some "timeseries" →
    ∃ items, (answer s r).1.items = .ok items ∧
      AreSteps items (if r.query.isDescending then groups.reverse else groups)

/-- The groups that a backend serves for a query of the given shape. -/
def Native.Shape.served (groups : List NativeGroup) : Shape → List NativeGroup
  | .timeseries _ _ descending => if descending then groups.reverse else groups
  | .topN _ metric threshold _ => (NativeGroup.sorted [metric] groups).take threshold
  | .groupBy _ _ order limit => (NativeGroup.sorted order.toList groups).take limit
  | _ => []

/-- No more groups are served than there are. -/
theorem Native.Shape.length_served_le (groups : List NativeGroup) (shape : Shape) :
    (shape.served groups).length ≤ groups.length := by
  unfold served
  split
  · split
    · exact Nat.le_of_eq List.length_reverse
    · exact Nat.le_refl _
  · rw [List.length_take, NativeGroup.sorted, List.length_mergeSort]
    exact Nat.min_le_right _ _
  · rw [List.length_take, NativeGroup.sorted, List.length_mergeSort]
    exact Nat.min_le_right _ _
  · exact Nat.zero_le _

theorem Native.Shape.mem_of_mem_served {groups : List NativeGroup} {shape : Shape}
    {g : NativeGroup} (h : g ∈ shape.served groups) : g ∈ groups := by
  unfold served at h
  split at h
  · split at h
    · exact List.mem_reverse.1 h
    · exact h
  · exact List.mem_mergeSort.1 (List.mem_of_mem_take h)
  · exact List.mem_mergeSort.1 (List.mem_of_mem_take h)
  · exact absurd h List.not_mem_nil

/-! ### Requests for groups -/

namespace External

/-- The kind of query that a request names. -/
theorem queryType_request (x : External) (q : Query) :
    (x.request q.toJson).query.textAt? "queryType" = some q.shape.type := by
  rw [x.textAt?_request _ (by decide)]
  rfl

/-- A field of a request that only queries of some shapes have. -/
theorem shapeField_request (x : External) (q : Query) {key : String}
    (hcontext : key ≠ "context")
    (h : key ∉ ["queryType", "dataSource", "intervals", "granularity", "filter"]) :
    (x.request q.toJson).query.get? key = q.shape.fieldsToJson.lookup key := by
  rw [x.get?_request _ hcontext, Query.get?_toJson _ h]

end External

theorem Native.Shape.orderKey?_toJson (key : SortKey) :
    (orderToJson key).orderKey? = some key := by
  change ((Direction.ofName? key.direction.name).bind fun direction =>
    some (SortKey.mk key.name direction)) = some key
  rw [Direction.ofName?_name]
  rfl

/-- A request for groups in an ordering says by which columns and how many. -/
theorem External.groupBy_request (x : External) {q : Query} {dimension : Dimension}
    {aggregators : List Aggregator} {order : Option SortKey} {limit : Nat}
    (h : q.shape = .groupBy dimension aggregators order limit) :
    (x.request q.toJson).query.orderKeys = order.toList ∧
      (x.request q.toJson).query.orderLimit? = some limit := by
  rw [Json.orderKeys, Json.orderLimit?, x.shapeField_request q (by decide) (by decide), h]
  constructor
  · cases order with
    | none => rfl
    | some key =>
      change List.filterMap Json.orderKey? [Shape.orderToJson key] = [key]
      rw [List.filterMap_cons, Shape.orderKey?_toJson]
      rfl
  · rfl

/-- A request for the foremost groups says by which metric and how many. -/
theorem External.topN_request (x : External) {q : Query} {dimension : Dimension}
    {metric : SortKey} {threshold : Nat} {aggregators : List Aggregator}
    (h : q.shape = .topN dimension metric threshold aggregators) :
    (x.request q.toJson).query.metricKey? = some metric ∧
      (x.request q.toJson).query.topThreshold? = some threshold := by
  rw [Json.metricKey?, Json.topThreshold?, x.shapeField_request q (by decide) (by decide),
    x.shapeField_request q (by decide) (by decide), h]
  obtain ⟨name, direction⟩ := metric
  cases direction with
  | ascending => exact ⟨rfl, rfl⟩
  | descending => exact ⟨rfl, rfl⟩

/-- A request for buckets says whether the latest comes first. -/
theorem External.timeseries_request (x : External) {q : Query} {period : Period}
    {aggregators : List Aggregator} {descending : Bool}
    (h : q.shape = .timeseries period aggregators descending) :
    (x.request q.toJson).query.isDescending = descending := by
  rw [Json.isDescending, x.shapeField_request q (by decide) (by decide), h]
  cases descending <;> rfl

/-- A query of the given shape groups rows in the given way. -/
def Grouping.Fits : Grouping → Shape → Prop
  | .bucket .., .timeseries .. => True
  | .dimension .., .topN .. => True
  | .dimension .., .groupBy .. => True
  | _, _ => False

/-! ### Decoding groups -/

namespace Compiled

/-- The row of a group: the key of the group and the native columns. -/
def decode (c : Compiled) (g : NativeGroup) : Row :=
  match c.grouping, g.start? with
  | some (.bucket name period _), some start =>
    Row.put (c.row g.record) name (.timeRange (period.bucketAt start))
  | _, _ => c.row g.record

theorem seriesRow_eq {c : Compiled} {item : Json} {g : NativeGroup}
    (hresult : item.get? "result" = some (.object g.record))
    (htimestamp : item.get? "timestamp" = some g.timestamp) (hstart : g.start?.isSome) :
    c.seriesRow item = .ok (c.decode g) := by
  obtain ⟨start, hstart⟩ := Option.isSome_iff_exists.1 hstart
  have hanswer : answerTime? (item.get? "timestamp") = some start := htimestamp ▸ hstart
  unfold seriesRow decode
  rw [hresult, hanswer, hstart]
  simp only [Option.bind_some, Json.fields?]
  cases c.grouping with
  | none => rfl
  | some grouping => cases grouping <;> rfl

theorem groupRow_eq {c : Compiled} {item : Json} {g : NativeGroup}
    (hevent : item.get? "event" = some (.object g.record)) :
    c.groupRow item = .ok (c.row g.record) := by
  unfold groupRow
  rw [hevent]
  rfl

theorem topRows_eq {c : Compiled} {item : Json} {part : List NativeGroup}
    (hresult : item.get? "result" = some (.array (part.map fun g => .object g.record))) :
    c.topRows item = .ok (part.map fun g => c.row g.record) := by
  unfold topRows
  rw [hresult]
  simp only [Option.bind_some, Json.items?]
  rw [List.mapM_map]
  exact Except.mapM_eq_map fun g _ => rfl

/-- The rows of the steps of a series. -/
theorem mapM_seriesRow {c : Compiled} {items : List Json} {groups : List NativeGroup}
    (h : AreSteps items groups) (hstarts : ∀ g ∈ groups, g.start?.isSome) :
    items.mapM c.seriesRow = .ok (groups.map c.decode) := by
  rw [Except.mapM_eq_ok, List.forall₂_map_right_iff]
  induction h with
  | nil => exact .nil
  | cons hitem hitems ih =>
    obtain ⟨hstart, hstarts⟩ := List.forall_mem_cons.1 hstarts
    exact .cons (seriesRow_eq hitem.1 hitem.2 hstart) (ih hstarts)

theorem decode_of_dimension {c : Compiled} {name dimension : String}
    (h : c.grouping = some (.dimension name dimension)) : c.decode = fun g => c.row g.record := by
  funext g
  rw [decode, h]

/-- **The fetched groups.** A query for groups yields the rows of the groups that a backend
serves which honours the document. -/
theorem fetch_groups {σ : Type} {answer : σ → Request → Reply × σ} {groups : List NativeGroup}
    {c : Compiled} {grouping : Grouping} (hgrouping : c.grouping = some grouping)
    (hfits : grouping.Fits c.query.shape) (hpaging : c.paging = none)
    (hhonours : HonoursDocument answer groups)
    (hstarts : ∀ name period time, grouping = .bucket name period time →
      ∀ g ∈ groups, g.start?.isSome)
    (config : Config) (x : External) (s : σ) :
    ∃ s', (c.fetch config x).run answer s =
      (.ok ((c.query.shape.served groups).map c.decode), s') := by
  have hrun : ∀ items, (answer s (x.request c.query.toJson)).1.items = .ok items →
      c.rows items = .ok ((c.query.shape.served groups).map c.decode) →
      ∃ s', (c.fetch config x).run answer s =
        (.ok ((c.query.shape.served groups).map c.decode), s') := by
    intro items hitems hrows
    rw [fetch, hpaging]
    refine ⟨(answer s (x.request c.query.toJson)).2, ?_⟩
    refine (Exchange.run_items_bind answer _ _ s).trans ?_
    rw [hitems]
    simp only [hrows]
    rfl
  have htype := x.queryType_request c.query
  unfold Grouping.Fits at hfits
  split at hfits
  · next name period time _ _ descending hseries =>
    rw [hseries] at htype
    obtain ⟨items, hitems, hsteps⟩ := hhonours.timeseries s _ htype
    rw [x.timeseries_request hseries] at hsteps
    refine hrun items hitems ?_
    have hrows := mapM_seriesRow (c := c) hsteps fun g hg =>
      hstarts name period time rfl g (by split at hg <;> simpa using hg)
    rw [rows, hseries, hgrouping]
    simp only [hrows]
    exact Except.bind_eq_ok.2 ⟨_, rfl, by rw [Option.isNone_some, Bool.and_false]; rfl⟩
  · next htop =>
    rw [htop] at htype
    obtain ⟨hkey, hthreshold⟩ := x.topN_request htop
    obtain ⟨items, hitems, parts, hparts, htops⟩ := hhonours.topN s _ _ _ htype hkey hthreshold
    refine hrun items hitems ?_
    have hrows : items.mapM c.topRows =
        .ok (parts.map fun part => part.map fun g => c.row g.record) := by
      rw [Except.mapM_eq_ok, List.forall₂_map_right_iff]
      exact htops.imp fun item part hitem => topRows_eq hitem
    rw [rows, htop, decode_of_dimension hgrouping]
    refine (Except.map_eq_ok.2 ⟨_, hrows, ?_⟩)
    rw [← List.map_flatten, hparts]
    rfl
  · next horder =>
    rw [horder] at htype
    obtain ⟨hkeys, hlimit⟩ := x.groupBy_request horder
    obtain ⟨items, hitems, hgroups⟩ := hhonours.groupBy s _ htype
    rw [hkeys, hlimit] at hgroups
    refine hrun items hitems ?_
    rw [rows, horder, decode_of_dimension hgrouping]
    simp only
    rw [Except.mapM_eq_ok, List.forall₂_map_right_iff]
    exact hgroups.imp fun item g hitem => groupRow_eq hitem
  · exact hfits.elim

end Compiled

/-! ### Sorting rows and sorting groups -/

/-- Sorting the rows of groups by a cell that they have from the groups is sorting the groups. -/
theorem Dataset.sortBy_groups {key : SortKey} {groups : List NativeGroup} {f : NativeGroup → Row}
    (h : ∀ g ∈ groups, ((f g).get? key.name).getD .null = recordCell g.record key.name) :
    sortBy key (groups.map f) = (NativeGroup.sorted [key] groups).map f := by
  rw [sortBy_map h, NativeGroup.sorted]
  simp only [NativeGroup.compareByAll_singleton]
  rfl

/-- Buckets of one period are ordered like their starts. -/
theorem Period.bucketAt_le (p : Period) (s t : Instant) :
    ((p.bucketAt s).compare (p.bucketAt t) != .gt) = decide (s.key ≤ t.key) := by
  unfold TimeRange.compare Instant.compare bucketAt
  obtain h | h | h := Int.lt_trichotomy s.key t.key
  · rw [Int.compare_eq_lt.2 h, decide_eq_true (Int.le_of_lt h)]
    rfl
  · rw [Instant.key_inj h, Int.compare_eq_eq.2 rfl, Int.compare_eq_eq.2 rfl,
      decide_eq_true (Int.le_refl _)]
    rfl
  · rw [Int.compare_eq_gt.2 h, decide_eq_false (Int.not_le.2 h)]
    rfl

namespace NativeGroup

/-- A number whose order is that of the starts of buckets. -/
def startKey (g : NativeGroup) : Int := (g.start?.map Instant.key).getD 0

theorem Ascending.startKey_lt {groups : List NativeGroup} (h : Ascending groups) :
    groups.Pairwise fun a b => a.startKey < b.startKey := by
  refine h.2.imp_of_mem fun {a b} ha hb hlt => ?_
  obtain ⟨s, hs⟩ := Option.isSome_iff_exists.1 (h.1 a ha)
  obtain ⟨t, ht⟩ := Option.isSome_iff_exists.1 (h.1 b hb)
  rw [startKey, startKey, hs, ht]
  exact Instant.lt_iff.1 (hlt s hs t ht)

/-- Ascending buckets are sorted from the first to the latest. -/
theorem Ascending.mergeSort_self {groups : List NativeGroup} (h : Ascending groups) :
    groups.mergeSort (fun a b => decide (a.startKey ≤ b.startKey)) = groups :=
  List.mergeSort_of_pairwise (h.startKey_lt.imp fun hlt => decide_eq_true (Int.le_of_lt hlt))

/-- Sorting ascending buckets from the latest to the first turns them around. -/
theorem Ascending.mergeSort_reverse {groups : List NativeGroup} (h : Ascending groups) :
    groups.mergeSort (fun a b => decide (b.startKey ≤ a.startKey)) = groups.reverse := by
  have hlt := h.startKey_lt
  have hnodup : (groups.map startKey).Nodup := List.pairwise_map.2 (hlt.imp Int.ne_of_lt)
  have hsorted : (groups.mergeSort fun a b => decide (b.startKey ≤ a.startKey)).Pairwise
      fun a b => b.startKey ≤ a.startKey := by
    refine (List.pairwise_mergeSort (fun a b c hab hbc => ?_) (fun a b => ?_) groups).imp
      of_decide_eq_true
    · exact decide_eq_true (Int.le_trans (of_decide_eq_true hbc) (of_decide_eq_true hab))
    · rw [Bool.or_eq_true, decide_eq_true_eq, decide_eq_true_eq]
      exact Int.le_total _ _
  refine List.Perm.eq_of_pairwise (fun a b ha hb hab hba => ?_) hsorted ?_
    ((List.mergeSort_perm ..).trans (List.reverse_perm groups).symm)
  · exact List.inj_on_of_nodup_map hnodup (List.mem_mergeSort.1 ha) (List.mem_reverse.1 hb)
      (Int.le_antisymm hba hab)
  · exact List.pairwise_reverse.2 (hlt.imp Int.le_of_lt)

end NativeGroup

/-- Sorting the rows of ascending buckets by the bucket leaves them or turns them around. -/
theorem Dataset.sortBy_buckets {name : String} {period : Period} {groups : List NativeGroup}
    {f : NativeGroup → Row} (h : NativeGroup.Ascending groups)
    (hf : ∀ g ∈ groups, ∀ start ∈ g.start?,
      (f g).get? name = some (.timeRange (period.bucketAt start))) (direction : Direction) :
    sortBy ⟨name, direction⟩ (groups.map f) =
      (if direction = .descending then groups.reverse else groups).map f := by
  have hcompare : ∀ a ∈ groups, ∀ b ∈ groups,
      ((((f a).get? name).getD .null).compare (((f b).get? name).getD .null) != .gt) =
        decide (a.startKey ≤ b.startKey) := by
    intro a ha b hb
    obtain ⟨s, hs⟩ := Option.isSome_iff_exists.1 (h.1 a ha)
    obtain ⟨t, ht⟩ := Option.isSome_iff_exists.1 (h.1 b hb)
    rw [hf a ha s hs, hf b hb t ht, NativeGroup.startKey, NativeGroup.startKey, hs, ht]
    exact period.bucketAt_le s t
  cases direction with
  | ascending =>
    rw [if_neg nofun]
    refine (List.map_mergeSort fun a ha b hb => ?_).symm.trans (congrArg _ h.mergeSort_self)
    exact (hcompare a ha b hb).symm
  | descending =>
    rw [if_pos rfl]
    refine (List.map_mergeSort fun a ha b hb => ?_).symm.trans (congrArg _ h.mergeSort_reverse)
    exact (hcompare b hb a ha).symm

/-! ### The plain answer -/

/-- The plain answer of a pattern: all groups are decoded, values are derived and hidden columns
dropped, and then the rows are sorted and limited as the pattern says. -/
def Pattern.plainAnswer (p : Pattern) (c : Compiled) (scope : Scope)
    (groups : List NativeGroup) : Except ExpressionError Dataset :=
  Finish.apply ⟨c.finish.derived, c.finish.hidden, p.sort, p.limit⟩ scope (groups.map c.decode)

/-- The number of groups that are asked for: as many as the limit says, but no more than the
cap. -/
def Limits.capped (limits : Limits) (limit : Option Nat) : Nat :=
  (limit.map (min · limits.cap)).getD limits.cap

/-- If no more than the permitted rows come, then the cap has made no difference. -/
theorem Limits.take_capped {α : Type} {limits : Limits} {limit : Option Nat} {rows : List α}
    (hcap : limits.maxRows + 1 < Word.count ∨ rows.length < Word.count)
    (hfits : (rows.take (limits.capped limit)).length ≤ limits.maxRows) :
    rows.take (limits.capped limit) = limit.elim rows rows.take := by
  rw [List.length_take] at hfits
  unfold capped cap Word.count at *
  cases limit with
  | none =>
    rw [Option.map_none, Option.getD_none] at hfits ⊢
    exact List.take_of_length_le (by omega)
  | some n =>
    rw [Option.map_some, Option.getD_some] at hfits ⊢
    exact List.take_eq_take_iff.2 (by omega)

namespace Pattern

variable {p : Pattern} {name : String} {outputs : Outputs} {groups : List NativeGroup}
  {f : NativeGroup → Row}

/-- Arranging the rows of the buckets that are served gives the plain answer. -/
theorem arrange_bucketShape {period : Period} (h : NativeGroup.Ascending groups)
    (hf : ∀ g ∈ groups, ∀ start ∈ g.start?,
      (f g).get? name = some (.timeRange (period.bucketAt start))) :
    Dataset.arrange (p.bucketShape name period outputs).sort
        (p.bucketShape name period outputs).limit
        (((p.bucketShape name period outputs).shape.served groups).map f) =
      Dataset.arrange p.sort p.limit (groups.map f) := by
  unfold bucketShape
  split
  · next key hkey =>
    rw [hkey]
    split
    · next hname =>
      obtain ⟨n, direction⟩ := key
      obtain rfl : n = name := hname
      have hsort := Dataset.sortBy_buckets h hf direction
      cases direction <;> simp only [Dataset.arrange, Option.elim_some, hsort] <;> rfl
    · rfl
  · next hnone =>
    rw [hnone]
    rfl

/-- The ways in which groups by a dimension are asked for. An ordering by the key or by a native
column is the backend's, together with the limit; with any other sort nothing is. -/
theorem dimensionShape_cases (p : Pattern) (limits : Limits) (name dimension : String)
    (outputs : Outputs) :
    ((∀ key ∈ p.sort, outputs.isPushed key.name ∨ key.name = name) ∧
        p.dimensionShape limits name dimension outputs =
          ⟨.groupBy ⟨dimension, name⟩ outputs.aggregators p.sort (limits.capped p.limit),
            none, none⟩) ∨
      (∃ key n, p.sort = some key ∧ p.limit = some n ∧ outputs.isPushed key.name ∧
        p.dimensionShape limits name dimension outputs =
          ⟨.topN ⟨dimension, name⟩ key n outputs.aggregators, none, none⟩) ∨
      p.dimensionShape limits name dimension outputs =
        ⟨.groupBy ⟨dimension, name⟩ outputs.aggregators none limits.cap, p.sort, p.limit⟩ := by
  unfold dimensionShape
  cases p.sort with
  | none => exact .inl ⟨nofun, rfl⟩
  | some key =>
    simp only
    by_cases hpushed : outputs.isPushed key.name
    · rw [if_pos hpushed]
      cases p.limit with
      | none => exact .inl ⟨fun _ hkey => Option.some.inj hkey ▸ .inl hpushed, rfl⟩
      | some n => exact .inr (.inl ⟨key, n, rfl, rfl, hpushed, rfl⟩)
    · rw [if_neg hpushed]
      by_cases hname : key.name = name
      · rw [if_pos hname]
        exact .inl ⟨fun _ hkey => Option.some.inj hkey ▸ .inr hname, rfl⟩
      · rw [if_neg hname]
        exact .inr (.inr rfl)

/-- Sorting the rows as the pattern says is sorting the groups, if the cells that count come from
the groups. -/
theorem elim_sortBy_map
    (hf : ∀ key ∈ p.sort, ∀ g ∈ groups,
      ((f g).get? key.name).getD .null = recordCell g.record key.name) :
    p.sort.elim (groups.map f) (Dataset.sortBy · (groups.map f)) =
      (NativeGroup.sorted p.sort.toList groups).map f := by
  cases hsort : p.sort with
  | none => exact congrArg (List.map f) (NativeGroup.sorted_nil groups).symm
  | some key => exact Dataset.sortBy_groups (hf key hsort)

/-- Arranging the rows of the groups that are served gives the plain answer, if they are not too
many. -/
theorem arrange_dimensionShape {limits : Limits} {dimension : String}
    (hf : ∀ key ∈ p.sort, outputs.isPushed key.name ∨ key.name = name → ∀ g ∈ groups,
      ((f g).get? key.name).getD .null = recordCell g.record key.name)
    (hcap : limits.maxRows + 1 < Word.count ∨ groups.length < Word.count)
    (hfits : ((p.dimensionShape limits name dimension outputs).shape.served groups).length ≤
      limits.maxRows) :
    Dataset.arrange (p.dimensionShape limits name dimension outputs).sort
        (p.dimensionShape limits name dimension outputs).limit
        (((p.dimensionShape limits name dimension outputs).shape.served groups).map f) =
      Dataset.arrange p.sort p.limit (groups.map f) := by
  obtain ⟨hkeys, hshape⟩ | ⟨key, n, hsort, hlimit, hpushed, hshape⟩ | hshape :=
    p.dimensionShape_cases limits name dimension outputs
  · have hcells := elim_sortBy_map fun key hkey => hf key hkey (hkeys key hkey)
    have hlength : (NativeGroup.sorted p.sort.toList groups).length = groups.length :=
      List.length_mergeSort _
    rw [hshape] at hfits ⊢
    change ((NativeGroup.sorted p.sort.toList groups).take (limits.capped p.limit)).map f = _
    rw [Limits.take_capped (hlength ▸ hcap) hfits, Dataset.arrange, hcells]
    cases p.limit with
    | none => rfl
    | some n => exact List.map_take
  · have hcells := elim_sortBy_map fun k hk => by
      obtain rfl : key = k := Option.some.inj (hsort ▸ hk)
      exact hf key hk (.inl hpushed)
    rw [hshape]
    change ((NativeGroup.sorted [key] groups).take n).map f = _
    rw [Dataset.arrange, hlimit, Option.elim_some, hcells, hsort]
    exact List.map_take
  · have hall : (p.dimensionShape limits name dimension outputs).shape.served groups = groups := by
      rw [hshape] at hfits ⊢
      have hfits : ((NativeGroup.sorted [] groups).take (limits.capped none)).length ≤
        limits.maxRows := hfits
      change (NativeGroup.sorted [] groups).take (limits.capped none) = groups
      rw [NativeGroup.sorted_nil] at hfits ⊢
      exact Limits.take_capped hcap hfits
    rw [hall, hshape]

end Pattern

/-! ### The rows of groups -/

/-- Rows are grouped under the name of the split. -/
theorem Grouping.name_of_ofSplit {x : External} {split : SplitKey} {g : Grouping}
    (h : ofSplit x split = .ok g) : g.name = split.name := by
  unfold ofSplit at h
  split at h
  · split at h
    · exact nomatch h
    · split at h
      · exact nomatch h
      · split at h
        · exact nomatch h
        · exact Except.ok.inj h ▸ rfl
  · split at h
    · split at h
      · exact Except.ok.inj h ▸ rfl
      · exact nomatch h
    · exact nomatch h
  · exact nomatch h

namespace Pattern

/-- The query for groups groups rows as the pattern does. -/
theorem fits_groupShape (p : Pattern) (limits : Limits) (outputs : Outputs)
    (grouping : Grouping) : grouping.Fits (p.groupShape limits outputs grouping).shape := by
  cases grouping with
  | bucket name period time =>
    change Grouping.Fits _ (p.bucketShape name period outputs).shape
    unfold bucketShape
    split
    · split <;> trivial
    · trivial
  | dimension name dimension =>
    change Grouping.Fits _ (p.dimensionShape limits name dimension outputs).shape
    obtain ⟨-, h⟩ | ⟨key, n, -, -, -, h⟩ | h := p.dimensionShape_cases limits name dimension outputs
    · rw [h]
      trivial
    · rw [h]
      trivial
    · rw [h]
      trivial

/-- The grouping of a pattern that compiles fits the query. -/
theorem fits_of_compile {p : Pattern} {limits : Limits} {c : Compiled}
    (h : p.compile limits = .ok c) {grouping : Grouping} (hgrouping : c.grouping = some grouping) :
    grouping.Fits c.query.shape := by
  obtain ⟨r, -, ⟨-, -, h⟩ | ⟨o, -, -, h⟩ | ⟨o, split, -, -, h⟩⟩ := compile_eq_ok h
  · obtain ⟨span, -, rfl⟩ := compileRows_eq_ok h
    exact nomatch hgrouping
  · obtain ⟨-, span, -, rfl⟩ := compileTotals_eq_ok h
    exact nomatch hgrouping
  · obtain ⟨other, span, -, -, -, rfl⟩ := compileGroups_eq_ok h
    obtain rfl := Option.some.inj hgrouping
    exact p.fits_groupShape limits o other

/-- Arranging the finished rows of the groups that are served gives the plain answer, if they are
not too many: the cells that count come from the groups. -/
theorem arrange_groupShape {p : Pattern} {limits : Limits} {outputs : Outputs}
    {grouping : Grouping} {c : Compiled} {groups : List NativeGroup} {f : NativeGroup → Row}
    (hgrouping : c.grouping = some grouping) (hcolumns : c.columns = outputs.columns)
    (hf : ∀ name, outputs.isPushed name ∨ name = grouping.name → ∀ g ∈ groups,
      (f g).get? name = (c.decode g).get? name)
    (hstarts : ∀ name period time, grouping = .bucket name period time →
      NativeGroup.Ascending groups)
    (hcap : limits.maxRows + 1 < Word.count ∨ groups.length < Word.count)
    (hfits : ((p.groupShape limits outputs grouping).shape.served groups).length ≤
      limits.maxRows) :
    Dataset.arrange (p.groupShape limits outputs grouping).sort
        (p.groupShape limits outputs grouping).limit
        (((p.groupShape limits outputs grouping).shape.served groups).map f) =
      Dataset.arrange p.sort p.limit (groups.map f) := by
  cases grouping with
  | bucket name period time =>
    refine arrange_bucketShape (hstarts name period time rfl) fun g hg start hstart => ?_
    rw [hf name (.inr rfl) g hg, Compiled.decode, hgrouping, hstart]
    exact Row.get?_put _ _ _
  | dimension name dimension =>
    refine arrange_dimensionShape (fun key hsort hname g hg => ?_) hcap hfits
    rw [hf key.name hname g hg, Compiled.decode_of_dimension hgrouping, Compiled.get?_row,
      hgrouping, if_pos]
    · rfl
    · refine hname.imp (fun hname => ?_) fun hname => decide_eq_true hname.symm
      rw [hcolumns]
      exact List.contains_iff_mem.1 (Bool.and_eq_true_iff.1 hname).1

end Pattern

/-! ### A backend that does what documents say -/

namespace Sample

/-- A backend that holds groups and does what documents say. -/
def honour (groups : List NativeGroup) (_ : Unit) (r : Request) : Reply × Unit :=
  match r.query.textAt? "queryType" with
  | some "groupBy" =>
    let sorted := NativeGroup.sorted r.query.orderKeys groups
    let kept :=
      match r.query.orderLimit? with
      | some limit => sorted.take limit
      | none => sorted
    ([.ok (.array (kept.map fun g => .object [("event", .object g.record)]))], ())
  | some "topN" =>
    match r.query.metricKey?, r.query.topThreshold? with
    | some key, some threshold =>
      let kept := (NativeGroup.sorted [key] groups).take threshold
      ([.ok (.array [.object [("result", .array (kept.map fun g => .object g.record))]])], ())
    | _, _ => ([], ())
  | some "timeseries" =>
    let kept := if r.query.isDescending then groups.reverse else groups
    ([.ok (.array (kept.map fun g =>
      .object [("result", .object g.record), ("timestamp", g.timestamp)]))], ())
  | _ => ([], ())

theorem items_array (items : List Json) : Reply.items [.ok (.array items)] = .ok items :=
  congrArg Except.ok (List.append_nil items)

theorem honour_honoursDocument (groups : List NativeGroup) :
    HonoursDocument (honour groups) groups where
  groupBy s r htype := by
    refine ⟨_, by simp only [honour, htype]; exact items_array _, ?_⟩
    rw [AreGroups, List.forall₂_map_left_iff, List.forall₂_same]
    exact fun g _ => rfl
  topN s r key threshold htype hkey hthreshold := by
    refine ⟨_, by simp only [honour, htype, hkey, hthreshold]; exact items_array _,
      [(NativeGroup.sorted [key] groups).take threshold], List.append_nil _, .cons rfl .nil⟩
  timeseries s r htype := by
    refine ⟨_, by simp only [honour, htype]; exact items_array _, ?_⟩
    rw [AreSteps, List.forall₂_map_left_iff, List.forall₂_same]
    exact fun g _ => ⟨rfl, rfl⟩

/-- The edits by language, English and then German ones: their number, and for the average of added
characters their sum and how many of them there are. -/
def languages : List NativeGroup :=
  [⟨.null, [("Language", .string "en"), ("Edits", .int 4), ("!T_0", .int 10), ("!T_1", .int 4)]⟩,
    ⟨.null, [("Language", .string "de"), ("Edits", .int 1), ("!T_0", .int 6), ("!T_1", .int 1)]⟩]

/-- The row of a language, with the average of added characters. -/
def languageRow (language : String) (edits : Int) (average : Float) : Row :=
  [("Average", .number average), ("Edits", .number (Float.ofInt edits)),
    ("Language", .string language)]

/-- The pattern of the language with the highest average of added characters. -/
def boldestLanguage : Pattern :=
  { source := .ofExternal edits
    dataName := "edits"
    split := some ⟨.ref "language", "Language"⟩
    applies := [("Edits", .scalar (.count (.ref "edits"))),
      ("Average", .scalar (.binary (.measure .average) (.ref "edits") (.ref "added")))]
    sort := some ⟨"Average", .descending⟩
    limit := some 1 }

end Sample

/-! ### Any part of the sort and the limit -/

namespace Pattern

/-- **Leaving the sort and the limit to the backend does not change the answer.** Take a pattern
of groups that compiles, in which the split and the results have different names that are no
hidden ones, and a backend that honours the document and holds any groups, no more of them than a
word can count unless the cap is below that; buckets of time come in order. If every derived value
can be computed for every group, then the rows before nested patterns are computed are the plain
answer, or there are more groups than rows may be fetched and the result is too large. -/
theorem finished_eq_plainAnswer {σ : Type} {answer : σ → Request → Reply × σ}
    {groups : List NativeGroup} {p : Pattern} {config : Config} {c : Compiled} {split : SplitKey}
    {scope : Scope} {plain : Dataset} (hcompile : p.compile config.limits = .ok c)
    (hsplit : p.split = some split) (hnames : (split.name :: p.applies.map Prod.fst).Nodup)
    (hvisible : ∀ name ∈ split.name :: p.applies.map Prod.fst, ¬IsHiddenName name)
    (hhonours : HonoursDocument answer groups)
    (hstarts : ∀ name period time, c.grouping = some (.bucket name period time) →
      NativeGroup.Ascending groups)
    (hcap : config.maxRows + 1 < Word.count ∨ groups.length < Word.count)
    (hplain : p.plainAnswer c scope groups = .ok plain) (s : σ) :
    ((c.finished config p.source.external scope).run answer s).1 = .ok plain ∨
      ((c.finished config p.source.external scope).run answer s).1 =
          .error (.resultTooLarge config.maxRows) ∧
        config.maxRows < groups.length := by
  obtain ⟨r, -, ⟨hnone, -, -⟩ | ⟨-, hnone, -, -⟩ | ⟨outputs, split', hsplit', houtputs, hgroups⟩⟩ :=
    compile_eq_ok hcompile
  · exact nomatch hnone.symm.trans hsplit
  · exact nomatch hnone.symm.trans hsplit
  obtain rfl : split' = split := Option.some.inj (hsplit'.symm.trans hsplit)
  obtain ⟨grouping, span, hgrouping, -, -, hc⟩ := compileGroups_eq_ok hgroups
  have hcgrouping : c.grouping = some grouping := by rw [hc]
  have hshape : c.query.shape = (p.groupShape config.limits outputs grouping).shape := by rw [hc]
  have hsort : c.finish.sort = (p.groupShape config.limits outputs grouping).sort := by rw [hc]
  have hlimit : c.finish.limit = (p.groupShape config.limits outputs grouping).limit := by rw [hc]
  -- Finishing leaves the key and the pushed columns of a row alone.
  obtain ⟨derive, hderive, rfl⟩ := Finish.exists_derive hplain
  have hnamed := named_outputs houtputs (List.nodup_cons.1 hnames).2
  have hf : ∀ name, outputs.isPushed name ∨ name = grouping.name → ∀ g ∈ groups,
      (c.finish.dropHidden (derive (c.decode g))).get? name = (c.decode g).get? name := by
    intro name hname g hg
    have hleft : name ∉ c.finish.derived.map Prod.fst ∧ name ∉ c.finish.hidden := by
      rw [hc]
      obtain hname | rfl := hname
      · exact hnamed.of_isPushed hname
      · rw [Grouping.name_of_ofSplit hgrouping]
        exact hnamed.of_not_mem (List.nodup_cons.1 hnames).1 (hvisible _ List.mem_cons_self)
    exact Finish.get?_finished (hderive _ (List.mem_map_of_mem hg)) hleft.1 hleft.2
  -- The rows that are fetched are those of the groups that are served.
  obtain ⟨s', hfetch⟩ := Compiled.fetch_groups hcgrouping (hshape ▸ p.fits_groupShape _ _ _)
    (by rw [hc]) hhonours (fun name period time h => (hstarts name period time (h ▸ hcgrouping)).1)
    config p.source.external s
  rw [Compiled.run_finished scope hfetch, List.length_map]
  by_cases hfits : config.maxRows < (c.query.shape.served groups).length
  · rw [if_pos hfits]
    exact .inr ⟨rfl, Nat.lt_of_lt_of_le hfits (c.query.shape.length_served_le groups)⟩
  · rw [if_neg hfits]
    refine .inl (Except.mapError_eq_ok.2 ?_)
    have hserved : ∀ row ∈ (c.query.shape.served groups).map c.decode,
        row.derive scope c.finish.derived = .ok (derive row) := by
      intro row hrow
      obtain ⟨g, hg, rfl⟩ := List.mem_map.1 hrow
      exact hderive _ (List.mem_map_of_mem (Shape.mem_of_mem_served hg))
    rw [Finish.apply_of_derive hserved, hsort, hlimit, hshape, List.map_map]
    refine congrArg Except.ok ((arrange_groupShape hcgrouping (by rw [hc]) hf
      (fun name period time h => hstarts name period time (h ▸ hcgrouping)) hcap ?_).trans ?_)
    · rw [← hshape]
      exact Nat.not_lt.1 hfits
    · rw [List.map_map]
      rfl

open Sample in
/-- The averages are computed from hidden columns after all groups have come, and the first row of
the sorted ones is kept. -/
theorem finished_eq_plainAnswer_boldestLanguage :
    ∃ c split plain, boldestLanguage.compile Config.standard.limits = .ok c ∧
      c.finish.hidden = ["!T_0", "!T_1"] ∧ c.finish.derived.map Prod.fst = ["Average"] ∧
      boldestLanguage.split = some split ∧
      (split.name :: boldestLanguage.applies.map Prod.fst).Nodup ∧
      (∀ name ∈ split.name :: boldestLanguage.applies.map Prod.fst, ¬IsHiddenName name) ∧
      HonoursDocument (honour languages) languages ∧
      (∀ name period time, c.grouping = some (.bucket name period time) →
        NativeGroup.Ascending languages) ∧
      Config.standard.maxRows + 1 < Word.count ∧
      boldestLanguage.plainAnswer c [] languages = .ok plain ∧
      plain = [languageRow "de" 1 6] ∧
      ((c.finished Config.standard edits []).run (honour languages) ()).1 = .ok plain := by
  have hsort : Dataset.sortBy ⟨"Average", .descending⟩
      [languageRow "en" 4 (10 / 4), languageRow "de" 1 (6 / 1)] =
        [languageRow "de" 1 (6 / 1), languageRow "en" 4 (10 / 4)] := by
    have hgt : Dataset.compareBy ⟨"Average", .descending⟩ (languageRow "en" 4 (10 / 4))
        (languageRow "de" 1 (6 / 1)) = .gt := by decide +kernel
    simp [Dataset.sortBy, List.mergeSort, hgt]
  obtain ⟨c, hcompile, hhidden, hderived, hgrouping, hplain⟩ : ∃ c,
      boldestLanguage.compile Config.standard.limits = .ok c ∧
      c.finish.hidden = ["!T_0", "!T_1"] ∧ c.finish.derived.map Prod.fst = ["Average"] ∧
      c.grouping = some (.dimension "Language" "language") ∧
      boldestLanguage.plainAnswer c [] languages = .ok [languageRow "de" 1 (6 / 1)] :=
    ⟨_, rfl, rfl, rfl, rfl, congrArg
      (fun rows : Dataset => Except.ok (ε := ExpressionError) (rows.take 1)) hsort⟩
  have hquotient : (6 / 1 : Float) = 6 := by decide +kernel
  have hnames : ("Language" :: boldestLanguage.applies.map Prod.fst).Nodup := by decide
  have hvisible : ∀ name ∈ "Language" :: boldestLanguage.applies.map Prod.fst,
      ¬IsHiddenName name := by decide
  have hstarts : ∀ name period time, c.grouping = some (.bucket name period time) →
      NativeGroup.Ascending languages := fun _ _ _ h => nomatch hgrouping.symm.trans h
  have hcap : Config.standard.maxRows + 1 < Word.count := by decide
  have hhonours := honour_honoursDocument languages
  refine ⟨c, _, _, hcompile, hhidden, hderived, rfl, hnames, hvisible, hhonours, hstarts, hcap,
    hplain, congrArg (fun average => [languageRow "de" 1 average]) hquotient, ?_⟩
  obtain h | ⟨-, h⟩ := finished_eq_plainAnswer hcompile rfl hnames hvisible hhonours hstarts
    (.inl hcap) hplain ()
  · exact h
  · exact absurd h (by decide)

end Pattern

end FederatedQuery
