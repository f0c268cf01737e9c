import FederatedQuery.Proofs.FanOut
import FederatedQuery.Proofs.Ordering

/-!
# The columns of an answer

The rows of a pattern have the names that were chosen for its results and for the keys of its
groups. A row begins with the key of its group and the native columns, under their names; values
are derived into it, hidden columns dropped, and the datasets of nested patterns written into it,
for the group that the key in the row stands for.

All of this goes by name. A chosen name that is also the name of a hidden column is dropped with
it, and a derived value that has the name of the key takes its place.

## Main definitions

* `Pattern.names`: the chosen names.
* `Outputs.Lists`: the names of the outputs of results.
* `Native.Shape.Holds`, `Grouping.keyOf`: the groups in a reply, and their keys.
* `Pattern.OfGroup`: the rows that keep the key of their group.

## Main results

* `Pattern.lists_outputs`: hidden columns are numbered, and the others have the names of results.
* `Compiled.exists_group`: the rows of a reply are those of its groups.
* `Pattern.of_run_ok`: the way of a row into the answer.
* `Pattern.run_columns`: the columns of an answer.
-/

namespace FederatedQuery

open Activity Native

/-! ### The names of results -/

namespace Body

/-- The backend computes the result. -/
def isNative : Body Pattern → Bool
  | .scalar e => Outputs.isNative e
  | .nested _ => false

/-- The result is derived from others. -/
def isDerived : Body Pattern → Bool
  | .scalar e => !Outputs.isNative e
  | .nested _ => false

/-- The result is a dataset. -/
def isNested : Body Pattern → Bool
  | .scalar _ => false
  | .nested _ => true

/-- A result is of one of three kinds. -/
theorem isNative_or_isDerived_or_isNested (body : Body Pattern) :
    body.isNative ∨ body.isDerived ∨ body.isNested := by
  cases body with
  | scalar e => cases h : Outputs.isNative e <;> simp [isNative, isDerived, h]
  | nested pattern => exact .inr (.inr rfl)

end Body

namespace Pattern

/-- The names of the results of some kind. -/
def namesOf (applies : List (String × Body Pattern)) (kind : Body Pattern → Bool) : List String :=
  (applies.filter fun result => kind result.2).map Prod.fst

theorem namesOf_append (applies others : List (String × Body Pattern))
    (kind : Body Pattern → Bool) :
    namesOf (applies ++ others) kind = namesOf applies kind ++ namesOf others kind := by
  rw [namesOf, List.filter_append, List.map_append]
  rfl

/-- The names of all results are those of the three kinds. -/
theorem mem_names_iff {applies : List (String × Body Pattern)} {name : String} :
    name ∈ applies.map Prod.fst ↔ (name ∈ namesOf applies Body.isNative ∨
      name ∈ namesOf applies Body.isDerived) ∨ name ∈ namesOf applies Body.isNested := by
  constructor
  · intro h
    obtain ⟨result, hmem, rfl⟩ := List.mem_map.1 h
    have hkind {kind : Body Pattern → Bool} (h : kind result.2) : result.1 ∈ namesOf applies kind :=
      List.mem_map_of_mem (List.mem_filter.2 ⟨hmem, h⟩)
    obtain h | h | h := result.2.isNative_or_isDerived_or_isNested
    · exact .inl (.inl (hkind h))
    · exact .inl (.inr (hkind h))
    · exact .inr (hkind h)
  · have hsub (kind : Body Pattern → Bool) (h : name ∈ namesOf applies kind) :
        name ∈ applies.map Prod.fst := by
      obtain ⟨result, hmem, rfl⟩ := List.mem_map.1 h
      exact List.mem_map_of_mem (List.mem_filter.1 hmem).1
    rintro ((h | h) | h) <;> exact hsub _ h

/-- The names that have been chosen for the keys of groups and for results. -/
def names (p : Pattern) : List String :=
  (p.split.map SplitKey.name).toList ++ p.applies.map Prod.fst

/-- The names of the values that are derived. -/
def derivedNames (p : Pattern) : List String := namesOf p.applies Body.isDerived

/-- The names of the nested patterns. -/
def nestedNames (p : Pattern) : List String := p.nestedPatterns.map Prod.fst

theorem nestedNames_eq (p : Pattern) : p.nestedNames = namesOf p.applies Body.isNested := by
  rw [nestedNames, nestedPatterns, namesOf]
  induction p.applies with
  | nil => rfl
  | cons result applies ih =>
    obtain ⟨name, body⟩ := result
    cases body with
    | scalar e => exact ih
    | nested pattern => exact congrArg (name :: ·) ih

end Pattern

/-! ### The names of outputs -/

/-- The outputs of results: hidden columns are numbered, values are derived for those results that
the backend does not compute, and the native columns are the hidden ones and those of the other
results. -/
structure Outputs.Lists (o : Outputs) (applies : List (String × Body Pattern)) : Prop where
  hidden : o.hidden = (List.range o.hidden.length).map hiddenName
  derived : o.derived.map Prod.fst = Pattern.namesOf applies Body.isDerived
  columns : ∀ name, name ∈ o.columns ↔ name ∈ o.hidden ∨
    name ∈ Pattern.namesOf applies Body.isNative

namespace Pattern

/-- Outputs with one more result. -/
theorem lists_addOutput {p : Pattern} {done : List (String × Body Pattern)} {o o' : Outputs}
    {result : String × Body Pattern} (hlists : o.Lists done) (h : p.addOutput o result = .ok o') :
    o'.Lists (done ++ [result]) := by
  obtain ⟨name, body⟩ := result
  cases body with
  | nested pattern =>
    obtain rfl : o = o' := Except.ok.inj h
    have hnone (kind : Body Pattern → Bool) (h : kind (.nested pattern) = false) :
        namesOf [(name, .nested pattern)] kind = [] := by simp [namesOf, h]
    refine ⟨hlists.hidden, ?_, fun n => ?_⟩
    · rw [namesOf_append, hlists.derived, hnone _ rfl, List.append_nil]
    · rw [namesOf_append, hlists.columns, hnone _ rfl, List.append_nil]
  | scalar e =>
    by_cases hnative : Outputs.isNative e
    · have hpushed : namesOf [(name, .scalar e)] Body.isNative = [name] := by
        simp [namesOf, Body.isNative, hnative]
      have hnone : namesOf [(name, .scalar e)] Body.isDerived = [] := by
        simp [namesOf, Body.isDerived, hnative]
      have hadded : o.addAggregate p.source.external p.dataName name e = .ok o' := by
        rw [← h]
        exact (if_pos hnative).symm
      obtain ⟨hcolumns, hhidden, hderived⟩ := Outputs.addAggregate_eq_ok hadded
      refine ⟨?_, ?_, fun n => ?_⟩
      · rw [hhidden]
        exact hlists.hidden
      · rw [hderived, namesOf_append, hnone, List.append_nil, hlists.derived]
      · rw [hcolumns, hhidden, namesOf_append, hpushed, List.mem_append, List.mem_append,
          hlists.columns, or_assoc]
    · have hnone : namesOf [(name, .scalar e)] Body.isNative = [] := by
        simp [namesOf, Body.isNative, hnative]
      have hone : namesOf [(name, .scalar e)] Body.isDerived = [name] := by
        simp [namesOf, Body.isDerived, hnative]
      obtain ⟨new, e', hhides, -, hderived⟩ :=
        (Outputs.addApply_eq_ok h).resolve_left fun h => hnative h.1
      have hcolumns : o'.columns = o.columns ++ new := hhides.columns
      have hhidden : o'.hidden = o.hidden ++ new := hhides.hidden
      refine ⟨?_, ?_, fun n => ?_⟩
      · have hnew := hhides.numbered
        rw [hhidden, List.length_append, List.range_eq_range', ← List.range'_append_1,
          List.map_append, ← List.range_eq_range', ← hlists.hidden, Nat.zero_add, ← hnew]
      · rw [hderived, List.map_append, namesOf_append, hone, hlists.derived]
        rfl
      · rw [hcolumns, hhidden, namesOf_append, hnone, List.append_nil, List.mem_append,
          List.mem_append, hlists.columns, or_right_comm]

/-- **The names of outputs.** -/
theorem lists_outputs {p : Pattern} {o : Outputs} (h : p.outputs = .ok o) : o.Lists p.applies := by
  have hnone : Outputs.none.Lists [] := ⟨rfl, rfl, fun name => ⟨nofun, nofun⟩⟩
  exact Except.foldlM_induction (motive := fun done o => o.Lists done) h hnone
    fun done result o o' hlists hadded => lists_addOutput hlists hadded

/-- What a compiled pattern of groups or totals takes over from the outputs of the pattern. -/
structure Columnar (p : Pattern) (c : Compiled) (o : Outputs) : Prop where
  outputs : p.outputs = .ok o
  columns : c.columns = o.columns
  derived : c.finish.derived = o.derived
  hidden : c.finish.hidden = o.hidden
  paging : c.paging = none
  key : c.grouping.map Grouping.name = p.split.map SplitKey.name
  fits : ∀ grouping, c.grouping = some grouping → grouping.Fits c.query.shape
  nested : c.grouping = none → p.nestedPatterns = []

/-- A pattern of groups or totals. -/
theorem columnar_of_compile {p : Pattern} {limits : Limits} {c : Compiled}
    (h : p.compile limits = .ok c) (hshape : p.split.isSome ∨ p.applies ≠ []) :
    ∃ o, p.Columnar c o := by
  obtain ⟨r, -, ⟨hsplit, happlies, -⟩ | ⟨o, hsplit, ho, h⟩ | ⟨o, split, hsplit, ho, h⟩⟩ :=
    compile_eq_ok h
  · rw [hsplit] at hshape
    exact absurd happlies (hshape.resolve_left nofun)
  · obtain ⟨hnested, span, -, rfl⟩ := compileTotals_eq_ok h
    exact ⟨o, ho, rfl, rfl, rfl, rfl, hsplit ▸ rfl, nofun, fun _ => hnested⟩
  · obtain ⟨grouping, span, hgrouping, -, -, rfl⟩ := compileGroups_eq_ok h
    refine ⟨o, ho, rfl, rfl, rfl, rfl, ?_, ?_, nofun⟩
    · rw [hsplit]
      exact congrArg some (Grouping.name_of_ofSplit hgrouping)
    · rintro other ⟨⟩
      exact p.fits_groupShape limits o grouping

end Pattern

/-! ### The groups in a reply -/

/-- An item of the reply to a query of the given shape holds a group. -/
def Native.Shape.Holds (item : Json) (g : NativeGroup) : Shape → Prop
  | .timeseries .. | .totals _ =>
    item.get? "result" = some (.object g.record) ∧ item.get? "timestamp" = some g.timestamp
  | .topN .. => ∃ records, item.get? "result" = some (.array records) ∧ .object g.record ∈ records
  | .groupBy .. => item.get? "event" = some (.object g.record)
  | .select .. => False

/-- The key of a group, as the backend has returned it. -/
def Grouping.keyOf (g : NativeGroup) : Grouping → Value
  | .dimension name _ => recordCell g.record name
  | .bucket _ period _ => g.start?.elim .null fun start => .timeRange (period.bucketAt start)

namespace Json

theorem eq_object_of_fields? {j : Option Json} {fields : Fields}
    (h : j.bind fields? = some fields) : j = some (.object fields) := by
  obtain ⟨j, rfl, h⟩ := Option.bind_eq_some_iff.1 h
  cases j with
  | object fields =>
    cases h
    rfl
  | _ => exact nomatch h

theorem eq_array_of_items? {j : Option Json} {items : List Json}
    (h : j.bind items? = some items) : j = some (.array items) := by
  obtain ⟨j, rfl, h⟩ := Option.bind_eq_some_iff.1 h
  cases j with
  | array items =>
    cases h
    rfl
  | _ => exact nomatch h

end Json

namespace Compiled

variable {c : Compiled} {items : List Json} {rows : List Row} {row : Row}

/-- The row of a group for which no time is given. -/
theorem decode_null (c : Compiled) (record : Json.Fields) :
    c.decode ⟨.null, record⟩ = c.row record := by
  unfold decode
  cases c.grouping with
  | none => rfl
  | some grouping => cases grouping <;> rfl

/-- A row begins with the native columns and the key of its group. -/
theorem isSome_get?_decode (c : Compiled) (g : NativeGroup) (name : String) :
    ((c.decode g).get? name).isSome ↔
      name ∈ c.columns ∨ c.grouping.map Grouping.name = some name := by
  have hrow : ((c.row g.record).get? name).isSome ↔
      name ∈ c.columns ∨ c.grouping.map Grouping.name = some name := by
    have hkey : c.grouping.any (·.name = name) ↔ c.grouping.map Grouping.name = some name := by
      cases c.grouping <;> simp
    rw [get?_row, ← hkey]
    split
    · next h => exact iff_of_true rfl h
    · next h => exact iff_of_false nofun h
  unfold decode
  split
  · next n period time start hgrouping hstart =>
    rw [Row.get?_put_eq]
    split
    · next h =>
      refine iff_of_true rfl (.inr ?_)
      rw [hgrouping, h]
      rfl
    · exact hrow
  · exact hrow

/-- The row of a group begins with the key that the backend has returned. -/
theorem get?_decode_key {grouping : Grouping} (hgrouping : c.grouping = some grouping)
    {g : NativeGroup} (hstart : ∀ name period time, grouping = .bucket name period time →
      g.start?.isSome) :
    (c.decode g).get? grouping.name = some (grouping.keyOf g) := by
  cases grouping with
  | dimension name dimension =>
    rw [decode_of_dimension hgrouping, get?_row, hgrouping, if_pos]
    · rfl
    · exact .inr (decide_eq_true rfl)
  | bucket name period time =>
    obtain ⟨start, hstart⟩ := Option.isSome_iff_exists.1 (hstart _ _ _ rfl)
    rw [decode, Grouping.keyOf, hgrouping, hstart]
    exact Row.get?_put _ _ _

/-- A row in a step of a series. -/
theorem of_seriesRow {item : Json} (h : c.seriesRow item = .ok row) :
    ∃ g, row = c.decode g ∧ item.get? "result" = some (.object g.record) ∧
      ∀ name period time, c.grouping = some (.bucket name period time) →
        g.start?.isSome ∧ item.get? "timestamp" = some g.timestamp := by
  unfold seriesRow at h
  split at h
  · cases h
  next record hrecord =>
  have hresult := Json.eq_object_of_fields? hrecord
  split at h
  · next name period time hgrouping =>
    split at h
    · next start hstart =>
      cases h
      cases htimestamp : item.get? "timestamp" with
      | none =>
        rw [htimestamp] at hstart
        cases hstart
      | some timestamp =>
        rw [htimestamp] at hstart
        have hgroup : NativeGroup.start? ⟨timestamp, record⟩ = some start := hstart
        refine ⟨⟨timestamp, record⟩, ?_, hresult, fun _ _ _ _ => ⟨hgroup ▸ rfl, rfl⟩⟩
        rw [decode, hgrouping, hgroup]
    · cases h
  · next hnone =>
    cases h
    exact ⟨⟨.null, record⟩, (c.decode_null record).symm, hresult,
      fun name period time h => absurd h (hnone name period time)⟩

/-- The rows in the steps of a series. Totals of no rows have none. -/
theorem of_series (h : (do
      let rows ← items.mapM c.seriesRow
      .ok (if rows.isEmpty && c.grouping.isNone then [c.row []] else rows)) = .ok rows)
    (hrow : row ∈ rows) :
    ∃ g, row = c.decode g ∧ ∀ name period time, c.grouping = some (.bucket name period time) →
      g.start?.isSome ∧ ∃ item ∈ items, item.get? "result" = some (.object g.record) ∧
        item.get? "timestamp" = some g.timestamp := by
  obtain ⟨read, hread, h⟩ := Except.bind_eq_ok.1 h
  obtain rfl := Except.ok.inj h
  obtain ⟨rowOf, hrowOf, rfl⟩ := Except.exists_of_mapM_eq_ok hread
  split at hrow
  · next hnone =>
    rw [List.mem_singleton.1 hrow]
    refine ⟨⟨.null, []⟩, (c.decode_null []).symm, fun name period time hgrouping => ?_⟩
    rw [hgrouping, Option.isNone_some, Bool.and_false] at hnone
    exact nomatch hnone
  · obtain ⟨item, hitem, rfl⟩ := List.mem_map.1 hrow
    obtain ⟨g, hg, hresult, hbucket⟩ := of_seriesRow (hrowOf item hitem)
    refine ⟨g, hg, fun name period time hgrouping => ?_⟩
    obtain ⟨hstart, htimestamp⟩ := hbucket name period time hgrouping
    exact ⟨hstart, item, hitem, hresult, htimestamp⟩

/-- The rows in the lists of foremost groups. -/
theorem of_topRows {item : Json} (h : c.topRows item = .ok rows) (hrow : row ∈ rows) :
    ∃ g, row = c.decode g ∧
      ∃ records, item.get? "result" = some (.array records) ∧ .object g.record ∈ records := by
  unfold topRows at h
  split at h
  · exact nomatch h
  next records hrecords =>
  obtain ⟨rowOf, hrowOf, rfl⟩ := Except.exists_of_mapM_eq_ok h
  obtain ⟨record, hrecord, rfl⟩ := List.mem_map.1 hrow
  have hfields := hrowOf record hrecord
  split at hfields
  · next fields hobject =>
    have hsome : (some record).bind Json.fields? = some fields := hobject
    obtain rfl := Option.some.inj (Json.eq_object_of_fields? hsome)
    refine ⟨⟨.null, fields⟩, ?_, records, Json.eq_array_of_items? hrecords, hrecord⟩
    rw [decode_null, Except.ok.inj hfields]
  · exact nomatch hfields

/-- The row in a group. -/
theorem of_groupRow {item : Json} (h : c.groupRow item = .ok row) :
    ∃ g, row = c.decode g ∧ item.get? "event" = some (.object g.record) := by
  unfold groupRow at h
  split at h
  · next record hrecord =>
    cases h
    exact ⟨⟨.null, record⟩, (c.decode_null record).symm, Json.eq_object_of_fields? hrecord⟩
  · exact nomatch h

/-- **The rows of a reply are those of its groups.** They begin with the keys of the groups. -/
theorem exists_group (hfits : ∀ grouping, c.grouping = some grouping → grouping.Fits c.query.shape)
    (h : c.rows items = .ok rows) (hrow : row ∈ rows) :
    ∃ g, row = c.decode g ∧ ∀ grouping, c.grouping = some grouping →
      (∃ item ∈ items, c.query.shape.Holds item g) ∧
        row.get? grouping.name = some (grouping.keyOf g) := by
  unfold Compiled.rows at h
  cases hshape : c.query.shape with
  | select =>
    rw [hshape] at h
    cases h
    exact nomatch hrow
  | totals aggregators =>
    rw [hshape] at h hfits
    obtain ⟨g, rfl, -⟩ := of_series h hrow
    refine ⟨g, rfl, fun grouping hgrouping => ?_⟩
    cases grouping <;> exact (hfits _ hgrouping).elim
  | timeseries period aggregators descending =>
    rw [hshape] at h hfits
    obtain ⟨g, rfl, hbucket⟩ := of_series h hrow
    refine ⟨g, rfl, fun grouping hgrouping => ?_⟩
    cases grouping with
    | dimension => exact (hfits _ hgrouping).elim
    | bucket name period time =>
      obtain ⟨hstart, hholds⟩ := hbucket name period time hgrouping
      exact ⟨hholds, get?_decode_key hgrouping fun _ _ _ _ => hstart⟩
  | topN dimension metric threshold aggregators =>
    rw [hshape] at h hfits
    obtain ⟨parts, hparts, rfl⟩ := Except.map_eq_ok.1 h
    obtain ⟨part, hpart, hrow⟩ := List.mem_flatten.1 hrow
    obtain ⟨rowsOf, hrowsOf, rfl⟩ := Except.exists_of_mapM_eq_ok hparts
    obtain ⟨item, hitem, rfl⟩ := List.mem_map.1 hpart
    obtain ⟨g, rfl, hholds⟩ := of_topRows (hrowsOf item hitem) hrow
    refine ⟨g, rfl, fun grouping hgrouping => ?_⟩
    cases grouping with
    | dimension => exact ⟨⟨item, hitem, hholds⟩, get?_decode_key hgrouping nofun⟩
    | bucket => exact (hfits _ hgrouping).elim
  | groupBy dimension aggregators order limit =>
    rw [hshape] at h hfits
    obtain ⟨rowOf, hrowOf, rfl⟩ := Except.exists_of_mapM_eq_ok h
    obtain ⟨item, hitem, rfl⟩ := List.mem_map.1 hrow
    obtain ⟨g, hg, hholds⟩ := of_groupRow (hrowOf item hitem)
    rw [hg]
    refine ⟨g, rfl, fun grouping hgrouping => ?_⟩
    cases grouping with
    | dimension => exact ⟨⟨item, hitem, hholds⟩, get?_decode_key hgrouping nofun⟩
    | bucket => exact (hfits _ hgrouping).elim

end Compiled

/-! ### From a fetched row to a row of the answer -/

namespace Row

theorem get?_extend_of_not_mem (row : Row) {cells : List (String × Value)} {name : String}
    (h : name ∉ cells.map Prod.fst) : (row.extend cells).get? name = row.get? name := by
  induction cells generalizing row with
  | nil => rfl
  | cons cell cells ih =>
    rw [List.map_cons, List.mem_cons, not_or] at h
    exact (ih _ h.2).trans (get?_put_of_ne row cell.2 h.1)

theorem isSome_get?_put (row : Row) (name : String) (value : Value) (other : String) :
    ((row.put name value).get? other).isSome ↔ other = name ∨ (row.get? other).isSome := by
  rw [get?_put_eq]
  split
  · next h => exact iff_of_true rfl (.inl h)
  · next h => exact (or_iff_right h).symm

/-- A row that is extended has the names of both. -/
theorem isSome_get?_extend (row : Row) (cells : List (String × Value)) (name : String) :
    ((row.extend cells).get? name).isSome ↔
      name ∈ cells.map Prod.fst ∨ (row.get? name).isSome := by
  induction cells generalizing row with
  | nil => exact (or_iff_right List.not_mem_nil).symm
  | cons cell cells ih =>
    rw [List.map_cons, List.mem_cons, or_assoc, or_left_comm, ← isSome_get?_put]
    exact ih _

/-- A row into which values are derived has their names and its own. -/
theorem isSome_get?_derive {scope : Scope} {row row' : Row} {derived : List (String × Expression)}
    (h : row.derive scope derived = .ok row') (name : String) :
    (row'.get? name).isSome ↔ name ∈ derived.map Prod.fst ∨ (row.get? name).isSome := by
  refine Except.foldlM_induction (motive := fun done next => (next.get? name).isSome ↔
    name ∈ done.map Prod.fst ∨ (row.get? name).isSome) h (or_iff_right List.not_mem_nil).symm
    fun done entry next last hdone hlast => ?_
  obtain ⟨value, -, ⟨⟩⟩ := Except.bind_eq_ok.1 hlast
  rw [isSome_get?_put, hdone, List.map_append, List.mem_append, List.map_singleton,
    List.mem_singleton, or_left_comm, or_assoc]

end Row

/-- Arranging brings no new rows. -/
theorem Dataset.mem_of_mem_arrange {sort : Option SortKey} {limit : Option Nat} {rows : Dataset}
    {row : Row} (h : row ∈ Dataset.arrange sort limit rows) : row ∈ rows := by
  have hsorted (h : row ∈ sort.elim rows (sortBy · rows)) : row ∈ rows := by
    cases sort with
    | none => exact h
    | some key => exact (sortBy_perm key rows).subset h
  cases limit with
  | none => exact hsorted h
  | some limit => exact hsorted (List.mem_of_mem_take h)

/-- A finished row is a fetched one with derived values and without hidden columns. -/
theorem Finish.exists_of_mem {f : Finish} {scope : Scope} {fetched finished : List Row} {row : Row}
    (h : f.apply scope fetched = .ok finished) (hrow : row ∈ finished) :
    ∃ origin ∈ fetched, ∃ derived, origin.derive scope f.derived = .ok derived ∧
      row = f.dropHidden derived := by
  obtain ⟨derive, hderive, rfl⟩ := exists_derive h
  obtain ⟨origin, horigin, rfl⟩ := List.mem_map.1 (Dataset.mem_of_mem_arrange hrow)
  exact ⟨origin, horigin, _, hderive origin horigin, rfl⟩

/-- Finishing loses no row but those beyond the limit. -/
theorem Finish.length_of_apply {f : Finish} {scope : Scope} {fetched finished : List Row}
    (h : f.apply scope fetched = .ok finished) :
    finished.length = f.limit.elim fetched.length (min · fetched.length) := by
  obtain ⟨derive, -, rfl⟩ := exists_derive h
  have hsorted (rows : List Row) :
      (f.sort.elim rows (Dataset.sortBy · rows)).length = rows.length := by
    cases f.sort with
    | none => rfl
    | some key => exact (Dataset.sortBy_perm key rows).length_eq
  have hall := hsorted (fetched.map fun row => f.dropHidden (derive row))
  rw [List.length_map] at hall
  unfold Dataset.arrange
  cases f.limit with
  | none => exact hall
  | some limit => rw [Option.elim_some, List.length_take, hall, Option.elim_some]

/-- A query that is not paged is a single request. -/
theorem Compiled.finished_eq_ask {c : Compiled} (h : c.paging = none) (config : Config)
    (x : External) (scope : Scope) :
    c.finished config x scope = .ask (x.request c.query.toJson) fun reply =>
      .ofExcept (do
        let items ← reply.items.mapError .requester
        let fetched ← c.rows items
        if config.maxRows < fetched.length then .error (.resultTooLarge config.maxRows)
        else (c.finish.apply scope fetched).mapError .expression) := by
  rw [finished, fetch, h]
  refine congrArg (Exchange.ask _) (funext fun reply => ?_)
  simp only [Exchange.bind]
  cases reply.items with
  | error message => rfl
  | ok items =>
    change Exchange.bind (.ofExcept (c.rows items)) _ = .ofExcept (c.rows items >>= _)
    cases c.rows items with
    | error error => rfl
    | ok fetched =>
      change ite _ _ _ = Exchange.ofExcept (ite _ _ _)
      split <;> rfl

variable {cancellable : Bool}

/-- A task after a known outcome yields a result only if the outcome is one. -/
theorem Activity.Runs.of_ofExcept {α ρ : Type} {x : Except ExecutionError α} {next : α → Task ρ}
    {log : Log} {result : ρ}
    (h : Runs cancellable (.ready ((Exchange.ofExcept x).andThen id next)) log
      (.settled (.ok result))) :
    ∃ a, x = .ok a ∧ Runs cancellable (.ready (next a)) log (.settled (.ok result)) := by
  cases x with
  | ok a => exact ⟨a, rfl, h⟩
  | error error =>
    obtain ⟨-, h | h⟩ := Runs.of_fail h
    · exact nomatch h
    · exact nomatch h

/-- The nested patterns of a row are run for it, and their datasets are written into it. -/
theorem Row.of_attach_ok {row : Row} {tasks : List (String × Task Dataset)} {log : Log}
    {rows : Dataset} (h : Runs cancellable (.ready (row.attach tasks)) log (.settled (.ok rows))) :
    ∃ datasets, datasets.length = tasks.length ∧
      Each cancellable (tasks.map Prod.snd) log (yields datasets) ∧
      rows = [row.filled tasks datasets] := by
  obtain ⟨datasets, hlength, heach, hrows⟩ | ⟨error, herror, -⟩ := of_attach h
  · exact ⟨datasets, hlength, heach, Except.ok.inj hrows⟩
  · exact nomatch herror

namespace Pattern

variable {p : Pattern} {config : Config} {scope : Scope} {log : Log} {rows : Dataset} {row : Row}

/-- A row of an answer is a finished row with the datasets of its nested patterns. -/
structure Attached (cancellable : Bool) (p : Pattern) (config : Config) (grouping : Option Grouping)
    (scope : Scope) (log : Log) (base row : Row) (datasets : List Dataset) : Prop where
  row_eq : row = base.extend (p.nestedNames.zip (datasets.map Value.dataset))
  length_eq : datasets.length = p.nestedPatterns.length
  runs : ∀ g, grouping = some g → ∃ part, part.Subperm log ∧
    Each cancellable ((p.nestedTasks config g scope base).map Prod.snd) part (yields datasets)

/-- Without nested patterns, rows stay as they are. -/
theorem attached_nil (hnested : p.nestedPatterns = []) (grouping : Option Grouping) (row : Row) :
    p.Attached cancellable config grouping scope log row row [] where
  row_eq := by
    rw [List.map_nil, List.zip_nil_right]
    rfl
  length_eq := by
    rw [hnested]
    rfl
  runs g _ := by
    refine ⟨[], List.nil_subperm, ?_⟩
    rw [nestedTasks, hnested]
    exact .nil

/-- The rows of an answer come from finished rows. -/
theorem of_attachAll {grouping : Option Grouping} {finished : Dataset}
    (hnested : grouping = none → p.nestedPatterns = [])
    (h : Runs cancellable (.ready (p.attachAll config grouping scope finished)) log
      (.settled (.ok rows))) (hrow : row ∈ rows) :
    ∃ base ∈ finished, ∃ datasets,
      p.Attached cancellable config grouping scope log base row datasets := by
  have hdone (hnone : p.nestedPatterns = [])
      (h : Runs cancellable (.ready (.done finished)) log (.settled (.ok rows))) :
      ∃ base ∈ finished, ∃ datasets,
        p.Attached cancellable config grouping scope log base row datasets := by
    obtain ⟨-, h | h⟩ := h.of_done
    · cases h
    cases h
    exact ⟨row, hrow, [], attached_nil hnone grouping row⟩
  unfold attachAll at h
  split at h
  · exact hdone (hnested rfl) h
  next g =>
  split at h
  · next hempty => exact hdone (List.isEmpty_iff.1 hempty) h
  obtain ⟨parts, first, rest, rfl, heach, hrest⟩ | ⟨error, -, herror, -⟩ | ⟨hbroken, -⟩ :=
    Runs.of_window h
  · obtain ⟨rfl, hrows | hrows⟩ := hrest.of_done
    · cases hrows
    cases hrows
    obtain ⟨part, hpart, hrow⟩ := List.mem_flatten.1 hrow
    have hyields : Activity.settled (.ok part) ∈ yields parts := List.mem_map_of_mem hpart
    obtain ⟨task, htask, log, hlog, hruns⟩ := heach.exists_of_mem hyields
    obtain ⟨base, hbase, rfl⟩ := List.mem_map.1 htask
    obtain ⟨datasets, hlength, hdatasets, rfl⟩ := Row.of_attach_ok hruns
    have hnames : (p.nestedTasks config g scope base).map Prod.fst = p.nestedNames := by
      rw [nestedTasks, List.map_map]
      rfl
    refine ⟨base, hbase, datasets, ?_, ?_, ?_⟩
    · rw [List.mem_singleton.1 hrow, Row.filled, hnames]
    · rw [hlength, nestedTasks, List.length_map]
    · rintro other ⟨⟩
      exact ⟨log, hlog.trans (List.sublist_append_left _ _).subperm, hdatasets⟩
  · cases herror
  · cases hbroken

/-- No finished row is lost. -/
theorem length_of_attachAll {grouping : Option Grouping} {finished : Dataset}
    (h : Runs cancellable (.ready (p.attachAll config grouping scope finished)) log
      (.settled (.ok rows))) : rows.length = finished.length := by
  cases attaches_attachAll h with
  | none => rfl
  | filled hanswers =>
    rw [Dataset.filled, List.length_zipWith, ← hanswers.shape.length_eq, Nat.min_self]

/-- The reply to the query of a pattern, and what comes after it. -/
theorem of_run_ok {c : Compiled} (hcompile : p.compile config.limits = .ok c)
    (hpaging : c.paging = none)
    (h : Runs cancellable (.ready (p.run config scope)) log (.settled (.ok rows))) :
    ∃ reply rest items fetched finished,
      log = (p.source.external.request c.query.toJson, reply) :: rest ∧
      reply.items = .ok items ∧ c.rows items = .ok fetched ∧
      c.finish.apply scope fetched = .ok finished ∧
      Runs cancellable (.ready (p.attachAll config c.grouping scope finished)) rest
        (.settled (.ok rows)) := by
  rw [run_eq_fanOut] at h
  obtain ⟨-, h⟩ | ⟨cancelled, -, h⟩ := h.of_look
  · exact nomatch h
  cases cancelled with
  | true =>
    obtain ⟨-, h | h⟩ := Runs.of_fail h
    · exact nomatch h
    · exact nomatch h
  | false =>
    rw [if_neg Bool.false_ne_true, hcompile] at h
    dsimp only at h
    rw [Compiled.finished_eq_ask hpaging] at h
    obtain ⟨-, h⟩ | ⟨reply, rest, rfl, ⟨-, h⟩ | h⟩ := Runs.of_ask h
    · exact nomatch h
    · exact nomatch h
    obtain ⟨finished, hfinished, h⟩ := Runs.of_ofExcept h
    obtain ⟨items, hitems, hfinished⟩ := Except.bind_eq_ok.1 hfinished
    obtain ⟨fetched, hfetched, hfinished⟩ := Except.bind_eq_ok.1 hfinished
    split at hfinished
    · exact nomatch hfinished
    · exact ⟨reply, rest, items, fetched, finished, rfl, Except.mapError_eq_ok.1 hitems, hfetched,
        Except.mapError_eq_ok.1 hfinished, h⟩

/-- The names of a finished row: hidden names are dropped, whatever they are the names of. -/
theorem isSome_get?_finished {c : Compiled} {o : Outputs} (hcolumnar : p.Columnar c o)
    {g : NativeGroup} {derived : Row}
    (hderived : (c.decode g).derive scope c.finish.derived = .ok derived) (name : String) :
    ((c.finish.dropHidden derived).get? name).isSome ↔ name ∉ c.finish.hidden ∧
      (p.split.map SplitKey.name = some name ∨ name ∈ namesOf p.applies Body.isNative ∨
        name ∈ p.derivedNames) := by
  have hlists := lists_outputs hcolumnar.outputs
  rw [Finish.get?_dropHidden]
  split
  · next h => exact iff_of_false nofun fun h' => h'.1 h
  · next h =>
    rw [Row.isSome_get?_derive hderived, Compiled.isSome_get?_decode, hcolumnar.key,
      hcolumnar.derived, hlists.derived, hcolumnar.columns, hlists.columns, ← hcolumnar.hidden,
      or_iff_right h, and_iff_right h, derivedNames]
    tauto

/-- A row of an answer is that of a group in the reply: it is made from the row of the group, and
its datasets are those of nested patterns inside of the group. Unless one of them has the name of
the key, the row still has the key that the backend has returned. -/
inductive OfGroup (cancellable : Bool) (p : Pattern) (config : Config) (c : Compiled)
    (scope : Scope) (items : List Json) (log : Log) (row : Row) : Prop
  | intro {grouping : Grouping} {item : Json} {g : NativeGroup} {derived : Row}
      {datasets : List Dataset} {part : Log} (hgrouping : c.grouping = some grouping)
      (hitem : item ∈ items) (hholds : c.query.shape.Holds item g)
      (hderived : (c.decode g).derive scope c.finish.derived = .ok derived)
      (hdatasets : Each cancellable (p.nestedPatterns.map fun entry =>
        (p.forGroup entry.2 (grouping.condition (grouping.keyOf g))).run config
          (c.finish.dropHidden derived :: scope)) part (yields datasets))
      (hpart : part.Subperm log)
      (hrow : row = (c.finish.dropHidden derived).extend
        (p.nestedNames.zip (datasets.map Value.dataset)))
      (hkey : grouping.name ∉ p.nestedNames → row.get? grouping.name = some (grouping.keyOf g)) :
      OfGroup cancellable p config c scope items log row

end Pattern

/-! ### Pages and their columns -/

namespace Sample

/-- The pages with the given results. -/
def pagesWith (results : List (String × Body Pattern)) : Pattern :=
  ⟨.ofExternal edits, "edits", some ⟨.ref "page", "page"⟩, results, none, none⟩

/-- The average number of added characters, which takes two hidden columns. -/
def average : Body Pattern :=
  .scalar (.binary (.measure .average) (.ref "edits") (.ref "added"))

/-- The pages with an average and their languages. -/
def averages : Pattern := pagesWith [("Average", average), ("Languages", .nested byLanguage)]

/-- The row of the front page, of which no numbers are known. -/
def averageRow : Row := [("Average", .null), ("page", .string "Front")]

/-- The languages of the front page. -/
def averageLanguages : Pattern := averages.forGroup byLanguage frontPage.condition

/-- An average, and a number under the name of a hidden column. -/
def clashing : Pattern :=
  pagesWith [("Average", average), ("!T_0", .scalar (.literal (.number 5)))]

/-- A constant under the name of the key. -/
def renamed : Pattern := pagesWith [("page", .scalar (.literal (.string "Back")))]

/-- The only page is the front page, and nothing is known of its languages. -/
theorem runs_averages : ∃ log,
    Runs false (.ready (averages.run .standard [])) log
      (.settled (.ok [averageRow.put "Languages" (.dataset [])])) := by
  obtain ⟨request, next, hask, more, hjoin, hdone⟩ : ∃ request next,
      (averages.run .standard []).heed false = .ask request next ∧
      ∃ more, (next frontPageReply).heed false = .join (.window Config.standard.width)
        [averageRow.attach [("Languages", averageLanguages.run .standard [averageRow])]] more ∧
      (more [[averageRow.put "Languages" (.dataset [])]]).heed false =
        .done [averageRow.put "Languages" (.dataset [])] := by
    rw [Pattern.run_eq_fanOut]
    exact ⟨_, _, rfl, _, rfl, rfl⟩
  obtain ⟨own, next', hlanguages, hnothing⟩ : ∃ own next',
      (averageLanguages.run .standard [averageRow]).heed false = .ask own next' ∧
        (next' [.ok (.array [])]).heed false = .done [] := by
    rw [Pattern.run]
    exact ⟨_, _, rfl, rfl⟩
  obtain ⟨more', hmore, hlast⟩ := heed_attach_one hlanguages
  have hattached : Runs false _ _ _ :=
    .asked hmore [.ok (.array [])] (.quiet (.done (hlast _ _ hnothing)) (.refl _))
  have hends := (hattached.part (.window Config.standard.width) [] [] [] [] more).trans
    (.quiet .release (.quiet .windowDone (.quiet (.done hdone) (.refl _))))
  exact ⟨_, .asked hask frontPageReply (.quiet (.window hjoin) (.quiet (.enter (by decide)) hends))⟩

end Sample

namespace Pattern

variable {p : Pattern} {config : Config} {scope : Scope} {log : Log} {rows : Dataset}

/-- **The columns of an answer.** No row is lost but those beyond the limit. Each row has the chosen
names, apart from those of hidden columns, and is that of a group in the reply, unless the name of
the key is hidden or that of a derived value. -/
theorem run_columns {c : Compiled} (hcompile : p.compile config.limits = .ok c)
    (hshape : p.split.isSome ∨ p.applies ≠ [])
    (h : Runs cancellable (.ready (p.run config scope)) log (.settled (.ok rows))) :
    c.finish.hidden = (List.range c.finish.hidden.length).map Outputs.hiddenName ∧
    ∃ reply items fetched, (p.source.external.request c.query.toJson, reply) ∈ log ∧
      reply.items = .ok items ∧ c.rows items = .ok fetched ∧
      rows.length = c.finish.limit.elim fetched.length (min · fetched.length) ∧
      ∀ row ∈ rows,
        (∀ name, (row.get? name).isSome ↔
          name ∈ p.names ∧ (name ∈ c.finish.hidden → name ∈ p.nestedNames)) ∧
        ∀ split, p.split = some split → split.name ∉ c.finish.hidden →
          split.name ∉ p.derivedNames → p.OfGroup cancellable config c scope items log row := by
  obtain ⟨o, hcolumnar⟩ := columnar_of_compile hcompile hshape
  have hlists := lists_outputs hcolumnar.outputs
  obtain ⟨reply, rest, items, fetched, finished, rfl, hitems, hfetched, hfinished, hruns⟩ :=
    of_run_ok hcompile hcolumnar.paging h
  refine ⟨?_, reply, items, fetched, List.mem_cons_self, hitems, hfetched, ?_, fun row hrow => ?_⟩
  · rw [hcolumnar.hidden]
    exact hlists.hidden
  · rw [length_of_attachAll hruns, Finish.length_of_apply hfinished]
  obtain ⟨base, hbase, datasets, rfl, hlength, hnested⟩ :=
    of_attachAll hcolumnar.nested hruns hrow
  obtain ⟨origin, horigin, derived, hderived, rfl⟩ := Finish.exists_of_mem hfinished hbase
  obtain ⟨g, rfl, hgroup⟩ := Compiled.exists_group hcolumnar.fits hfetched horigin
  have hzip : (p.nestedNames.zip (datasets.map Value.dataset)).map Prod.fst = p.nestedNames := by
    refine List.map_fst_zip ?_
    rw [List.length_map, hlength, nestedNames, List.length_map]
  refine ⟨fun name => ?_, fun split hsplit hhidden hderivedName => ?_⟩
  · rw [Row.isSome_get?_extend, hzip, isSome_get?_finished hcolumnar hderived, names,
      List.mem_append, Option.mem_toList, mem_names_iff, ← nestedNames_eq, ← derivedNames]
    tauto
  · have hkey := hcolumnar.key
    rw [hsplit] at hkey
    obtain ⟨grouping, hgrouping, hname⟩ := Option.map_eq_some_iff.1 hkey
    obtain ⟨⟨item, hitem, hholds⟩, hkeyed⟩ := hgroup grouping hgrouping
    obtain ⟨part, hpart, heach⟩ := hnested grouping hgrouping
    have hbase : (c.finish.dropHidden derived).get? grouping.name = some (grouping.keyOf g) := by
      rw [Finish.get?_finished hderived, hkeyed]
      · rw [hcolumnar.derived, hlists.derived, hname]
        exact hderivedName
      · rw [hname]
        exact hhidden
    refine .intro hgrouping hitem hholds hderived ?_ (hpart.trans ?_) rfl fun hname => ?_
    · rw [nestedTasks, List.map_map, hbase] at heach
      exact heach
    · exact (List.sublist_cons_self _ _).subperm
    · rw [Row.get?_extend_of_not_mem, hbase]
      rwa [hzip]

open Sample in
/-- The front page has an average and languages, but no hidden columns. -/
theorem run_columns_averages : ∃ c log items,
    averages.compile Config.standard.limits = .ok c ∧ averages.split.isSome ∧
      Runs false (.ready (averages.run .standard [])) log
        (.settled (.ok [averageRow.put "Languages" (.dataset [])])) ∧
      c.finish.hidden = ["!T_0", "!T_1"] ∧
      (∀ name, ((averageRow.put "Languages" (.dataset [])).get? name).isSome ↔
        name ∈ averages.names) ∧
      averages.OfGroup false .standard c [] items log
        (averageRow.put "Languages" (.dataset [])) := by
  obtain ⟨log, hruns⟩ := runs_averages
  obtain ⟨c, hcompile, hhidden⟩ : ∃ c, averages.compile Config.standard.limits = .ok c ∧
      c.finish.hidden = ["!T_0", "!T_1"] := ⟨_, rfl, by decide⟩
  have hvisible : ∀ name ∈ averages.names, name ∉ c.finish.hidden := by
    rw [hhidden]
    decide
  obtain ⟨-, reply, items, fetched, -, -, -, -, hrows⟩ := run_columns hcompile (.inl rfl) hruns
  obtain ⟨hnames, hgroup⟩ := hrows _ (List.mem_singleton_self _)
  refine ⟨c, log, items, hcompile, rfl, hruns, hhidden, fun name => (hnames name).trans ?_, ?_⟩
  · exact and_iff_left_of_imp fun hname hmem => absurd hmem (hvisible name hname)
  · exact hgroup _ rfl (hvisible _ List.mem_cons_self) (by decide)

open Sample in
/-- A number under the name of a hidden column is lost, and so is a key whose name a derived value
has. -/
theorem run_loses_columns :
    (∃ request row, Runs false (.ready (clashing.run .standard [])) [(request, frontPageReply)]
        (.settled (.ok [row])) ∧ "!T_0" ∈ clashing.names ∧ row.get? "!T_0" = none) ∧
      ∃ request row, Runs false (.ready (renamed.run .standard [])) [(request, frontPageReply)]
        (.settled (.ok [row])) ∧ row.get? "page" = some (.string "Back") := by
  have hends (p : Pattern) (row : Row) (h : ∃ request next,
      (p.run .standard []).heed false = .ask request next ∧
        (next frontPageReply).heed false = .done [row]) : ∃ request,
      Runs false (.ready (p.run .standard [])) [(request, frontPageReply)]
        (.settled (.ok [row])) := by
    obtain ⟨request, next, hask, hdone⟩ := h
    exact ⟨request, .asked hask frontPageReply (.quiet (.done hdone) (.refl _))⟩
  obtain ⟨request, hclashing⟩ := hends clashing averageRow (by
    rw [run]
    exact ⟨_, _, rfl, rfl⟩)
  obtain ⟨request', hrenamed⟩ := hends renamed [("page", .string "Back")] (by
    rw [run]
    exact ⟨_, _, rfl, rfl⟩)
  exact ⟨⟨request, _, hclashing, by decide, rfl⟩, request', _, hrenamed, rfl⟩

end Pattern

end FederatedQuery
