import FederatedQuery.Proofs.Descent

/-!
# The columns that introspection finds

The metadata of segments tell of each column its native type, whether it has several values in a
row, and perhaps the aggregator that made it. The columns of a datasource are then the time
attribute, the columns that are told of, in this order, and after them the overrides under other
names. An override takes the place of the column of its name, wherever that stands, and of two
overrides of one name the last one counts, while the first one determines the place.

## Main definitions

* `Attribute.findLast?`: the last column of a name.
* `Metadata.reportedNames`: the columns in the metadata that do not hold the time.
* `Metadata.Tells`: what the metadata tell of a column.

## Main results

* `Metadata.ofSegments_eq_ok`: the columns in the metadata of segments.
* `Metadata.names_override`, `Metadata.find?_override`: columns with overrides.
-/

namespace FederatedQuery

/-- The last column that a list has under the given name. -/
def Attribute.findLast? (attributes : List Attribute) (name : String) : Option Attribute :=
  find? attributes.reverse name

namespace Attribute

theorem find?_cons (a : Attribute) (attributes : List Attribute) (name : String) :
    find? (a :: attributes) name = if a.name = name then some a else find? attributes name := by
  rw [find?, List.find?_cons]
  by_cases h : a.name = name
  · rw [if_pos h, beq_iff_eq.2 h]
  · rw [if_neg h, beq_false_of_ne h]
    rfl

theorem findLast?_cons (a : Attribute) (attributes : List Attribute) (name : String) :
    findLast? (a :: attributes) name =
      (findLast? attributes name).or (if a.name = name then some a else none) := by
  rw [findLast?, List.reverse_cons, find?, List.find?_append]
  exact congrArg _ (find?_cons a [] name)

/-- Among columns with different names each one is found under its own name. -/
theorem find?_of_mem {attributes : List Attribute} (h : (attributes.map Attribute.name).Nodup)
    {a : Attribute} (ha : a ∈ attributes) : find? attributes a.name = some a := by
  induction attributes with
  | nil => exact absurd ha List.not_mem_nil
  | cons b attributes ih =>
    obtain ⟨hb, hnodup⟩ := List.nodup_cons.1 h
    rw [find?_cons]
    obtain rfl | hmem := List.mem_cons.1 ha
    · exact if_pos rfl
    · rw [if_neg fun heq => hb (List.mem_map.2 ⟨a, hmem, heq.symm⟩), ih hnodup hmem]

end Attribute

namespace Metadata

/-! ### Metadata of segments -/

/-- What the metadata tell of a column: the kind of its values, which follows from its native type
and from whether it has several values; that it is a metric, if it has an aggregator, or when
aggregators are not known, if its values are numbers or sketches; and a maker, which it has only if
aggregators are known, the column could be analysed, and its aggregator is a listed one. -/
structure Tells (aggregators : Option Json.Fields) (column : Json) (nativeType : String)
    (a : Attribute) : Prop where
  typed : column.textAt? "type" = some nativeType
  native : a.nativeType = some nativeType
  kind : a.kind = Native.kindOf nativeType
    (((column.get? "hasMultipleValues").bind Json.bool?).getD false)
  unsplitable : a.unsplitable =
    match aggregators with
    | some known => (known.lookup a.name).isSome
    | none => Native.isNumeric nativeType || Native.isSketch nativeType
  maker : a.maker.isSome → ∃ known aggregator type, aggregators = some known ∧
    isErroneous column = false ∧ known.lookup a.name = some aggregator ∧
    aggregator.textAt? "type" = some type ∧ type ∈ Maker.table.map Prod.fst

/-- An aggregator with a maker is a listed one. -/
theorem mem_table_of_ofAggregator? {aggregator : Json} {m : Maker}
    (h : Maker.ofAggregator? aggregator = some m) :
    ∃ type, aggregator.textAt? "type" = some type ∧ type ∈ Maker.table.map Prod.fst := by
  obtain ⟨type, htype, h⟩ := Option.bind_eq_some_iff.1 h
  obtain ⟨how, hhow, -⟩ := Option.bind_eq_some_iff.1 h
  obtain ⟨front, back, htable, -⟩ := List.lookup_eq_some_iff.1 hhow
  refine ⟨type, htype, List.mem_map.2 ⟨(type, how), ?_, rfl⟩⟩
  rw [htable]
  exact List.mem_append_right _ List.mem_cons_self

theorem tells_of_ofColumn {aggregators : Option Json.Fields} {name : String} {column : Json}
    {a : Attribute} (h : ofColumn aggregators name column = .ok a) :
    a.name = name ∧ ∃ nativeType, Tells aggregators column nativeType a := by
  rw [ofColumn] at h
  split at h
  · cases h
  · next nativeType htype =>
    split at h
    · cases h
      refine ⟨rfl, nativeType, htype, rfl, rfl, rfl, fun hmaker => ?_⟩
      cases hmaker
    · next known =>
      cases h
      refine ⟨rfl, nativeType, htype, rfl, rfl, rfl, fun hmaker => ?_⟩
      obtain ⟨m, hm⟩ := Option.isSome_iff_exists.1 hmaker
      simp only at hm
      split at hm
      · cases hm
      · next hok =>
        obtain ⟨aggregator, hlookup, hm⟩ := Option.bind_eq_some_iff.1 hm
        obtain ⟨type, htype, hmem⟩ := mem_table_of_ofAggregator? hm
        exact ⟨known, aggregator, type, rfl, eq_false_of_ne_true hok, hlookup, htype, hmem⟩

/-- The columns in the metadata of segments: the time attribute, and what is told of each column
that does not hold the time. -/
theorem ofSegments_eq_ok {timeName : String} {merged : Json} {learned : List Attribute}
    (h : ofSegments timeName merged = .ok learned) :
    ∃ reported attributes, (merged.get? "columns").bind Json.fields? = some reported ∧
      learned = timeAttribute timeName :: attributes ∧
      (reported.filter fun entry => !isTime timeName entry.1).mapM
          (fun entry => ofColumn ((merged.get? "aggregators").bind Json.fields?) entry.1 entry.2) =
        .ok attributes := by
  rw [ofSegments] at h
  split at h
  · next reported hreported =>
    obtain ⟨attributes, hattributes, h⟩ := Except.bind_eq_ok.1 h
    exact ⟨reported, attributes, hreported, (Except.ok.inj h).symm, hattributes⟩
  · exact nomatch h

/-- The names of the columns in the metadata that do not hold the time. -/
def reportedNames (timeName : String) (reported : Json.Fields) : List String :=
  (reported.map Prod.fst).filter fun name => name != Native.timeColumn && name != timeName

/-- The columns in the metadata have the reported names, in this order. -/
theorem names_of_ofColumn {aggregators : Option Json.Fields} {timeName : String}
    {reported : Json.Fields} {attributes : List Attribute}
    (h : (reported.filter fun entry => !isTime timeName entry.1).mapM
      (fun entry => ofColumn aggregators entry.1 entry.2) = .ok attributes) :
    attributes.map Attribute.name = reportedNames timeName reported := by
  have hnames : (reported.filter fun entry => !isTime timeName entry.1).map Prod.fst =
      attributes.map Attribute.name := by
    rw [← List.forall₂_eq_eq_eq, List.forall₂_map_left_iff, List.forall₂_map_right_iff]
    exact (Except.mapM_eq_ok.1 h).imp fun entry a ha => (tells_of_ofColumn ha).1.symm
  rw [← hnames, reportedNames, List.filter_map]
  refine congrArg _ (List.filter_congr fun entry _ => ?_)
  exact Bool.not_or _ _

/-! ### Overrides -/

theorem names_overrideOne (columns : List Attribute) (new : Attribute) :
    (overrideOne columns new).map Attribute.name =
      columns.map Attribute.name ++
        if new.name ∈ columns.map Attribute.name then [] else [new.name] := by
  induction columns with
  | nil => rfl
  | cons column rest ih =>
    rw [overrideOne]
    by_cases h : column.name = new.name
    · rw [if_pos h, if_pos (h ▸ List.mem_cons_self), List.append_nil, List.map_cons, List.map_cons, h]
    · rw [if_neg h, List.map_cons, ih, List.map_cons, List.cons_append]
      simp only [List.mem_cons, or_iff_right (Ne.symm h)]

theorem find?_overrideOne (columns : List Attribute) (new : Attribute) (name : String) :
    Attribute.find? (overrideOne columns new) name =
      if new.name = name then some new else Attribute.find? columns name := by
  induction columns with
  | nil => exact Attribute.find?_cons new [] name
  | cons column rest ih =>
    rw [overrideOne]
    split
    · next h =>
      rw [Attribute.find?_cons, Attribute.find?_cons, h]
      split <;> rfl
    · next h =>
      rw [Attribute.find?_cons, Attribute.find?_cons, ih]
      by_cases hnew : new.name = name
      · rw [if_pos hnew, if_neg (hnew ▸ h), if_pos hnew]
      · rw [if_neg hnew, if_neg hnew]

/-- **Places.** Overrides keep the places of the columns, and those under other names come last, in
the order in which their names are first used. -/
theorem names_override (columns overrides : List Attribute) :
    (override columns overrides).map Attribute.name =
      columns.map Attribute.name ++
        ((overrides.map Attribute.name).filter (· ∉ columns.map Attribute.name)).eraseDups := by
  induction overrides generalizing columns with
  | nil => exact (List.append_nil _).symm
  | cons new overrides ih =>
    refine (ih (overrideOne columns new)).trans ?_
    rw [names_overrideOne, List.map_cons]
    by_cases h : new.name ∈ columns.map Attribute.name
    · rw [if_pos h, List.append_nil, List.filter_cons_of_neg (by simpa using h)]
    · rw [if_neg h, List.filter_cons_of_pos (by simpa using h), List.eraseDups_cons,
        List.append_assoc, List.filter_filter]
      refine congrArg (_ ++ new.name :: ·.eraseDups) (List.filter_congr fun name _ => ?_)
      rw [Bool.eq_iff_iff]
      simp only [List.mem_append, List.mem_singleton, decide_eq_true_eq, Bool.and_eq_true,
        Bool.not_eq_true', beq_eq_false_iff_ne]
      tauto

/-- Columns with different names still have different names with overrides. -/
theorem nodup_override {columns : List Attribute} (h : (columns.map Attribute.name).Nodup)
    (overrides : List Attribute) : ((override columns overrides).map Attribute.name).Nodup := by
  induction overrides generalizing columns with
  | nil => exact h
  | cons new overrides ih =>
    refine ih ?_
    rw [names_overrideOne]
    split
    · rwa [List.append_nil]
    · next hnew => exact List.nodup_append.2 ⟨h, List.pairwise_singleton _ _, by simpa using hnew⟩

/-- **Values.** Under each name the last override is found, or else the column. -/
theorem find?_override (columns overrides : List Attribute) (name : String) :
    Attribute.find? (override columns overrides) name =
      (Attribute.findLast? overrides name).or (Attribute.find? columns name) := by
  induction overrides generalizing columns with
  | nil => rfl
  | cons new overrides ih =>
    refine (ih (overrideOne columns new)).trans ?_
    rw [Attribute.findLast?_cons, Option.or_assoc, find?_overrideOne]
    congr 1
    split <;> rfl

end Metadata

namespace Sample

/-- The edits with columns that take the place of others, two of them of the same name. -/
def overriddenEdits : External :=
  { unknownEdits with
    overrides :=
      [.plain "user" .string "STRING", .plain "page" .stringSet "STRING",
        .plain "user" .number "LONG"] }

end Sample

end FederatedQuery
