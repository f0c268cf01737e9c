import FederatedQuery.External.Introspection
import FederatedQuery.Proofs.Discovery
import FederatedQuery.Proofs.Documents

/-!
# Descriptors read back

The descriptor of a datasource leaves out what has its default: a list of columns that is not known,
the strategy with all of its attempts, flags that are not set, overrides if there are none. Reading
fills the defaults in again. So the datasource that is read from the descriptor of a datasource is
the same one, and its descriptor is the same document.

The makers of columns hold whole expressions, of which the descriptor has the canonical form. Those
of a descriptor that has been read can be written, and so can those that introspection finds.

## Main definitions

* `Maker.IsWritable`, `Attribute.IsWritable`, `External.IsWritable`: what a descriptor can hold.

## Main results

* `External.read_of_isWritable`: what a descriptor can hold is read from it.
* `External.isWritable_of_read`, `External.isWritable_of_introspect`: the datasources that
  descriptors and introspection give.
* `External.read_toJson_of_read`: the descriptor of such a datasource gives it again.
-/

namespace FederatedQuery

/-! ### Makers -/

namespace Maker

/-- The values of the expression that a maker accumulates can be written. -/
def IsWritable : Maker → Prop
  | .count => True
  | .accumulate _ e => ∀ v ∈ e.values, v.IsWritable

theorem ofJson?_toJson {m : Maker} (h : m.IsWritable) : ofJson? m.toJson = some m := by
  cases m with
  | count => rfl
  | accumulate how e =>
    have he := Expression.ofJson?_toJson true h
    have hread (tag : String) :
        (Json.named [("op", .string tag), ("expression", e.toJson)]).required "expression"
          (fun part => (Expression.ofJson? true part.val).map (accumulate how)) =
            some (accumulate how e) := by
      refine (Json.required_named _ "expression" fun j =>
        (Expression.ofJson? true j).map (accumulate how)).trans ?_
      exact congrArg (Option.map (accumulate how)) he
    cases how <;> exact hread _

/-- The maker of a document can be written. -/
theorem isWritable_of_ofJson? {j : Json} (hj : j.isDocument = true) {m : Maker}
    (h : ofJson? j = some m) : m.IsWritable := by
  simp only [ofJson?, Option.bind_eq_bind, Option.bind_eq_some_iff] at h
  obtain ⟨tag, -, h⟩ := h
  have haccumulate {how : Accumulation} (h : ((j.contents? ["expression"]).bind fun r =>
      r.required "expression" fun part =>
        (Expression.ofJson? true part.val).map (accumulate how)) = some m) : m.IsWritable := by
    obtain ⟨r, hr, h⟩ := Option.bind_eq_some_iff.1 h
    obtain ⟨part, hpart, h⟩ := (Json.holdsDocuments_of_contents? hj hr).required h
    obtain ⟨e, he, rfl⟩ := Option.map_eq_some_iff.1 h
    exact Expression.isWritable_of_ofJson? hpart he
  split at h
  · obtain ⟨_, -, rfl⟩ := Option.map_eq_some_iff.1 h
    trivial
  · exact haccumulate h
  · exact haccumulate h
  · exact haccumulate h
  · cases h

/-- The maker of a column made by a native aggregator can be written. -/
theorem isWritable_of_ofAggregator? {aggregator : Json} {m : Maker}
    (h : ofAggregator? aggregator = some m) : m.IsWritable := by
  simp only [ofAggregator?, Option.bind_eq_bind, Option.bind_eq_some_iff] at h
  obtain ⟨type, -, how, -, h⟩ := h
  split at h
  · cases h
    trivial
  · obtain ⟨field, -, h⟩ := Option.bind_eq_some_iff.1 h
    split at h
    · cases h
      trivial
    · cases h
      exact List.forall_mem_nil Value.IsWritable

end Maker

/-! ### Columns -/

namespace Attribute

/-- The maker of a column can be written. -/
def IsWritable (a : Attribute) : Prop := ∀ m ∈ a.maker, m.IsWritable

/-- The fields of a column, with those that are left out. -/
def fields (a : Attribute) : List (String × Option Json) :=
  [("name", some (.string a.name)), ("type", some (.string a.kind.name)),
    ("nativeType", a.nativeType.map .string),
    ("unsplitable", if a.unsplitable then some (.bool true) else none),
    ("maker", a.maker.map Maker.toJson)]

theorem toJson_eq (a : Attribute) : a.toJson = .object (Json.written a.fields) := by
  simp [toJson, fields, Json.written, Json.field?]

theorem lookup_fields (a : Attribute) (key : String) :
    (Json.written a.fields).lookup key = (a.fields.lookup key).join :=
  Json.lookup_written (by simp [fields]) key

theorem ofJson?_toJson {a : Attribute} (h : a.IsWritable) : ofJson? a.toJson = some a := by
  rw [ofJson?, toJson_eq, Json.record?_object]
  simp only [Option.bind_eq_bind, Option.bind_some]
  rw [Json.required_named _ "name" Json.text?, a.lookup_fields "name",
    Json.required_named _ "type" fun j => (j.choice? false).bind Kind.ofName?,
    a.lookup_fields "type",
    Json.absentOr_written (a.lookup_fields "nativeType") fun _ _ => ⟨rfl, rfl⟩,
    Json.withDefault_flag (a.lookup_fields "unsplitable"),
    Json.absentOr_written (a.lookup_fields "maker") fun m hm =>
      ⟨by cases m <;> rfl, Maker.ofJson?_toJson (h m hm)⟩]
  exact congrArg (Option.bind · _) a.kind.ofName?_name

/-- The column of a document can be written. -/
theorem isWritable_of_ofJson? {j : Json} (hj : j.isDocument = true) {a : Attribute}
    (h : ofJson? j = some a) : a.IsWritable := by
  simp only [ofJson?, Option.bind_eq_bind, Option.bind_eq_some_iff] at h
  obtain ⟨r, hr, name, -, kind, -, native, -, unsplitable, -, maker, hmaker, h⟩ := h
  cases h
  rintro m rfl
  obtain ⟨part, hpart, hread⟩ := (Json.holdsDocuments_of_record? hj hr).absentOr hmaker
  exact Maker.isWritable_of_ofJson? hpart hread

theorem isWritable_plain (name : String) (kind : Kind) (nativeType : String) :
    (plain name kind nativeType).IsWritable := nofun

end Attribute

/-! ### Datasources -/

namespace External

/-- The columns of a descriptor, read from what has been written. -/
theorem readAttributes?_toJson {attributes : List Attribute}
    (h : ∀ a ∈ attributes, a.IsWritable) :
    readAttributes? (.array (attributes.map Attribute.toJson)) = some attributes := by
  rw [readAttributes?, Json.readItems?_array _ Attribute.ofJson?, List.mapM_map]
  induction attributes with
  | nil => rfl
  | cons a attributes ih =>
    obtain ⟨ha, hrest⟩ := List.forall_mem_cons.1 h
    rw [List.mapM_cons, Function.comp_apply, Attribute.ofJson?_toJson ha, ih hrest]
    rfl

theorem isWritable_of_readAttributes? {j : Json} (hj : j.isDocument = true)
    {attributes : List Attribute} (h : readAttributes? j = some attributes) :
    ∀ a ∈ attributes, a.IsWritable := by
  intro a ha
  obtain ⟨part, hpart, hread⟩ := Json.exists_of_readItems? hj h a ha
  exact Attribute.isWritable_of_ofJson? hpart hread

/-- What a descriptor can hold: the datasource and its time attribute have names, a list of known
columns is not empty, and the makers can be written. -/
structure IsWritable (x : External) : Prop where
  source : x.source.isEmpty = false
  timeAttribute : x.timeAttribute.isEmpty = false
  known : ∀ columns ∈ x.attributes, columns.isEmpty = false
  columns : ∀ columns ∈ x.attributes, ∀ a ∈ columns, a.IsWritable
  overrides : ∀ a ∈ x.overrides, a.IsWritable

/-- The descriptor of a datasource. -/
def descriptor (x : External) : Descriptor :=
  { engine := x.engine.name
    source := x.source
    attributes := x.attributes
    strategy := if x.strategy = .segmentMetadataFallback then none else some x.strategy.name
    timeAttribute := x.timeAttribute
    context := x.context
    overrides := x.overrides
    allowEternity := x.allowEternity
    allowSelect := x.allowSelect
    version := x.version }

/-- The fields of a descriptor, with those that are left out. -/
def fields (x : External) : List (String × Option Json) :=
  let flag (b : Bool) : Option Json := if b then some (.bool true) else none
  let columns (attributes : List Attribute) : Json := .array (attributes.map Attribute.toJson)
  [("engine", some (.string x.engine.name)), ("source", some (.string x.source)),
    ("attributes", x.attributes.map columns),
    ("introspectionStrategy", if x.strategy = .segmentMetadataFallback then none
      else some (.string x.strategy.name)),
    ("timeAttribute", some (.string x.timeAttribute)), ("context", x.context.map .object),
    ("attributeOverrides", if x.overrides.isEmpty then none else some (columns x.overrides)),
    ("allowEternity", flag x.allowEternity), ("allowSelectQueries", flag x.allowSelect),
    ("version", x.version.map .string)]

theorem toJson_eq (x : External) : x.toJson = .object (Json.written x.fields) := by
  simp [toJson, fields, Json.written, Json.field?]

theorem lookup_fields (x : External) (key : String) :
    (Json.written x.fields).lookup key = (x.fields.lookup key).join :=
  Json.lookup_written (by simp [fields]) key

theorem ofJson?_toJson {x : External} (h : x.IsWritable) :
    Descriptor.ofJson? x.toJson = some x.descriptor := by
  rw [Descriptor.ofJson?, toJson_eq, Json.record?_object]
  simp only [Option.bind_eq_bind, Option.bind_some]
  have hstrategy : (Json.written x.fields).lookup "introspectionStrategy" =
      x.descriptor.strategy.map .string := by
    rw [x.lookup_fields, descriptor]
    exact (apply_ite (Option.map Json.string) _ none (some x.strategy.name)).symm
  have hoverrides : (Json.named (Json.written x.fields)).withDefault "attributeOverrides" []
      (fun part => readAttributes? part.val) = some x.overrides := by
    have hfield : (Json.written x.fields).lookup "attributeOverrides" =
        if x.overrides.isEmpty then none
        else some (.array (x.overrides.map Attribute.toJson)) := x.lookup_fields _
    rw [Json.withDefault_named _ "attributeOverrides" [] readAttributes?, hfield]
    split
    · next heq =>
      split at heq
      · next hempty => rw [List.isEmpty_iff.1 hempty]
      · cases heq
    · next heq =>
      split at heq
      · cases heq
      · cases heq
        exact readAttributes?_toJson h.overrides
  rw [Json.required_named _ "engine" Json.text?, x.lookup_fields "engine",
    Json.required_named _ "source" Json.text?, x.lookup_fields "source",
    Json.absentOr_written (x.lookup_fields "attributes") fun columns hcolumns =>
      ⟨rfl, readAttributes?_toJson (h.columns columns hcolumns)⟩,
    Json.absentOr_written hstrategy fun _ _ => ⟨rfl, rfl⟩,
    Json.withDefault_named _ "timeAttribute" Native.timeColumn Json.text?,
    x.lookup_fields "timeAttribute",
    Json.absentOr_written (x.lookup_fields "context") fun _ _ => ⟨rfl, rfl⟩,
    hoverrides,
    Json.withDefault_flag (x.lookup_fields "allowEternity"),
    Json.withDefault_flag (x.lookup_fields "allowSelectQueries"),
    Json.absentOr_written (x.lookup_fields "version") fun _ _ => ⟨rfl, rfl⟩]
  rfl

/-- The external that a descriptor describes, with the checks one after the other. -/
theorem ofDescriptor_eq (backend : String) (d : Descriptor) :
    ofDescriptor backend d =
      (Engine.parse d.engine).bind fun engine =>
        (d.strategy.elim (.ok .segmentMetadataFallback) Strategy.parse).bind fun strategy =>
          if d.source.isEmpty then .error (.invalidDescriptor .emptySource)
          else if d.timeAttribute.isEmpty then .error (.invalidDescriptor .emptyTimeAttribute)
          else .ok
            { backend := backend
              engine := engine
              source := d.source
              attributes := d.attributes.filter fun attributes => !attributes.isEmpty
              strategy := strategy
              timeAttribute := d.timeAttribute
              context := d.context
              overrides := d.overrides
              allowEternity := d.allowEternity
              allowSelect := d.allowSelect
              version := d.version } := by
  rw [ofDescriptor]
  cases Engine.parse d.engine with
  | error => rfl
  | ok engine =>
    cases d.strategy with
    | none =>
      by_cases hsource : d.source.isEmpty <;> by_cases htime : d.timeAttribute.isEmpty <;>
        simp [hsource, htime, throw, throwThe, MonadExceptOf.throw, Except.bind, bind]
    | some name =>
      cases hname : Strategy.parse name with
      | error => simp [hname, Except.bind, bind]
      | ok strategy =>
        by_cases hsource : d.source.isEmpty <;> by_cases htime : d.timeAttribute.isEmpty <;>
          simp [hname, hsource, htime, throw, throwThe, MonadExceptOf.throw, Except.bind, bind]

theorem ofDescriptor_descriptor {x : External} (h : x.IsWritable) :
    ofDescriptor x.backend x.descriptor = .ok x := by
  have hattributes : x.attributes.filter (fun columns => !columns.isEmpty) = x.attributes := by
    cases hcolumns : x.attributes with
    | none => rfl
    | some columns => rw [Option.filter_some, h.known columns hcolumns]; rfl
  have hengine : Engine.parse x.engine.name = .ok x.engine := by
    cases x.engine
    rfl
  have hstrategy : x.descriptor.strategy.elim (.ok .segmentMetadataFallback) Strategy.parse =
      .ok x.strategy := by
    rw [descriptor]
    cases x.strategy <;> rfl
  have hname : x.descriptor.engine = x.engine.name := rfl
  rw [ofDescriptor_eq, hstrategy, hname, hengine]
  change (if x.source.isEmpty then _ else if x.timeAttribute.isEmpty then _ else _) = _
  rw [h.source, h.timeAttribute]
  exact congrArg (fun columns => Except.ok { x with attributes := columns }) hattributes

/-- **Writing.** What a descriptor can hold is read from it. -/
theorem read_of_isWritable {x : External} (h : x.IsWritable) : read x.backend x.toJson = .ok x := by
  rw [read, ofJson?_toJson h]
  exact ofDescriptor_descriptor h

/-! ### What has been read -/

/-- The datasource of a descriptor has its fields. -/
theorem ofDescriptor_eq_ok {backend : String} {d : Descriptor} {x : External}
    (h : ofDescriptor backend d = .ok x) :
    x.backend = backend ∧ x.source.isEmpty = false ∧ x.timeAttribute.isEmpty = false ∧
      x.attributes = d.attributes.filter (fun columns => !columns.isEmpty) ∧
      x.overrides = d.overrides := by
  rw [ofDescriptor_eq] at h
  obtain ⟨engine, -, h⟩ := Except.bind_eq_ok.1 h
  obtain ⟨strategy, -, h⟩ := Except.bind_eq_ok.1 h
  split_ifs at h with hsource htime
  cases h
  exact ⟨rfl, Bool.eq_false_iff.2 hsource, Bool.eq_false_iff.2 htime, rfl, rfl⟩

/-- A descriptor that has been read can be written. -/
theorem isWritable_of_read {backend : String} {j : Json} (hj : j.isDocument = true)
    {x : External} (h : read backend j = .ok x) : x.backend = backend ∧ x.IsWritable := by
  rw [read] at h
  split at h
  · cases h
  · next d hd =>
    simp only [Descriptor.ofJson?, Option.bind_eq_bind, Option.bind_eq_some_iff] at hd
    obtain ⟨r, hrecord, _, -, _, -, attributes, hattributes, _, -, _, -, _, -, overrides,
      hoverrides, _, -, _, -, _, -, hd⟩ := hd
    have hr := Json.holdsDocuments_of_record? hj hrecord
    obtain ⟨hbackend, hsource, htime, hcolumns, hover⟩ := ofDescriptor_eq_ok h
    cases hd
    refine ⟨hbackend, hsource, htime, fun columns hmem => ?_, fun columns hmem => ?_, ?_⟩
    · rw [hcolumns] at hmem
      simpa using (Option.filter_eq_some_iff.1 hmem).2
    · rw [hcolumns] at hmem
      obtain rfl : attributes = some columns := (Option.filter_eq_some_iff.1 hmem).1
      obtain ⟨part, hpart, hread⟩ := hr.absentOr hattributes
      exact isWritable_of_readAttributes? hpart hread
    · rw [hover]
      obtain rfl | ⟨part, hpart, hread⟩ := hr.withDefault hoverrides
      · exact List.forall_mem_nil _
      · exact isWritable_of_readAttributes? hpart hread

end External

/-! ### What introspection finds -/

namespace Metadata

/-- The column found in the metadata of segments. -/
theorem isWritable_of_ofColumn {aggregators : Option Json.Fields} {name : String} {column : Json}
    {a : Attribute} (h : ofColumn aggregators name column = .ok a) : a.IsWritable := by
  rw [ofColumn] at h
  split at h
  · cases h
  · split at h
    · cases h
      intro m hm
      cases hm
    · cases h
      intro m hm
      split at hm
      · cases hm
      · obtain ⟨aggregator, -, hmaker⟩ := Option.bind_eq_some_iff.1 hm
        exact Maker.isWritable_of_ofAggregator? hmaker

theorem isWritable_timeAttribute (name : String) : (timeAttribute name).IsWritable :=
  Attribute.isWritable_plain _ _ _

theorem isWritable_of_ofSegments {timeName : String} {merged : Json} {columns : List Attribute}
    (h : ofSegments timeName merged = .ok columns) :
    columns.isEmpty = false ∧ ∀ a ∈ columns, a.IsWritable := by
  obtain ⟨reported, attributes, -, rfl, hattributes⟩ := ofSegments_eq_ok h
  refine ⟨rfl, List.forall_mem_cons.2 ⟨isWritable_timeAttribute timeName, fun a ha => ?_⟩⟩
  obtain ⟨column, -, hcolumn⟩ := Except.exists_mem_of_mapM_eq_ok hattributes a ha
  exact isWritable_of_ofColumn hcolumn

theorem isWritable_of_ofListing {timeName : String} {listing : Json} {columns : List Attribute}
    (h : ofListing timeName listing = .ok columns) :
    columns.isEmpty = false ∧ ∀ a ∈ columns, a.IsWritable := by
  obtain ⟨dimensions, -, h⟩ := Except.bind_eq_ok.1 h
  obtain ⟨metrics, -, h⟩ := Except.bind_eq_ok.1 h
  cases h
  refine ⟨rfl, List.forall_mem_cons.2 ⟨isWritable_timeAttribute timeName, fun a ha => ?_⟩⟩
  obtain ha | ha := List.mem_append.1 ha
  · obtain ⟨name, -, rfl⟩ := List.mem_map.1 ha
    exact Attribute.isWritable_plain _ _ _
  · obtain ⟨name, -, rfl⟩ := List.mem_map.1 ha
    exact nofun

theorem mem_overrideOne {columns : List Attribute} {new a : Attribute}
    (h : a ∈ overrideOne columns new) : a ∈ columns ∨ a = new := by
  induction columns with
  | nil => exact .inr (List.mem_singleton.1 h)
  | cons column rest ih =>
    rw [overrideOne] at h
    split at h
    · obtain rfl | h := List.mem_cons.1 h
      · exact .inr rfl
      · exact .inl (List.mem_cons_of_mem _ h)
    · obtain rfl | h := List.mem_cons.1 h
      · exact .inl List.mem_cons_self
      · exact (ih h).imp_left (List.mem_cons_of_mem _)

theorem isEmpty_overrideOne (columns : List Attribute) (new : Attribute) :
    (overrideOne columns new).isEmpty = false := by
  cases columns with
  | nil => rfl
  | cons column rest =>
    rw [overrideOne]
    split <;> rfl

/-- Columns that take the place of others do not make a list of columns empty. -/
theorem override_spec {columns overrides : List Attribute} {p : Attribute → Prop}
    (hcolumns : columns.isEmpty = false ∧ ∀ a ∈ columns, p a) (hoverrides : ∀ a ∈ overrides, p a) :
    (override columns overrides).isEmpty = false ∧ ∀ a ∈ override columns overrides, p a := by
  induction overrides generalizing columns with
  | nil => exact hcolumns
  | cons new overrides ih =>
    obtain ⟨hnew, hrest⟩ := List.forall_mem_cons.1 hoverrides
    refine ih ⟨isEmpty_overrideOne columns new, fun a ha => ?_⟩ hrest
    obtain ha | rfl := mem_overrideOne ha
    · exact hcolumns.2 a ha
    · exact hnew

end Metadata

namespace External

variable {σ : Type} {answer : σ → Request → Reply × σ}

/-- The columns that a reply to an attempt tells of. -/
theorem isWritable_of_learn {attempt : Attempt} {timeName : String} {reply : Reply}
    {columns : List Attribute} (h : attempt.learn timeName reply = .ok columns) :
    columns.isEmpty = false ∧ ∀ a ∈ columns, a.IsWritable := by
  obtain ⟨items, -, h⟩ := Except.bind_eq_ok.1 h
  rw [Attempt.columns.eq_def] at h
  split at h
  · split at h
    · cases h
    · exact Metadata.isWritable_of_ofSegments h
  · split at h
    · cases h
    · exact Metadata.isWritable_of_ofListing h

/-- The columns that are found by an attempt or by one of less capability. -/
theorem isWritable_of_learnColumns {x : External} {attempt : Attempt} {s : σ}
    {columns : List Attribute} (h : ((x.learnColumns attempt).run answer s).1 = .ok columns) :
    columns.isEmpty = false ∧ ∀ a ∈ columns, a.IsWritable := by
  rw [learnColumns_eq, Exchange.run] at h
  simp only at h
  split at h
  · next hlearn =>
    cases h
    exact isWritable_of_learn hlearn
  · split at h
    · exact isWritable_of_learnColumns h
    · cases h
termination_by attempt.capability
decreasing_by
  exact Attempt.capability_stepDown (by assumption)

/-- A datasource that has been introspected can be written. -/
theorem isWritable_of_introspect {x y : External} {s : σ} (hx : x.IsWritable)
    (h : (x.introspect.run answer s).1 = .ok y) : y.backend = x.backend ∧ y.IsWritable := by
  rw [introspect] at h
  split at h
  · cases h
    exact ⟨rfl, hx⟩
  · change (Exchange.run answer (Exchange.bind _ _) s).1 = _ at h
    rw [Exchange.run_bind] at h
    split at h
    · next version s' _ =>
      change (Exchange.run answer (Exchange.bind _ _) s').1 = _ at h
      rw [Exchange.run_bind] at h
      split at h
      · next columns s'' hrun =>
        cases h
        have hcolumns := isWritable_of_learnColumns (congrArg Prod.fst hrun)
        obtain ⟨hempty, hwritable⟩ := Metadata.override_spec hcolumns hx.overrides
        refine ⟨rfl, hx.source, hx.timeAttribute, ?_, ?_, hx.overrides⟩
        · rintro _ ⟨⟩
          exact hempty
        · rintro _ ⟨⟩
          exact hwritable
      · cases h
    · cases h

/-- **Descriptors.** The datasource of a descriptor is read from its own descriptor, the same one in
every part, and so is the datasource that introspection makes of it, whatever a backend replies. -/
theorem read_toJson_of_read {backend : String} {j : Json} (hj : j.isDocument = true)
    {x : External} (h : read backend j = .ok x) :
    read backend x.toJson = .ok x ∧
      ∀ (σ : Type) (answer : σ → Request → Reply × σ) (s : σ) (y : External),
        (x.introspect.run answer s).1 = .ok y → read backend y.toJson = .ok y := by
  obtain ⟨rfl, hx⟩ := isWritable_of_read hj h
  refine ⟨read_of_isWritable hx, fun σ answer s y hy => ?_⟩
  obtain ⟨hbackend, hwritable⟩ := isWritable_of_introspect hx hy
  rw [← hbackend]
  exact read_of_isWritable hwritable

end External

/-! ### A stored datasource -/

namespace Sample

/-- A column of sums of two others. -/
def changed : Attribute :=
  { name := "changed"
    kind := .number
    nativeType := none
    unsplitable := true
    maker := some (.accumulate .sum
      (.binary (.arithmetic .add) (.ref "added") (.ref "deleted"))) }

/-- The datasource of edits as it is stored before its columns are known, with a column that takes
the place of a discovered one. -/
def storedEdits : External :=
  { edits with
    attributes := none
    strategy := .datasourceGet
    context := some [("priority", .int 2)]
    overrides := [changed]
    allowSelect := false
    version := some "0.9.2" }

theorem storedEdits_isWritable : storedEdits.IsWritable := by
  refine ⟨rfl, rfl, nofun, nofun, List.forall_mem_singleton.2 ?_⟩
  rintro _ ⟨⟩
  exact List.forall_mem_nil _

/-- The reply of a backend that lists a dimension and two metrics. -/
def listingReplies : List Reply :=
  [[.ok (.object [("dimensions", .array [.string "page"]),
    ("metrics", .array [.string "added", .string "changed"])])]]

/-- The datasource of edits with the columns of the listing. -/
def listedEdits : External :=
  storedEdits.introspected
    [.plain "time" .time "__time", .plain "page" .string "STRING",
      { Attribute.plain "added" .number "FLOAT" with unsplitable := true },
      { Attribute.plain "changed" .number "FLOAT" with unsplitable := true }]
    (some "0.9.2")

theorem run_listingReplies :
    (storedEdits.introspect.run giveReply listingReplies).1 = .ok listedEdits := by
  have hintrospect : storedEdits.introspect =
      (storedEdits.learnColumns .listing).bind fun columns =>
        .done (storedEdits.introspected columns (some "0.9.2")) := rfl
  rw [hintrospect, Exchange.run_bind, External.learnColumns_eq]
  rfl

end Sample

open Sample in
/-- The stored datasource is read from its descriptor, before and after its introspection. -/
theorem External.read_toJson_storedEdits :
    (storedEdits.toJson.isDocument = true ∧ read "wiki" storedEdits.toJson = .ok storedEdits) ∧
      (storedEdits.introspect.run giveReply listingReplies).1 = .ok listedEdits ∧
      read "wiki" listedEdits.toJson = .ok listedEdits := by
  have hj : storedEdits.toJson.isDocument = true := by decide
  have hread : read "wiki" storedEdits.toJson = .ok storedEdits :=
    read_of_isWritable storedEdits_isWritable
  obtain ⟨hagain, hintrospected⟩ := read_toJson_of_read hj hread
  exact ⟨⟨hj, hagain⟩, run_listingReplies,
    hintrospected _ giveReply listingReplies _ run_listingReplies⟩

end FederatedQuery
