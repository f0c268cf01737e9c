import FederatedQuery.Proofs.Doubles
import FederatedQuery.Proofs.Instants
import FederatedQuery.Proofs.RoundTrip

/-!
# What is read from documents

In the text of a document every number is finite: it is an integer of 64 bits, or a double whose
digits have been read. So whatever is read from a document has finite numbers only. Moreover rows
are read with their names in ascending order, and instants as their texts give them. A value, and an
expression, that has been read can thus be written and read again.

## Main definitions

* `Json.isDocument`: the trees that texts give.

## Main results

* `Value.isWritable_of_ofJson?`, `Expression.isWritable_of_ofJson?`: what has been read can be
  written.
-/

namespace FederatedQuery

/-! ### Documents -/

namespace Json

mutual

/-- Whether every number of a tree is one that a text can give. -/
def isDocument : Json → Bool
  | .int n => isExact n
  | .float x => x.isFinite
  | .array items => areDocuments items
  | .object fields => holdDocuments fields
  | _ => true

/-- Whether all items of an array are documents. -/
def areDocuments : List Json → Bool
  | [] => true
  | item :: rest => item.isDocument && areDocuments rest

/-- Whether all fields of an object hold documents. -/
def holdDocuments : List (String × Json) → Bool
  | [] => true
  | (_, value) :: rest => value.isDocument && holdDocuments rest

end

theorem isDocument_array {items : List Json} :
    (array items).isDocument = true ↔ ∀ item ∈ items, item.isDocument = true := by
  rw [isDocument]
  induction items with
  | nil => simp [areDocuments]
  | cons item items ih => simp [areDocuments, ih]

theorem isDocument_object {fields : Fields} :
    (object fields).isDocument = true ↔ ∀ field ∈ fields, field.2.isDocument = true := by
  rw [isDocument]
  induction fields with
  | nil => simp [holdDocuments]
  | cons field fields ih => simp [holdDocuments, ih]

/-- The number of a document is finite. -/
theorem isFinite_of_double? {j : Json} (hj : j.isDocument = true) {x : Float}
    (h : j.double? = some x) : x.isFinite = true := by
  cases j with
  | int n =>
    cases h
    exact Double.isFinite_ofInt hj
  | float x =>
    cases h
    exact hj
  | _ => cases h

variable {α : Type} {j : Json}

theorem isDocument_of_mem_parts {items : List Json} (hj : (array items).isDocument = true)
    {part : Part (.array items)} (h : part ∈ parts items) : part.val.isDocument = true := by
  refine isDocument_array.1 hj _ ?_
  have hval := List.mem_map_of_mem (f := Subtype.val) h
  rwa [map_parts] at hval

theorem isDocument_of_mem_fieldParts {fields : Fields} (hj : (object fields).isDocument = true)
    {field : String × Part (.object fields)} (h : field ∈ fieldParts fields) :
    field.2.val.isDocument = true := by
  have hval := List.mem_map_of_mem (f := fun field => (field.1, field.2.val)) h
  rw [map_fieldParts] at hval
  exact isDocument_object.1 hj _ hval

/-- The fields of a record are documents. -/
def Record.HoldsDocuments (r : Record j) : Prop :=
  ∀ field ∈ r.fields, field.2.val.isDocument = true

theorem holdsDocuments_of_record? {names : List String} (hj : j.isDocument = true) {r : Record j}
    (h : j.record? names = some r) : r.HoldsDocuments := by
  cases j with
  | object fields =>
    cases h
    exact fun field hfield => isDocument_of_mem_fieldParts hj hfield
  | array items =>
    rw [record?] at h
    split at h
    · cases h
      exact fun field hfield => isDocument_of_mem_parts hj (List.of_mem_zip hfield).2
    · cases h
  | _ => cases h

theorem holdsDocuments_of_contents? {names : List String} (hj : j.isDocument = true)
    {r : Record j} (h : j.contents? names = some r) : r.HoldsDocuments := by
  cases j with
  | object fields =>
    cases h
    exact fun field hfield => isDocument_of_mem_fieldParts hj hfield
  | array items =>
    cases items with
    | nil => cases h
    | cons tag items =>
      rw [contents?] at h
      split at h
      · cases h
        exact fun field hfield =>
          isDocument_of_mem_parts hj (List.mem_of_mem_drop (List.of_mem_zip hfield).2)
      · cases h
  | _ => cases h

namespace Record

variable {r : Record j} {key : String} {read : Part j → Option α}

theorem HoldsDocuments.get? (hr : r.HoldsDocuments) {part : Part j}
    (h : r.get? key = some part) : part.val.isDocument = true := by
  obtain ⟨before, after, hfields, -⟩ := List.lookup_eq_some_iff.1 h
  refine hr (key, part) ?_
  rw [hfields]
  exact List.mem_append_right _ List.mem_cons_self

/-- A required field is read from a document. -/
theorem HoldsDocuments.required (hr : r.HoldsDocuments) {a : α}
    (h : r.required key read = some a) :
    ∃ part : Part j, part.val.isDocument = true ∧ read part = some a := by
  obtain ⟨part, hpart, hread⟩ := Option.bind_eq_some_iff.1 h
  exact ⟨part, hr.get? hpart, hread⟩

theorem of_nullable {part : Part j} {a : α} (h : nullable read part = some (some a)) :
    read part = some a := by
  rw [nullable] at h
  split at h
  · cases h
  · obtain ⟨b, hread, hb⟩ := Option.map_eq_some_iff.1 h
    cases hb
    exact hread

theorem HoldsDocuments.optional (hr : r.HoldsDocuments) {a : α}
    (h : r.optional key read = some (some a)) :
    ∃ part : Part j, part.val.isDocument = true ∧ read part = some a := by
  rw [Record.optional] at h
  split at h
  · split at h <;> cases h
  · rename_i part hpart
    exact ⟨part, hr.get? hpart, of_nullable h⟩

theorem HoldsDocuments.withDefault (hr : r.HoldsDocuments) {fallback a : α}
    (h : r.withDefault key fallback read = some a) :
    a = fallback ∨ ∃ part : Part j, part.val.isDocument = true ∧ read part = some a := by
  rw [Record.withDefault] at h
  split at h
  · exact .inl (Option.some.inj h).symm
  · rename_i part hpart
    exact .inr ⟨part, hr.get? hpart, h⟩

theorem HoldsDocuments.absentOr (hr : r.HoldsDocuments) {a : α}
    (h : r.absentOr key read = some (some a)) :
    ∃ part : Part j, part.val.isDocument = true ∧ read part = some a := by
  obtain h | ⟨part, hpart, hread⟩ := hr.withDefault h
  · cases h
  · exact ⟨part, hpart, of_nullable hread⟩

end Record

/-- Whatever is read item by item is read from an item. -/
theorem exists_of_mapM_eq_some {β : Type} {f : α → Option β} {as : List α} {bs : List β}
    (h : as.mapM f = some bs) : ∀ b ∈ bs, ∃ a ∈ as, f a = some b := by
  induction as generalizing bs with
  | nil =>
    cases h
    nofun
  | cons a as ih =>
    simp only [List.mapM_cons, Option.bind_eq_bind, Option.bind_eq_some_iff] at h
    obtain ⟨b, hb, rest, hrest, h⟩ := h
    cases h
    intro c hc
    obtain rfl | hmem := List.mem_cons.1 hc
    · exact ⟨a, List.mem_cons_self, hb⟩
    · obtain ⟨d, hd, hfd⟩ := ih hrest c hmem
      exact ⟨d, List.mem_cons_of_mem _ hd, hfd⟩

theorem exists_of_readItems? (hj : j.isDocument = true) {read : Part j → Option α}
    {items : List α} (h : j.readItems? read = some items) :
    ∀ a ∈ items, ∃ part : Part j, part.val.isDocument = true ∧ read part = some a := by
  cases j with
  | array parts =>
    intro a ha
    obtain ⟨part, hpart, hread⟩ := exists_of_mapM_eq_some h a ha
    exact ⟨part, isDocument_of_mem_parts hj hpart, hread⟩
  | _ => cases h

theorem exists_of_readFields? (hj : j.isDocument = true) {read : Part j → Option α}
    {fields : List (String × α)} (h : j.readFields? read = some fields) :
    ∀ field ∈ fields, ∃ part : Part j, part.val.isDocument = true ∧ read part = some field.2 := by
  cases j with
  | object parts =>
    intro field hfield
    obtain ⟨⟨key, part⟩, hpart, hread⟩ := exists_of_mapM_eq_some h field hfield
    obtain ⟨a, ha, rfl⟩ := Option.map_eq_some_iff.1 hread
    exact ⟨part, isDocument_of_mem_fieldParts hj hpart, ha⟩
  | _ => cases h

end Json

/-! ### Values -/

/-- An instant of a document can be read from its text. -/
theorem Instant.reads_of_ofJson? {j : Json} {t : Instant} (h : ofJson? j = some t) :
    read? t.canonical = some t := by
  obtain ⟨s, -, hread⟩ := Option.bind_eq_some_iff.1 h
  exact read?_canonical_of_read? hread

theorem TimeRange.reads_of_ofJson? {j : Json} {r : TimeRange} (h : ofJson? j = some r) :
    Instant.read? r.start.canonical = some r.start ∧
      Instant.read? r.stop.canonical = some r.stop := by
  simp only [ofJson?, Option.bind_eq_bind, Option.bind_eq_some_iff] at h
  obtain ⟨_, -, start, hstart, stop, hstop, h⟩ := h
  cases h
  obtain ⟨_, -, hstart⟩ := Option.bind_eq_some_iff.1 hstart
  obtain ⟨_, -, hstop⟩ := Option.bind_eq_some_iff.1 hstop
  exact ⟨Instant.reads_of_ofJson? hstart, Instant.reads_of_ofJson? hstop⟩

theorem NumberRange.isFinite_of_ofJson? {j : Json} (hj : j.isDocument = true) {r : NumberRange}
    (h : ofJson? j = some r) :
    (∀ x ∈ r.start, x.isFinite = true) ∧ ∀ x ∈ r.stop, x.isFinite = true := by
  simp only [ofJson?, Option.bind_eq_bind, Option.bind_eq_some_iff] at h
  obtain ⟨record, hrecord, start, hstart, stop, hstop, h⟩ := h
  have hr := Json.holdsDocuments_of_record? hj hrecord
  cases h
  constructor
  · rintro x rfl
    obtain ⟨part, hpart, hx⟩ := hr.optional hstart
    exact Json.isFinite_of_double? hpart hx
  · rintro x rfl
    obtain ⟨part, hpart, hx⟩ := hr.optional hstop
    exact Json.isFinite_of_double? hpart hx

namespace Value

theorem mem_partsOfCells {cells : List (String × Value)} {u : Value} :
    u ∈ partsOfCells cells ↔ ∃ cell ∈ cells, u ∈ cell.2.parts := by
  induction cells with
  | nil => simp [partsOfCells]
  | cons cell cells ih => simp [partsOfCells, ih]

theorem mem_partsOfRows {rows : Dataset} {u : Value} :
    u ∈ partsOfRows rows ↔ ∃ row ∈ rows, u ∈ partsOfCells row := by
  induction rows with
  | nil => simp [partsOfRows]
  | cons row rows ih => simp [partsOfRows, ih]

/-- A value that is no dataset is its only part. -/
theorem parts_of_isDataset {v : Value} (h : v.isDataset = false) : v.parts = [v] := by
  cases v with
  | dataset rows => cases h
  | _ => rfl

/-- The content of a value that is no dataset can be written. -/
theorem isWritable_of_scalar? {kind : Kind} {content : Json}
    (hcontent : content.isDocument = true) {v : Value} (h : scalar? kind content = some v) :
    v.isDataset = false ∧ v.IsWritable := by
  cases kind with
  | null | dataset => cases h
  | boolean | string | stringSet =>
    obtain ⟨_, -, rfl⟩ := Option.map_eq_some_iff.1 h
    exact ⟨rfl, List.forall_mem_nil _, List.forall_mem_nil _, List.forall_mem_nil _⟩
  | number =>
    obtain ⟨x, hx, rfl⟩ := Option.map_eq_some_iff.1 h
    refine ⟨rfl, fun y hy => ?_, List.forall_mem_nil _, List.forall_mem_nil _⟩
    rw [List.mem_singleton.1 hy]
    exact Json.isFinite_of_double? hcontent hx
  | time =>
    obtain ⟨t, ht, rfl⟩ := Option.map_eq_some_iff.1 h
    refine ⟨rfl, List.forall_mem_nil _, fun u hu => ?_, List.forall_mem_nil _⟩
    rw [List.mem_singleton.1 hu]
    exact Instant.reads_of_ofJson? ht
  | timeRange =>
    obtain ⟨r, hr, rfl⟩ := Option.map_eq_some_iff.1 h
    obtain ⟨hstart, hstop⟩ := TimeRange.reads_of_ofJson? hr
    refine ⟨rfl, List.forall_mem_nil _, fun u hu => ?_, List.forall_mem_nil _⟩
    obtain rfl | hu := List.mem_cons.1 hu
    · exact hstart
    · rw [List.mem_singleton.1 hu]
      exact hstop
  | numberRange =>
    obtain ⟨r, hr, rfl⟩ := Option.map_eq_some_iff.1 h
    obtain ⟨hstart, hstop⟩ := NumberRange.isFinite_of_ofJson? hcontent hr
    refine ⟨rfl, fun x hx => ?_, List.forall_mem_nil _, List.forall_mem_nil _⟩
    obtain hx | hx := List.mem_append.1 hx
    · exact hstart x (Option.mem_toList.1 hx)
    · exact hstop x (Option.mem_toList.1 hx)

/-- **Values.** A value that has been read from a document is made of parts that can be written. -/
theorem isWritable_of_ofJson? {nested : Bool} {j : Json} (hj : j.isDocument = true) {v : Value}
    (h : ofJson? nested j = some v) : ∀ u ∈ v.parts, u.IsWritable := by
  rw [ofJson?] at h
  simp only [Option.bind_eq_bind, Option.bind_eq_some_iff] at h
  obtain ⟨r, hrecord, kind, -, h⟩ := h
  have hr := Json.holdsDocuments_of_record? hj hrecord
  have hscalar (h : (r.required "value" fun content => scalar? kind content.val) = some v) :
      ∀ u ∈ v.parts, u.IsWritable := by
    obtain ⟨content, hcontent, hv⟩ := hr.required h
    obtain ⟨hdataset, hwritable⟩ := isWritable_of_scalar? hcontent hv
    rw [parts_of_isDataset hdataset]
    exact List.forall_mem_singleton.2 hwritable
  cases kind with
  | null =>
    have hnull : v = .null := by
      simp only at h
      split at h
      · split at h <;> cases h
        rfl
      · split at h <;> cases h
        rfl
    rw [hnull]
    exact List.forall_mem_singleton.2
      ⟨List.forall_mem_nil _, List.forall_mem_nil _, List.forall_mem_nil _⟩
  | dataset =>
    obtain ⟨content, hcontent, h⟩ := hr.required h
    simp only [Option.bind_eq_some_iff] at h
    obtain ⟨d, hd, h⟩ := h
    obtain ⟨rows, hrows, h⟩ := (Json.holdsDocuments_of_record? hcontent hd).required h
    obtain ⟨items, hitems, h⟩ := Option.bind_eq_some_iff.1 h
    have hrow := Json.exists_of_readItems? hrows hitems
    cases h
    refine List.forall_mem_cons.2 ⟨⟨List.forall_mem_nil _, List.forall_mem_nil _,
      fun row hmem => ?_⟩, fun u hu => ?_⟩
    · obtain ⟨part, -, hpart⟩ := hrow row hmem
      obtain ⟨cells, -, rfl⟩ := Option.map_eq_some_iff.1 hpart
      exact Row.isSorted_ofCells cells
    · obtain ⟨row, hmem, hu⟩ := mem_partsOfRows.1 hu
      obtain ⟨part, hpart, hmap⟩ := hrow row hmem
      obtain ⟨cells, hcells, rfl⟩ := Option.map_eq_some_iff.1 hmap
      obtain ⟨cell, hcell, hu⟩ := mem_partsOfCells.1 hu
      obtain ⟨value, hvalue, hread⟩ :=
        Json.exists_of_readFields? hpart hcells cell (Row.mem_of_mem_ofCells hcell)
      exact isWritable_of_ofJson? hvalue hread u hu
  | _ => exact hscalar h
termination_by sizeOf j
decreasing_by
  have := content.property
  have := rows.property
  have := part.property
  have := value.property
  omega

end Value

/-! ### Expressions -/

namespace Expression

theorem values_ref (name : String) : (ref name).values = [] := rfl

/-- What holds of all values of its operands holds of all values of an operation. -/
theorem forall_values_of_operation {p : Value → Prop} {e : Expression} (he : e.children ≠ [])
    (h : ∀ child ∈ e.children, ∀ v ∈ child.values, p v) : ∀ v ∈ e.values, p v :=
  forall_values_of_children (fun _ hliteral => he (congrArg children hliteral)) h

/-- **Expressions.** The values of an expression that has been read from a document can be
written. -/
theorem isWritable_of_ofJson? {nested : Bool} {j : Json} (hj : j.isDocument = true)
    {e : Expression} (h : ofJson? nested j = some e) : ∀ v ∈ e.values, v.IsWritable := by
  rw [ofJson?] at h
  simp only [Option.bind_eq_bind, Option.bind_eq_some_iff] at h
  obtain ⟨op, -, r, hrecord, h⟩ := h
  have hr := Json.holdsDocuments_of_contents? hj hrecord
  have hchild {key : String} {child : Expression}
      (h : (r.required key fun part => ofJson? true part.val) = some child) :
      ∀ v ∈ child.values, v.IsWritable := by
    obtain ⟨part, hpart, hread⟩ := hr.required h
    exact isWritable_of_ofJson? hpart hread
  have hunary {operand e : Expression} (he : e.children = [operand])
      (h : (r.required "operand" fun part => ofJson? true part.val) = some operand) :
      ∀ v ∈ e.values, v.IsWritable := by
    refine forall_values_of_operation (he ▸ List.cons_ne_nil _ _) ?_
    rw [he]
    exact List.forall_mem_singleton.2 (hchild h)
  have hbinary {operand argument e : Expression} (he : e.children = [operand, argument])
      (h : (r.required "operand" fun part => ofJson? true part.val) = some operand)
      (h' : (r.required "expression" fun part => ofJson? true part.val) = some argument) :
      ∀ v ∈ e.values, v.IsWritable := by
    refine forall_values_of_operation (he ▸ List.cons_ne_nil _ _) ?_
    rw [he]
    exact List.forall_mem_cons.2 ⟨hchild h, List.forall_mem_singleton.2 (hchild h')⟩
  cases op with
  | literal =>
    obtain ⟨part, hpart, h⟩ := hr.required h
    obtain ⟨v, hv, rfl⟩ := Option.map_eq_some_iff.1 h
    rw [values_literal]
    exact Value.isWritable_of_ofJson? hpart hv
  | ref =>
    obtain ⟨name, -, rfl⟩ := Option.map_eq_some_iff.1 h
    rw [values_ref]
    exact List.forall_mem_nil _
  | count | not =>
    obtain ⟨operand, hoperand, h⟩ := Option.bind_eq_some_iff.1 h
    cases h
    exact hunary rfl hoperand
  | regex | timeBucket =>
    obtain ⟨operand, hoperand, h⟩ := Option.bind_eq_some_iff.1 h
    obtain ⟨_, -, rfl⟩ := Option.map_eq_some_iff.1 h
    exact hunary rfl hoperand
  | limit =>
    obtain ⟨operand, hoperand, h⟩ := Option.bind_eq_some_iff.1 h
    obtain ⟨part, -, h⟩ := hr.required h
    obtain ⟨_, -, rfl⟩ := Option.map_eq_some_iff.1 h
    exact hunary rfl hoperand
  | filter | binary =>
    obtain ⟨operand, hoperand, h⟩ := Option.bind_eq_some_iff.1 h
    obtain ⟨argument, hargument, h⟩ := Option.bind_eq_some_iff.1 h
    cases h
    exact hbinary rfl hoperand hargument
  | split | apply =>
    obtain ⟨operand, hoperand, h⟩ := Option.bind_eq_some_iff.1 h
    obtain ⟨argument, hargument, h⟩ := Option.bind_eq_some_iff.1 h
    obtain ⟨_, -, rfl⟩ := Option.map_eq_some_iff.1 h
    exact hbinary rfl hoperand hargument
  | sort =>
    obtain ⟨operand, hoperand, h⟩ := Option.bind_eq_some_iff.1 h
    obtain ⟨argument, hargument, h⟩ := Option.bind_eq_some_iff.1 h
    obtain ⟨part, -, h⟩ := hr.required h
    obtain ⟨_, -, rfl⟩ := Option.map_eq_some_iff.1 h
    exact hbinary rfl hoperand hargument
termination_by sizeOf j
decreasing_by exact part.property

end Expression

end FederatedQuery
