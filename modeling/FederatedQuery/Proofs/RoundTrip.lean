import FederatedQuery.Expression.Codec
import FederatedQuery.Proofs.Contents
import FederatedQuery.Proofs.Records
import FederatedQuery.Proofs.Rows

/-!
# Expressions read back

The canonical form of an expression can always be written, and from it the expression is read back:
nothing is lost and nothing changes. This needs what the form cannot hold otherwise. A number that
is not finite would be written as `null`. The rows have their names in ascending order, as rows are
kept. For the instants it is supposed that their texts can be read back.

Readers are followed along their recursion, over the values in cells and over the nodes of
expressions. A node inside another one is read as *nested*, where tags may also be positions; what
has been written has names only, so the two ways of reading agree on it.

## Main definitions

* `Value.IsWritable`: values whose own numbers, instants and rows the canonical form can hold.

## Main results

* `Value.ofJson?_toJson`, `Expression.ofJson?_toJson`: what has been written is read.
* `Expression.read_toJson`: a valid expression is read back from its canonical form, and is equal to
  itself.
-/

namespace FederatedQuery

/-! ### Instants and ranges -/

theorem Instant.ofJson?_toJson {t : Instant} (h : read? t.canonical = some t) :
    ofJson? t.toJson = some t := by
  rw [ofJson?, toJson, Json.text?, Option.bind_some, h]

theorem TimeRange.ofJson?_toJson {r : TimeRange}
    (hstart : Instant.read? r.start.canonical = some r.start)
    (hstop : Instant.read? r.stop.canonical = some r.stop) : ofJson? r.toJson = some r := by
  rw [ofJson?, toJson, Json.record?_object]
  simp only [Option.bind_eq_bind, Option.bind_some]
  rw [Json.required_named _ "start" Instant.ofJson?, Json.required_named _ "end" Instant.ofJson?]
  simp [List.lookup_cons, Instant.ofJson?_toJson hstart, Instant.ofJson?_toJson hstop]

/-- An end of a range of numbers is read as it has been written. -/
theorem NumberRange.read_boundToJson {bound : Option Float}
    (h : ∀ x ∈ bound, x.isFinite = true) :
    (if (boundToJson bound).isNull then some none else (boundToJson bound).double?.map some) =
      some bound := by
  cases bound with
  | none => rfl
  | some x =>
    have hx := h x rfl
    rw [boundToJson, Json.double?_ofDouble hx, Json.ofDouble, if_pos hx]
    rfl

theorem NumberRange.ofJson?_toJson {r : NumberRange}
    (hstart : ∀ x ∈ r.start, x.isFinite = true) (hstop : ∀ x ∈ r.stop, x.isFinite = true) :
    ofJson? r.toJson = some r := by
  rw [ofJson?, toJson, Json.record?_object]
  simp only [Option.bind_eq_bind, Option.bind_some]
  rw [Json.optional_named _ "start" Json.double?, Json.optional_named _ "end" Json.double?]
  simp [List.lookup_cons, read_boundToJson hstart, read_boundToJson hstop]

/-! ### Values -/

namespace Value

/-- In an object the kind of a value is read as it has been written. -/
theorem kind?_name (nested : Bool) (kind : Kind) :
    kind? nested true (.string kind.name) = some kind := by
  rw [kind?, if_pos rfl, Json.choice?, Option.bind_some, Kind.ofName?_name]

theorem ofJson?_null (nested : Bool) : ofJson? nested (toJson .null) = some .null := by
  rw [ofJson?, toJson, Json.record?_object]
  simp only [Option.bind_eq_bind, Option.bind_some, Json.named_named]
  rw [Json.required_named _ "type" (kind? nested true)]
  simp [kind?_name]
  rfl

/-- A value of a kind with a scalar content. -/
theorem ofJson?_tagged (nested : Bool) (kind : Kind) (hnull : kind ≠ .null)
    (hdataset : kind ≠ .dataset) (content : Json) :
    ofJson? nested (tagged kind content) = scalar? kind content := by
  rw [ofJson?, tagged, Json.record?_object]
  simp only [Option.bind_eq_bind, Option.bind_some, Json.named_named]
  rw [Json.required_named _ "type" (kind? nested true), List.lookup_cons_self, Option.bind_some,
    kind?_name, Option.bind_some]
  cases kind with
  | null => exact absurd rfl hnull
  | dataset => exact absurd rfl hdataset
  | _ => exact Json.required_named _ "value" _

/-- Reads a row in a dataset. -/
def row? (nested : Bool) (row : Json) : Option Row :=
  (row.readFields? fun cell => ofJson? nested cell.val).map Row.ofCells

/-- A dataset is read row by row. -/
theorem ofJson?_dataset (nested : Bool) (rows : List Json) :
    ofJson? nested (tagged .dataset (dataRecord rows)) =
      (rows.mapM (row? nested)).map .dataset := by
  rw [ofJson?, tagged, Json.record?_object]
  simp only [Option.bind_eq_bind, Option.bind_some, Json.named_named]
  rw [Json.required_named _ "type" (kind? nested true), List.lookup_cons_self, Option.bind_some,
    kind?_name, Option.bind_some]
  have hbefore : (Json.named [("type", .string Kind.dataset.name),
      ("value", dataRecord rows)]).isBefore "value" "type" = false := by
    simp [Json.Record.isBefore, Json.named, Json.fieldParts]
  simp only [hbefore, Bool.or_false]
  refine (Json.required_named _ "value" fun content => (content.record? ["data"]).bind fun d =>
    d.required "data" fun rows => (rows.val.readItems? fun row => row? nested row.val).bind
      fun rows => some (Value.dataset rows)).trans ?_
  have hcontent : List.lookup "value" [("type", Json.string Kind.dataset.name),
      ("value", dataRecord rows)] = some (dataRecord rows) := rfl
  rw [hcontent, Option.bind_some, dataRecord, Json.record?_object, Option.bind_some,
    Json.required_named _ "data" fun rows => (rows.readItems? fun row => row? nested row.val).bind
      fun rows => some (Value.dataset rows), List.lookup_cons_self, Option.bind_some,
    Json.readItems?_array rows (row? nested)]
  cases rows.mapM (row? nested) <;> rfl

/-- A cell is read under its name. -/
theorem row?_object (nested : Bool) (cells : Json.Fields) :
    row? nested (.object cells) =
      (cells.mapM fun cell => (ofJson? nested cell.2).map (cell.1, ·)).map Row.ofCells := by
  rw [row?, Json.readFields?_object cells (ofJson? nested)]

/-- What a value is made of can be written: its numbers are finite, the texts of its instants can be
read, and its rows have their names in ascending order. -/
structure IsWritable (v : Value) : Prop where
  finite : ∀ x ∈ v.numbers, x.isFinite = true
  reads : ∀ t ∈ v.instants, Instant.read? t.canonical = some t
  sorted : ∀ row ∈ v.rows, row.IsSorted

mutual

/-- **Values.** A value of parts that can be written is read from its canonical form. -/
theorem ofJson?_toJson (nested : Bool) : (v : Value) → (∀ u ∈ v.parts, u.IsWritable) →
    ofJson? nested v.toJson = some v
  | .null, _ => ofJson?_null nested
  | .boolean b, _ => ofJson?_tagged nested .boolean nofun nofun (.bool b)
  | .number x, h => by
    have hx := (h _ List.mem_cons_self).finite x List.mem_cons_self
    rw [toJson, ofJson?_tagged nested .number nofun nofun, scalar?, Json.double?_ofDouble hx]
    rfl
  | .string s, _ => ofJson?_tagged nested .string nofun nofun (.string s)
  | .time t, h => by
    have ht := (h _ List.mem_cons_self).reads t List.mem_cons_self
    rw [toJson, ofJson?_tagged nested .time nofun nofun, scalar?, Instant.ofJson?_toJson ht]
    rfl
  | .timeRange r, h => by
    have hreads := (h _ List.mem_cons_self).reads
    have hstart := hreads r.start List.mem_cons_self
    have hstop := hreads r.stop (List.mem_cons_of_mem _ List.mem_cons_self)
    rw [toJson, ofJson?_tagged nested .timeRange nofun nofun, scalar?,
      TimeRange.ofJson?_toJson hstart hstop]
    rfl
  | .numberRange r, h => by
    have hfinite := (h _ List.mem_cons_self).finite
    have hstart (x : Float) (hx : x ∈ r.start) := hfinite x
      (List.mem_append_left _ (Option.mem_toList.2 hx))
    have hstop (x : Float) (hx : x ∈ r.stop) := hfinite x
      (List.mem_append_right _ (Option.mem_toList.2 hx))
    rw [toJson, ofJson?_tagged nested .numberRange nofun nofun, scalar?,
      NumberRange.ofJson?_toJson hstart hstop]
    rfl
  | .stringSet items, _ => by
    have hitems : (items.map Json.string).mapM Json.text? = some items := by
      rw [List.mapM_map]
      exact List.mapM_pure.trans (congrArg some items.map_id)
    rw [toJson, ofJson?_tagged nested .stringSet nofun nofun, scalar?,
      Json.readItems?_array (items.map .string) Json.text?, hitems]
    rfl
  | .dataset rows, h => by
    rw [toJson, ofJson?_dataset, mapM_row?_rowsToJson nested rows]
    · rfl
    · exact fun u hu => h u (List.mem_cons_of_mem _ hu)
    · exact (h _ List.mem_cons_self).sorted

theorem mapM_row?_rowsToJson (nested : Bool) : (rows : List (List (String × Value))) →
    (∀ u ∈ partsOfRows rows, u.IsWritable) → (∀ row ∈ rows, Row.IsSorted row) →
    (rowsToJson rows).mapM (row? nested) = some rows
  | [], _, _ => rfl
  | row :: rest, h, hsorted => by
    obtain ⟨hrow, hrest⟩ := List.forall_mem_cons.1 hsorted
    have hcells := mapM_cellsToJson nested row fun u hu => h u (List.mem_append_left _ hu)
    have hrows := mapM_row?_rowsToJson nested rest (fun u hu => h u (List.mem_append_right _ hu))
      hrest
    rw [rowsToJson, List.mapM_cons, row?_object, hcells, hrows, Option.map_some,
      Row.IsSorted.ofCells_eq hrow]
    rfl

theorem mapM_cellsToJson (nested : Bool) : (cells : List (String × Value)) →
    (∀ u ∈ partsOfCells cells, u.IsWritable) →
    (cellsToJson cells).mapM (fun cell => (ofJson? nested cell.2).map fun v => (cell.1, v)) =
      some cells
  | [], _ => rfl
  | (name, v) :: rest, h => by
    have hv := ofJson?_toJson nested v fun u hu => h u (List.mem_append_left _ hu)
    have hcells := mapM_cellsToJson nested rest fun u hu => h u (List.mem_append_right _ hu)
    rw [cellsToJson, List.mapM_cons, hv, hcells]
    rfl

end

end Value

/-! ### Expressions -/

namespace Expression

/-- A node is read from its tag and its fields. -/
theorem ofJson?_node (nested : Bool) (op : Op) (fields : Json.Fields) :
    ofJson? nested (node op fields) =
      let r := Json.named (("op", .string op.name) :: fields)
      let text (key : String) := r.required key fun part => part.val.text?
      match op with
      | .literal => r.required "value" fun part => (Value.ofJson? true part.val).map .literal
      | .ref => (text "name").map .ref
      | op =>
        (r.required "operand" fun part => ofJson? true part.val).bind fun operand =>
        match op with
        | .count => some (.count operand)
        | .not => some (.not operand)
        | .limit => r.required "value" fun part => part.val.word?.map (.limit operand)
        | .regex => (text "regexp").map (.regex operand)
        | .timeBucket => (text "duration").map (.timeBucket operand)
        | op =>
          (r.required "expression" fun part => ofJson? true part.val).bind fun argument =>
          match op with
          | .filter => some (.filter operand argument)
          | .split => (text "name").map (.split operand argument)
          | .apply => (text "name").map (.apply operand argument)
          | .sort =>
            r.required "direction" fun part =>
              (Direction.ofJson? part.val).map (.sort operand argument)
          | .binary op => some (.binary op operand argument)
          | _ => none := by
  rw [node, ofJson?]
  simp only [Json.tag?, List.lookup_cons_self, Option.bind_eq_bind, Option.bind_some,
    Json.tagged?, Op.ofName?_name]
  rfl

theorem required_operand (tag operand : Json) (rest : Json.Fields) :
    (Json.named (("op", tag) :: ("operand", operand) :: rest)).required "operand"
      (fun part => ofJson? true part.val) = ofJson? true operand :=
  Json.required_named _ "operand" (ofJson? true)

theorem required_argument (tag operand argument : Json) (rest : Json.Fields) :
    (Json.named (("op", tag) :: ("operand", operand) :: ("expression", argument) :: rest)).required
      "expression" (fun part => ofJson? true part.val) = ofJson? true argument :=
  Json.required_named _ "expression" (ofJson? true)

/-- A limit. Its number is given by the document, since `2^64` is not to be computed with. -/
theorem ofJson?_limit (nested : Bool) {operand word : Json} {e : Expression} {rows : UInt64}
    (hoperand : ofJson? true operand = some e) (hrows : word.word? = some rows) :
    ofJson? nested (node .limit [("operand", operand), ("value", word)]) = some (limit e rows) := by
  rw [ofJson?_node]
  simp only [required_operand, hoperand, Option.bind_some]
  refine (Json.required_named _ "value" fun j => j.word?.map (limit e)).trans ?_
  exact congrArg (Option.map (limit e)) hrows

/-- **Expressions.** An expression of values that can be written is read from its canonical form. -/
theorem ofJson?_toJson (nested : Bool) {e : Expression} (h : ∀ v ∈ e.values, v.IsWritable) :
    ofJson? nested e.toJson = some e := by
  induction e generalizing nested with
  | literal v =>
    rw [values_literal] at h
    rw [toJson, ofJson?_node]
    refine (Json.required_named _ "value" fun j => (Value.ofJson? true j).map literal).trans ?_
    exact congrArg (Option.map literal) (Value.ofJson?_toJson true v h)
  | ref name =>
    rw [toJson, ofJson?_node]
    exact congrArg (Option.map ref) (Json.required_named _ "name" Json.text?)
  | filter operand predicate ihoperand ihpredicate =>
    have hoperand := ihoperand true (forall_values List.mem_cons_self h)
    have hpredicate := ihpredicate true
      (forall_values (List.mem_cons_of_mem _ List.mem_cons_self) h)
    rw [toJson, ofJson?_node]
    simp only [required_operand, required_argument, hoperand, hpredicate, Option.bind_some]
  | split operand key name ihoperand ihkey =>
    have hoperand := ihoperand true (forall_values List.mem_cons_self h)
    have hkey := ihkey true (forall_values (List.mem_cons_of_mem _ List.mem_cons_self) h)
    rw [toJson, ofJson?_node]
    simp only [required_operand, required_argument, hoperand, hkey, Option.bind_some]
    exact congrArg (Option.map (split operand key)) (Json.required_named _ "name" Json.text?)
  | apply operand body name ihoperand ihbody =>
    have hoperand := ihoperand true (forall_values List.mem_cons_self h)
    have hbody := ihbody true (forall_values (List.mem_cons_of_mem _ List.mem_cons_self) h)
    rw [toJson, ofJson?_node]
    simp only [required_operand, required_argument, hoperand, hbody, Option.bind_some]
    exact congrArg (Option.map (apply operand body)) (Json.required_named _ "name" Json.text?)
  | sort operand key direction ihoperand ihkey =>
    have hoperand := ihoperand true (forall_values List.mem_cons_self h)
    have hkey := ihkey true (forall_values (List.mem_cons_of_mem _ List.mem_cons_self) h)
    rw [toJson, ofJson?_node]
    simp only [required_operand, required_argument, hoperand, hkey, Option.bind_some]
    refine (Json.required_named _ "direction" fun j =>
      (Direction.ofJson? j).map (sort operand key)).trans ?_
    exact congrArg (Option.map (sort operand key)) direction.ofName?_name
  | limit operand rows ihoperand =>
    have hoperand := ihoperand true (forall_values List.mem_cons_self h)
    rw [toJson, ofJson?_limit nested hoperand (Json.word?_ofWord rows)]
  | count operand ihoperand =>
    have hoperand := ihoperand true (forall_values List.mem_cons_self h)
    rw [toJson, ofJson?_node]
    simp only [required_operand, hoperand, Option.bind_some]
  | not operand ihoperand =>
    have hoperand := ihoperand true (forall_values List.mem_cons_self h)
    rw [toJson, ofJson?_node]
    simp only [required_operand, hoperand, Option.bind_some]
  | regex operand regexp ihoperand =>
    have hoperand := ihoperand true (forall_values List.mem_cons_self h)
    rw [toJson, ofJson?_node]
    simp only [required_operand, hoperand, Option.bind_some]
    exact congrArg (Option.map (regex operand)) (Json.required_named _ "regexp" Json.text?)
  | timeBucket operand duration ihoperand =>
    have hoperand := ihoperand true (forall_values List.mem_cons_self h)
    rw [toJson, ofJson?_node]
    simp only [required_operand, hoperand, Option.bind_some]
    exact congrArg (Option.map (timeBucket operand)) (Json.required_named _ "duration" Json.text?)
  | binary op operand argument ihoperand ihargument =>
    have hoperand := ihoperand true (forall_values List.mem_cons_self h)
    have hargument := ihargument true (forall_values (List.mem_cons_of_mem _ List.mem_cons_self) h)
    rw [toJson, ofJson?_node]
    simp only [required_operand, required_argument, hoperand, hargument, Option.bind_some]

/-! ### Valid expressions -/

/-- **Reading back.** A valid expression of finite numbers and sorted rows, in which the texts of
instants can be read, is read from its canonical form as it is, and is equal to itself. -/
theorem read_toJson {e : Expression} (hvalid : e.validate = .ok ())
    (hfinite : ∀ v ∈ e.values, ∀ x ∈ v.numbers, x.isFinite = true)
    (hsorted : ∀ v ∈ e.values, ∀ row ∈ v.rows, row.IsSorted)
    (hreads : ∀ v ∈ e.values, ∀ t ∈ v.instants, Instant.read? t.canonical = some t) :
    read e.toJson = .ok e ∧ (e == e) = true := by
  have hread : ofJson? false e.toJson = some e :=
    ofJson?_toJson false fun v hv => ⟨hfinite v hv, hreads v hv, hsorted v hv⟩
  refine ⟨?_, same_self hfinite⟩
  rw [read, hread]
  exact congrArg (Except.map fun _ => e) hvalid

end Expression

namespace Sample

/-- A row with values of every kind, the number in a nested dataset. -/
def everyKind : Row :=
  [("at", .time .epoch), ("bounds", .numberRange ⟨some 1.5, none⟩), ("flag", .boolean true),
    ("nested", .dataset [[("added", .number 3)], []]), ("none", .null), ("page", .string "Main"),
    ("tags", .stringSet ["a", "b"]), ("when", .timeRange ⟨.epoch, .latest⟩)]

/-- A query with a node of every shape. -/
def everyShape : Expression :=
  let hour := Expression.timeBucket (.ref "time") "PT1H"
  let edited := Expression.not (.eqTo hour (.literal (.number (-0.0))))
  let edits := Expression.filter (.literal (.dataset [everyKind]))
    (.conj (.regex (.ref "page") "M.*") edited)
  let pages := Expression.apply (.split edits (.ref "page") "page") (.count (.ref "edits")) "edits"
  .limit (.sort pages (.ref "edits") .descending) 18446744073709551615

end Sample

open Sample in
/-- A query with a node of every shape and a value of every kind is read back. -/
theorem Expression.read_toJson_everyShape :
    everyShape.validate = .ok () ∧
      (∀ v ∈ everyShape.values, ∀ x ∈ v.numbers, x.isFinite = true) ∧
      (∀ v ∈ everyShape.values, ∀ row ∈ v.rows, row.IsSorted) ∧
      (∀ v ∈ everyShape.values, ∀ t ∈ v.instants, Instant.read? t.canonical = some t) ∧
      read everyShape.toJson = .ok everyShape ∧ (everyShape == everyShape) = true := by
  have hvalid : everyShape.validate = .ok () := by
    simp only [validate_eq_ok_iff, ← Option.isNone_iff_eq_none]
    decide +kernel
  have hfinite : ∀ v ∈ everyShape.values, ∀ x ∈ v.numbers, x.isFinite = true := by decide +kernel
  have hsorted : ∀ v ∈ everyShape.values, ∀ row ∈ v.rows, row.IsSorted := by decide +kernel
  have hreads : ∀ v ∈ everyShape.values, ∀ t ∈ v.instants,
      Instant.read? t.canonical = some t := by decide +kernel
  exact ⟨hvalid, hfinite, hsorted, hreads, read_toJson hvalid hfinite hsorted hreads⟩

end FederatedQuery
