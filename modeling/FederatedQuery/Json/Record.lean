import FederatedQuery.Json.Basic

/-!
# Records in JSON

A record is written as an object, field by field, or as an array that lists its fields
in their fixed order. The fields of an object may come in any order, and fields that the
record does not know are passed over; an array holds no more items than there are fields.

A record of one of several kinds also has a *tag*, which names the kind: a field of the
object, or the first item of the array.

Readers of nested data recurse on the parts of a document. Each part is handed out with
the fact that it is smaller than the whole.

## Main definitions

* `Json.Part`: a part of a document.
* `Json.record?`, `Json.contents?`: the fields of a record, without and with a tag.
* `Json.choice?`, `Json.tagged?`: a choice between names.
* `Record.required`, `optional`, `withDefault`, `absentOr`: the reading of one field.
* `Json.readItems?`: the reading of an array.
-/

namespace FederatedQuery.Json

/-- A part of the document `j`. -/
abbrev Part (j : Json) := { part : Json // sizeOf part < sizeOf j }

/-- The fields of a record found in the document `j`. -/
structure Record (j : Json) where
  /-- Whether the record is written field by field. -/
  named : Bool
  fields : List (String × Part j)

/-- The items of an array as parts of it. -/
def parts (items : List Json) : List (Part (.array items)) :=
  items.attach.map fun ⟨item, h⟩ =>
    ⟨item, by have := List.sizeOf_lt_of_mem h; simp only [array.sizeOf_spec]; omega⟩

/-- The fields of an object as parts of it. -/
def fieldParts (fields : Fields) : List (String × Part (.object fields)) :=
  fields.attach.map fun ⟨field, h⟩ =>
    (field.1, ⟨field.2, by
      have := List.sizeOf_lt_of_mem h
      obtain ⟨key, value⟩ := field
      simp only [object.sizeOf_spec, Prod.mk.sizeOf_spec] at this ⊢
      omega⟩)

/-- The fields of a record that has the given field names, in this order. -/
def record? (names : List String) : (j : Json) → Option (Record j)
  | .object fields => some ⟨true, fieldParts fields⟩
  | .array items =>
    if items.length ≤ names.length then some ⟨false, names.zip (parts items)⟩ else none
  | _ => none

/-- The tag of a record. -/
def tag? (key : String) : Json → Option Json
  | .object fields => fields.lookup key
  | .array (tag :: _) => some tag
  | _ => none

/-- The fields of a record with a tag that has the given names for its other fields, in
this order. -/
def contents? (names : List String) : (j : Json) → Option (Record j)
  | .object fields => some ⟨true, fieldParts fields⟩
  | .array (tag :: items) =>
    if items.length ≤ names.length then
      some ⟨false, names.zip ((parts (tag :: items)).drop 1)⟩
    else none
  | _ => none

namespace Record

variable {j : Json} {α : Type}

/-- The field called `key`. -/
def get? (r : Record j) (key : String) : Option (Part j) := r.fields.lookup key

/-- Whether the field called `key` is there and comes before the one called `other`. -/
def isBefore (r : Record j) (key other : String) : Bool :=
  (r.fields.find? fun field => field.1 == key || field.1 == other).any fun field =>
    field.1 == key

/-- Reads a field that must be there. -/
def required (r : Record j) (key : String) (read : Part j → Option α) : Option α :=
  (r.get? key).bind read

/-- Reads a part that may be `null`. -/
def nullable (read : Part j → Option α) (part : Part j) : Option (Option α) :=
  if part.val.isNull then some none else (read part).map some

/-- Reads a field that may be `null`, and in an object may be missing. -/
def optional (r : Record j) (key : String) (read : Part j → Option α) : Option (Option α) :=
  match r.get? key with
  | none => if r.named then some none else none
  | some part => nullable read part

/-- Reads a field that stands for `fallback` when it is missing. -/
def withDefault (r : Record j) (key : String) (fallback : α) (read : Part j → Option α) :
    Option α :=
  match r.get? key with
  | none => some fallback
  | some part => read part

/-- Reads a field that may be `null` or missing. -/
def absentOr (r : Record j) (key : String) (read : Part j → Option α) : Option (Option α) :=
  r.withDefault key none (nullable read)

end Record

/-- Reads every item of an array. -/
def readItems? {α : Type} (j : Json) (read : Part j → Option α) : Option (List α) :=
  match j with
  | .array items => (parts items).mapM read
  | _ => none

/-- Reads every field of an object. -/
def readFields? {α : Type} (j : Json) (read : Part j → Option α) :
    Option (List (String × α)) :=
  match j with
  | .object fields =>
    (fieldParts fields).mapM fun (key, part) => (read part).map fun value => (key, value)
  | _ => none

/-- The name in a choice between names: a text, or an object whose only field has that
name and holds nothing. Nothing is `null`, and for a choice nested in a tagged record an
empty object as well. -/
def choice? (nested : Bool) : Json → Option String
  | .string name => some name
  | .object [(name, .null)] => some name
  | .object [(name, .object [])] => if nested then some name else none
  | _ => none

/-- The choice that a tag makes among the names in `all`: by its name, or nested in a
tagged record also by its position. -/
def tagged? {α : Type} (nested : Bool) (ofName? : String → Option α) (all : List α) :
    Json → Option α
  | .string name => ofName? name
  | .int n => if nested && decide (0 ≤ n) then all[n.toNat]? else none
  | _ => none

/-- A natural number below `2^64`. -/
def word? : Json → Option UInt64
  | .int n => if 0 ≤ n ∧ n < Word.count then some (UInt64.ofNat n.toNat) else none
  | _ => none

/-- A field that is present only when there is something to write. -/
def field? (key : String) (value : Option Json) : Fields :=
  match value with
  | some value => [(key, value)]
  | none => []

/-- A double, or `null` if it is not finite. -/
def ofDouble (x : Float) : Json := if x.isFinite then .float x else .null

/-- A natural number below `2^64` as an integer. -/
def ofWord (n : UInt64) : Json := .int n.toNat

end FederatedQuery.Json
