import FederatedQuery.Json.Record

/-!
# Records that have been written

Readers hand out the parts of a document together with the fact that they are smaller than the
whole. A reader that does not look at this fact reads an object by its fields and an array by its
items: then the content of a document decides what is read from it, and a record is read back from
the fields that were written.

## Main results

* `Json.required_named`, `Json.optional_named`, `Json.withDefault_named`, `Json.absentOr_named`: the
  reading of a field of an object.
* `Json.readItems?_array`, `Json.readFields?_object`: the reading of all items and of all fields.
* `Json.double?_ofDouble`, `Json.word?_ofWord`: numbers are read as they have been written.
-/

namespace FederatedQuery.Json

/-! ### Fields -/

variable {α β : Type}

/-- The record of an object. -/
def named (fields : Fields) : Record (.object fields) := ⟨true, fieldParts fields⟩

theorem map_fieldParts (fields : Fields) :
    (fieldParts fields).map (fun field => (field.1, field.2.val)) = fields := by
  rw [fieldParts, List.map_map]
  exact List.attach_map_subtype_val _

theorem map_parts (items : List Json) : (parts items).map Subtype.val = items := by
  rw [parts, List.map_map]
  exact List.attach_map_subtype_val _

theorem lookup_map_snd (f : α → β) (fields : List (String × α)) (key : String) :
    (fields.map fun field => (field.1, f field.2)).lookup key = (fields.lookup key).map f := by
  induction fields with
  | nil => rfl
  | cons field fields ih =>
    rw [List.map_cons, List.lookup_cons, List.lookup_cons, ih]
    cases key == field.1 <;> rfl

theorem record?_object (names : List String) (fields : Fields) :
    (Json.object fields).record? names = some (named fields) := rfl

@[simp] theorem named_named (fields : Fields) : (named fields).named = true := rfl

theorem get?_named (fields : Fields) (key : String) :
    ((named fields).get? key).map Subtype.val = fields.lookup key := by
  rw [Record.get?, ← lookup_map_snd]
  exact congrArg _ (map_fieldParts fields)

/-- A required field of an object, read without regard to its being a part. -/
theorem required_named (fields : Fields) (key : String) (read : Json → Option α) :
    (named fields).required key (fun part => read part.val) = (fields.lookup key).bind read := by
  rw [← get?_named, Option.bind_map]
  rfl

/-- A field of an object that may be missing. -/
theorem optional_named (fields : Fields) (key : String) (read : Json → Option α) :
    (named fields).optional key (fun part => read part.val) =
      match fields.lookup key with
      | none => some none
      | some value => if value.isNull then some none else (read value).map some := by
  rw [← get?_named, Record.optional]
  cases (named fields).get? key <;> rfl

/-- A field of an object that stands for something else when it is missing. -/
theorem withDefault_named (fields : Fields) (key : String) (fallback : α)
    (read : Json → Option α) :
    (named fields).withDefault key fallback (fun part => read part.val) =
      match fields.lookup key with
      | none => some fallback
      | some value => read value := by
  rw [← get?_named, Record.withDefault]
  cases (named fields).get? key <;> rfl

/-- A field of an object that may be `null` or missing. -/
theorem absentOr_named (fields : Fields) (key : String) (read : Json → Option α) :
    (named fields).absentOr key (fun part => read part.val) =
      match fields.lookup key with
      | none => some none
      | some value => if value.isNull then some none else (read value).map some :=
  withDefault_named fields key none fun value =>
    if value.isNull then some none else (read value).map some

/-- The fields that there is something to write for. -/
def written (fields : List (String × Option Json)) : Fields :=
  fields.flatMap fun field => field? field.1 field.2

/-- A field of a record that is left out when there is nothing to write. -/
theorem lookup_written {fields : List (String × Option Json)} (h : (fields.map Prod.fst).Nodup)
    (key : String) : (written fields).lookup key = (fields.lookup key).join := by
  induction fields with
  | nil => rfl
  | cons field fields ih =>
    obtain ⟨name, value⟩ := field
    obtain ⟨hname, hrest⟩ := List.nodup_cons.1 h
    rw [written, List.flatMap_cons, List.lookup_append, ← written, ih hrest, List.lookup_cons]
    by_cases hkey : key = name
    · have hnone : fields.lookup key = none := by
        refine List.lookup_eq_none_iff.2 fun field hfield => ?_
        exact bne_iff_ne.2 fun heq => hname (List.mem_map.2 ⟨field, hfield, heq.symm.trans hkey⟩)
      rw [hkey] at hnone
      cases value <;> simp [field?, hkey, hnone]
    · have hne : (key == name) = false := beq_false_of_ne hkey
      cases value <;> simp [field?, hne, List.lookup_cons]

/-- A field that is left out when there is nothing to write is read as it has been written. -/
theorem absentOr_written {fields : Fields} {key : String} {read : Json → Option α}
    {write : α → Json} {a : Option α} (hfield : fields.lookup key = a.map write)
    (h : ∀ x ∈ a, (write x).isNull = false ∧ read (write x) = some x) :
    (named fields).absentOr key (fun part => read part.val) = some a := by
  rw [absentOr_named, hfield]
  cases a with
  | none => rfl
  | some x =>
    obtain ⟨hnull, hread⟩ := h x rfl
    simp only [Option.map_some, hnull, hread]
    rfl

/-- A flag that is left out when it is not set. -/
theorem withDefault_flag {fields : Fields} {key : String} {flag : Bool}
    (hfield : fields.lookup key = if flag then some (.bool true) else none) :
    (named fields).withDefault key false (fun part => part.val.bool?) = some flag := by
  rw [withDefault_named fields key false Json.bool?, hfield]
  cases flag <;> rfl

theorem readItems?_array (items : List Json) (read : Json → Option α) :
    (Json.array items).readItems? (fun part => read part.val) = items.mapM read := by
  refine Eq.trans ?_ (congrArg (List.mapM read) (map_parts items))
  rw [List.mapM_map]
  rfl

theorem readFields?_object (fields : Fields) (read : Json → Option α) :
    (Json.object fields).readFields? (fun part => read part.val) =
      fields.mapM fun field => (read field.2).map fun value => (field.1, value) := by
  refine Eq.trans ?_ (congrArg (List.mapM _) (map_fieldParts fields))
  rw [List.mapM_map]
  rfl

/-! ### Numbers -/

theorem double?_ofDouble {x : Float} (h : x.isFinite = true) : (ofDouble x).double? = some x := by
  rw [ofDouble, if_pos h]
  rfl

theorem word?_ofWord (n : UInt64) : (ofWord n).word? = some n := by
  have hlt : n.toNat < 18446744073709551616 := n.toNat_lt
  have hword : (0 : Int) ≤ n.toNat ∧ (n.toNat : Int) < Word.count := by
    rw [Word.count]
    omega
  rw [ofWord, word?, if_pos hword, Int.toNat_natCast, UInt64.ofNat_toNat]

end FederatedQuery.Json
