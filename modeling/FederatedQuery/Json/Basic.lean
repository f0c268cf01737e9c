import FederatedQuery.Word

/-!
# JSON values

The tree that descriptors, expressions and native documents are read from and
written to. An object keeps its fields in the order in which their names first
appeared; that order shows in the text of a value and nowhere else, so two
objects are the same when they hold the same fields in any order.

Numbers come in two kinds. An integer in `[-2^63, 2^64)` stays exact; every
other number is a double. The two kinds are never the same value: `1` and
`1.0` differ.

## Main definitions

* `Json`: the tree.
* `Json.get?`: the field of an object.
* `Json.Fields.put`: a field set in an object.
* `Json.same`: equality that does not look at the order of fields.
-/

namespace FederatedQuery

/-- A JSON value. -/
inductive Json where
  | null
  | bool (b : Bool)
  | int (n : Int)
  | float (x : Float)
  | string (s : String)
  | array (items : List Json)
  | object (fields : List (String × Json))

namespace Json

instance : Inhabited Json := ⟨.null⟩

/-- The fields of an object, in order of first appearance. -/
abbrev Fields := List (String × Json)

/-- The integers that stay exact: those of 64 bits, with or without a sign. -/
def isExact (n : Int) : Bool :=
  decide (-(Word.half : Int) ≤ n) && decide (n < Word.count)

/-- The field called `key`, if the value is an object that has it. -/
def get? (j : Json) (key : String) : Option Json :=
  match j with
  | .object fields => fields.lookup key
  | _ => none

/-- The items of an array. -/
def items? : Json → Option (List Json)
  | .array items => some items
  | _ => none

/-- The fields of an object. -/
def fields? : Json → Option Fields
  | .object fields => some fields
  | _ => none

/-- The text of a string. -/
def text? : Json → Option String
  | .string s => some s
  | _ => none

/-- The value of an integer. -/
def int? : Json → Option Int
  | .int n => some n
  | _ => none

/-- The value of a truth value. -/
def bool? : Json → Option Bool
  | .bool b => some b
  | _ => none

/-- Whether the value is `null`. -/
def isNull : Json → Bool
  | .null => true
  | _ => false

/-- Whether the value is an object. -/
def isObject : Json → Bool
  | .object _ => true
  | _ => false

/-- The double nearest to a number of either kind. -/
def double? : Json → Option Float
  | .int n => some (Float.ofInt n)
  | .float x => some x
  | _ => none

/-- Sets the field `key`: a field of that name keeps its place and takes the new
value, a new field comes last. -/
def Fields.put : Fields → String → Json → Fields
  | [], key, value => [(key, value)]
  | (k, v) :: rest, key, value =>
    if k = key then (k, value) :: rest else (k, v) :: Fields.put rest key value

/-- Setting a field makes it readable. -/
theorem Fields.lookup_put (fields : Fields) (key : String) (value : Json) :
    (fields.put key value).lookup key = some value := by
  induction fields with
  | nil => simp [Fields.put]
  | cons field rest ih =>
    obtain ⟨k, v⟩ := field
    by_cases h : k = key
    · simp [Fields.put, h]
    · simp only [Fields.put, h, if_false]
      have hne : (key == k) = false := beq_false_of_ne fun e => h e.symm
      simp [List.lookup_cons, hne, ih]

/-- Setting a field leaves the others alone. -/
theorem Fields.lookup_put_of_ne (fields : Fields) {key other : String} (value : Json)
    (h : other ≠ key) : (fields.put key value).lookup other = fields.lookup other := by
  have hne : (other == key) = false := beq_false_of_ne h
  induction fields with
  | nil => simp [Fields.put, List.lookup_cons, hne]
  | cons field rest ih =>
    obtain ⟨k, v⟩ := field
    by_cases hk : k = key
    · subst hk
      simp [Fields.put, List.lookup_cons, hne]
    · simp only [Fields.put, hk, if_false, List.lookup_cons, ih]

/-- Every field of `updates` set in turn. -/
def Fields.putAll (fields updates : Fields) : Fields :=
  updates.foldl (fun acc field => Fields.put acc field.1 field.2) fields

mutual

/-- Equality of values, whatever the order of the fields of their objects. Doubles
are equal as numbers, so that `0.0` and `-0.0` are. -/
def same : Json → Json → Bool
  | .null, .null => true
  | .bool a, .bool b => a == b
  | .int a, .int b => a == b
  | .float a, .float b => a == b
  | .string a, .string b => a == b
  | .array xs, .array ys => sameItems xs ys
  | .object xs, .object ys => xs.length == ys.length && sameFields xs ys
  | _, _ => false

/-- Equality of arrays, item by item. -/
def sameItems : List Json → List Json → Bool
  | [], [] => true
  | x :: xs, y :: ys => same x y && sameItems xs ys
  | _, _ => false

/-- Whether each field of the first object is in the second with the same value. -/
def sameFields : List (String × Json) → List (String × Json) → Bool
  | [], _ => true
  | (key, x) :: xs, ys =>
    (match ys.lookup key with
      | some y => same x y
      | none => false) && sameFields xs ys

end

instance : BEq Json := ⟨same⟩

/-- The text of a string field. -/
def textAt? (j : Json) (key : String) : Option String :=
  (j.get? key).bind text?

end Json

end FederatedQuery
