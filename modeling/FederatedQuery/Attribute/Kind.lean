/-!
# Kinds of values

The kinds of the values that columns hold. They form a flat order: `NULL` is below every
kind, and any other two kinds are unrelated. In particular a set of strings does not go
where a single string is required.

## Main definitions

* `Kind`: the kinds, with `Kind.name` and `Kind.ofName?`.
* `Kind.isAssignableTo`: the order.
-/

namespace FederatedQuery

/-- The kind of a value. -/
inductive Kind where
  | null
  | boolean
  | number
  | string
  | time
  | timeRange
  | numberRange
  | stringSet
  | dataset
  deriving DecidableEq

namespace Kind

/-- The name of a kind in documents. -/
def name : Kind → String
  | .null => "NULL"
  | .boolean => "BOOLEAN"
  | .number => "NUMBER"
  | .string => "STRING"
  | .time => "TIME"
  | .timeRange => "TIME_RANGE"
  | .numberRange => "NUMBER_RANGE"
  | .stringSet => "SET/STRING"
  | .dataset => "DATASET"

/-- Every kind, in the order in which values of different kinds are sorted. -/
def all : List Kind :=
  [.null, .boolean, .number, .string, .time, .timeRange, .numberRange, .stringSet, .dataset]

/-- The kind with the given name. -/
def ofName? (name : String) : Option Kind := all.find? fun kind => kind.name == name

@[simp] theorem ofName?_name (kind : Kind) : ofName? kind.name = some kind := by
  cases kind <;> decide

/-- Whether a value of this kind may stand where `required` is asked for. -/
def isAssignableTo (kind required : Kind) : Bool := kind == required || kind == .null

/-- Whether a value of this kind may stand where any of the `required` kinds is asked for. -/
def isAssignableToAny (kind : Kind) (required : List Kind) : Bool :=
  required.any kind.isAssignableTo

theorem isAssignableToAny_cons {kind first : Kind} {others : List Kind} :
    kind.isAssignableToAny (first :: others) ↔ kind ∈ first :: others ∨ kind = .null := by
  simp only [isAssignableToAny, isAssignableTo, List.any_eq_true, Bool.or_eq_true, beq_iff_eq]
  constructor
  · rintro ⟨required, hmem, rfl | hnull⟩
    · exact .inl hmem
    · exact .inr hnull
  · rintro (hmem | hnull)
    · exact ⟨kind, hmem, .inl rfl⟩
    · exact ⟨first, List.mem_cons_self, .inr hnull⟩

end Kind

end FederatedQuery
