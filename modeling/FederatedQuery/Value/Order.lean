import FederatedQuery.Value.Basic

/-!
# The order of values

Values of one kind are ordered as that kind is: numbers by size, strings by code points,
instants by time, ranges of time by start and then end, sets of strings as lists. Values
of different kinds are ordered by kind, with `null` first. Two ranges of numbers, or two
datasets, are never apart in this order.

## Main definitions

* `Value.rank`: the place of a kind.
* `Value.compare`: the order.
-/

namespace FederatedQuery.Value

/-- The place of a value's kind among the kinds. -/
def rank : Value → Nat
  | .null => 0
  | .boolean _ => 1
  | .number _ => 2
  | .string _ => 3
  | .time _ => 4
  | .timeRange _ => 5
  | .numberRange _ => 6
  | .stringSet _ => 7
  | .dataset _ => 8

/-- The order of numbers; what is not a number is equal to every number. -/
def compareNumbers (x y : Float) : Ordering :=
  if x < y then .lt else if y < x then .gt else .eq

/-- The order of truth values: *false* comes first. -/
def compareTruth : Bool → Bool → Ordering
  | false, true => .lt
  | true, false => .gt
  | _, _ => .eq

/-- The order of lists of strings: by the first place where they differ. -/
def compareStrings : List String → List String → Ordering
  | [], [] => .eq
  | [], _ :: _ => .lt
  | _ :: _, [] => .gt
  | a :: as, b :: bs => (Ord.compare a b).then (compareStrings as bs)

/-- The order of values. -/
def compare : Value → Value → Ordering
  | .number a, .number b => compareNumbers a b
  | .string a, .string b => Ord.compare a b
  | .boolean a, .boolean b => compareTruth a b
  | .time a, .time b => a.compare b
  | .timeRange a, .timeRange b => a.compare b
  | .stringSet a, .stringSet b => compareStrings a b
  | a, b => Ord.compare a.rank b.rank

/-- Values of different kinds are ordered by kind. -/
theorem compare_of_rank_ne {a b : Value} (h : a.rank ≠ b.rank) :
    compare a b = Ord.compare a.rank b.rank := by
  cases a <;> cases b <;> first | rfl | exact absurd rfl h

end FederatedQuery.Value
