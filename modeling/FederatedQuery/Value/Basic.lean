import FederatedQuery.Attribute.Kind
import FederatedQuery.Time.Range

/-!
# Values, rows and datasets

A value is what a literal stands for and what a cell of a result holds. One kind of value
is the dataset, a list of rows; a row has a value for each of its names. Rows keep their
cells in ascending order of the names, each name once: `Row.put` inserts that way.

## Main definitions

* `Value`: the values, of nine kinds.
* `Row`, `Dataset`: rows and lists of them.
* `Row.put`, `Row.get?`: writing and reading a cell.
* `Value.same`: equality of values, with numbers equal as numbers.
-/

namespace FederatedQuery

/-- The numbers from `start` up to but not including `stop`; a missing end is open. -/
structure NumberRange where
  start : Option Float
  stop : Option Float

/-- Whether the range holds a number. -/
def NumberRange.contains (r : NumberRange) (x : Float) : Bool :=
  (match r.start with
    | some s => decide (s ≤ x)
    | none => true) &&
  (match r.stop with
    | some e => decide (x < e)
    | none => true)

/-- A value of the algebra. -/
inductive Value where
  | null
  | boolean (b : Bool)
  | number (x : Float)
  | string (s : String)
  | time (t : Instant)
  | timeRange (r : TimeRange)
  | numberRange (r : NumberRange)
  | stringSet (items : List String)
  | dataset (rows : List (List (String × Value)))

/-- The cells of a row, in ascending order of their names. -/
abbrev Row := List (String × Value)

/-- A list of rows. -/
abbrev Dataset := List Row

namespace Row

/-- The value in the cell called `name`. -/
def get? (row : Row) (name : String) : Option Value := row.lookup name

/-- Writes the cell called `name`. -/
def put : Row → String → Value → Row
  | [], name, value => [(name, value)]
  | (n, v) :: rest, name, value =>
    if name = n then (name, value) :: rest
    else if name < n then (name, value) :: (n, v) :: rest
    else (n, v) :: put rest name value

/-- The row with more cells written into it, one after the other. -/
def extend (row : Row) (cells : List (String × Value)) : Row :=
  cells.foldl (fun row cell => Row.put row cell.1 cell.2) row

/-- The row with the given cells; of cells with one name the last counts. -/
def ofCells (cells : List (String × Value)) : Row := extend [] cells

/-- The row without the cell called `name`. -/
def erase (row : Row) (name : String) : Row := row.filter fun cell => cell.1 != name

/-- A written cell can be read. -/
theorem get?_put (row : Row) (name : String) (value : Value) :
    (put row name value).get? name = some value := by
  induction row with
  | nil => simp [put, get?]
  | cons cell rest ih =>
    obtain ⟨n, v⟩ := cell
    simp only [get?] at ih
    by_cases h : name = n
    · simp [put, get?, h]
    · by_cases hlt : name < n
      · simp [put, get?, h, hlt]
      · have hne : (name == n) = false := beq_false_of_ne h
        simp [put, get?, h, hlt, List.lookup_cons, hne, ih]

/-- Writing a cell leaves the others alone. -/
theorem get?_put_of_ne (row : Row) {name other : String} (value : Value) (h : other ≠ name) :
    (put row name value).get? other = row.get? other := by
  have hne : (other == name) = false := beq_false_of_ne h
  induction row with
  | nil => simp [put, get?, List.lookup_cons, hne]
  | cons cell rest ih =>
    obtain ⟨n, v⟩ := cell
    simp only [get?] at ih ⊢
    unfold put
    by_cases hn : name = n
    · subst hn
      simp [List.lookup_cons, hne]
    · by_cases hlt : name < n
      · simp [hn, hlt, List.lookup_cons, hne]
      · simp only [hn, hlt, if_false, List.lookup_cons, ih]

end Row

namespace Value

instance : Inhabited Value := ⟨.null⟩

/-- The kind of a value. -/
def kind : Value → Kind
  | .null => .null
  | .boolean _ => .boolean
  | .number _ => .number
  | .string _ => .string
  | .time _ => .time
  | .timeRange _ => .timeRange
  | .numberRange _ => .numberRange
  | .stringSet _ => .stringSet
  | .dataset _ => .dataset

/-- Whether the value is `null`. -/
def isNull : Value → Bool
  | .null => true
  | _ => false

/-- Whether the value is a dataset. -/
def isDataset : Value → Bool
  | .dataset _ => true
  | _ => false

/-- Whether the value is the truth value *true*. -/
def isTrue : Value → Bool
  | .boolean b => b
  | _ => false

/-- The number that a value is. -/
def number? : Value → Option Float
  | .number x => some x
  | _ => none

/-- The string that a value is. -/
def string? : Value → Option String
  | .string s => some s
  | _ => none

/-- The dataset that a value is. -/
def dataset? : Value → Option Dataset
  | .dataset rows => some rows
  | _ => none

/-- A number as a value: a number that is not finite becomes `null`. -/
def ofDouble (x : Float) : Value := if x.isFinite then .number x else .null

mutual

/-- Equality of values. Numbers are equal as numbers: `0.0` is `-0.0`, and what is not a
number differs from itself. -/
def same : Value → Value → Bool
  | .null, .null => true
  | .boolean a, .boolean b => a == b
  | .number a, .number b => a == b
  | .string a, .string b => a == b
  | .time a, .time b => a == b
  | .timeRange a, .timeRange b => a == b
  | .numberRange a, .numberRange b => a.start == b.start && a.stop == b.stop
  | .stringSet a, .stringSet b => a == b
  | .dataset a, .dataset b => sameRows a b
  | _, _ => false

/-- Equality of datasets, row by row. -/
def sameRows : List (List (String × Value)) → List (List (String × Value)) → Bool
  | [], [] => true
  | a :: as, b :: bs => sameCells a b && sameRows as bs
  | _, _ => false

/-- Equality of rows, cell by cell. -/
def sameCells : List (String × Value) → List (String × Value) → Bool
  | [], [] => true
  | (n, a) :: as, (m, b) :: bs => n == m && same a b && sameCells as bs
  | _, _ => false

end

instance : BEq Value := ⟨same⟩

end Value

end FederatedQuery
