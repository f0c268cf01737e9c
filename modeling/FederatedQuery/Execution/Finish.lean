import FederatedQuery.Compile.Basic
import FederatedQuery.Expression.Evaluate

/-!
# Finishing rows

What a native query leaves to do: values are derived, each from the cells before it and
the rows around; hidden columns are dropped; the rows are sorted, rows that are equal in
the sort staying in their order; and only the first of them are kept.

## Main definitions

* `Finish.derive`: a row with its derived values.
* `Dataset.sortBy`: the stable sort of rows.
* `Finish.apply`: all that is left to do.
-/

namespace FederatedQuery

/-- Computes values one after the other, each from the row so far and the rows around it,
and writes them into the row. -/
def Row.derive (scope : Scope) (row : Row) (derived : List (String × Expression)) :
    Except ExpressionError Row :=
  derived.foldlM (fun row (name, e) => do
    let value ← e.evaluate (row :: scope)
    .ok (Row.put row name value)) row

namespace Dataset

/-- The order of two rows by a column; a missing cell counts as null. -/
def compareBy (key : SortKey) (a b : Row) : Ordering :=
  let x := (Row.get? a key.name).getD .null
  let y := (Row.get? b key.name).getD .null
  match key.direction with
  | .ascending => x.compare y
  | .descending => y.compare x

/-- The rows sorted by a column; rows that are equal in it stay in their order. -/
def sortBy (key : SortKey) (rows : Dataset) : Dataset :=
  rows.mergeSort fun a b => compareBy key a b != .gt

/-- Sorting keeps every row. -/
theorem sortBy_perm (key : SortKey) (rows : Dataset) : (sortBy key rows).Perm rows :=
  List.mergeSort_perm rows _

end Dataset

namespace Finish

/-- A row without the hidden columns. -/
def dropHidden (f : Finish) (row : Row) : Row := f.hidden.foldl Row.erase row

/-- The rows in the order that is left to establish. -/
def sorted (f : Finish) (rows : Dataset) : Dataset :=
  match f.sort with
  | some key => Dataset.sortBy key rows
  | none => rows

/-- The rows that are kept. -/
def limited (f : Finish) (rows : Dataset) : Dataset :=
  match f.limit with
  | some limit => rows.take limit
  | none => rows

/-- All that is left to do with the rows of an answer. -/
def apply (f : Finish) (scope : Scope) (rows : Dataset) : Except ExpressionError Dataset := do
  let rows ← rows.mapM fun row => Row.derive scope row f.derived
  .ok (f.limited (f.sorted (rows.map f.dropHidden)))

end Finish

end FederatedQuery
