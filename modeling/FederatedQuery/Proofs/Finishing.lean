import FederatedQuery.Execution.Pattern
import FederatedQuery.Proofs.Compilation
import FederatedQuery.Proofs.Rows

/-!
# Finishing rows

The rows of a pattern, before nested patterns are computed, are the fetched ones with what is
left to do. This file says what that is: values are derived, hidden columns dropped, and the rows
arranged, that is, sorted and limited. All other cells stay as they are.

## Main definitions

* `Dataset.arrange`: rows sorted and limited.
* `SortKey.compare`: the order of values in a sort.

## Main results

* `Compiled.run_finished`: the rows before nested patterns are computed.
* `Finish.apply_of_derive`: what is done with fetched rows.
* `Compiled.apply_of_paging`: what is done with selected rows.
* `Dataset.sortBy_map`: the sort of rows that are made of other data.
* `Finish.get?_finished`: the cells that stay.
-/

namespace FederatedQuery

/-- Running an exchange that begins with a request. -/
theorem Exchange.run_items_bind {σ ε α : Type} (answer : σ → Request → Reply × σ) (r : Request)
    (next : Except String (List Json) → Exchange ε α) (s : σ) :
    (Exchange.items r >>= next).run answer s =
      (next (answer s r).1.items).run answer (answer s r).2 := rfl

/-- The rows of a pattern are the fetched ones with what is left to do, unless they are too
many. -/
theorem Compiled.run_finished {σ : Type} {answer : σ → Request → Reply × σ} {c : Compiled}
    {config : Config} {x : External} {rows : List Row} {s s' : σ} (scope : Scope)
    (h : (c.fetch config x).run answer s = (.ok rows, s')) :
    ((c.finished config x scope).run answer s).1 =
      if config.maxRows < rows.length then .error (.resultTooLarge config.maxRows)
      else (c.finish.apply scope rows).mapError .expression := by
  have hrun := Exchange.run_bind answer (c.fetch config x) (fun rows =>
    if config.maxRows < rows.length then .fail (.resultTooLarge config.maxRows)
    else .ofExcept ((c.finish.apply scope rows).mapError .expression)) s
  rw [h] at hrun
  refine (congrArg Prod.fst hrun).trans ?_
  simp only
  split
  · rfl
  · cases (c.finish.apply scope rows).mapError ExecutionError.expression <;> rfl

/-- Without fetched rows there are none to finish. -/
theorem Compiled.run_finished_of_error {σ : Type} {answer : σ → Request → Reply × σ} {c : Compiled}
    {config : Config} {x : External} {error : ExecutionError} {s s' : σ} (scope : Scope)
    (h : (c.fetch config x).run answer s = (.error error, s')) :
    ((c.finished config x scope).run answer s).1 = .error error := by
  have hrun := Exchange.run_bind answer (c.fetch config x) (fun rows =>
    if config.maxRows < rows.length then .fail (.resultTooLarge config.maxRows)
    else .ofExcept ((c.finish.apply scope rows).mapError .expression)) s
  rw [h] at hrun
  exact congrArg Prod.fst hrun

/-- Rows sorted by a column and then limited, as far as there is a column and a limit. -/
def Dataset.arrange (sort : Option SortKey) (limit : Option Nat) (rows : Dataset) : Dataset :=
  limit.elim (sort.elim rows (sortBy · rows)) (sort.elim rows (sortBy · rows)).take

/-- What is done with fetched rows: values are derived, hidden columns dropped, and the rows
arranged. -/
theorem Finish.apply_of_derive {f : Finish} {scope : Scope} {rows : List Row} {derive : Row → Row}
    (h : ∀ row ∈ rows, row.derive scope f.derived = .ok (derive row)) :
    f.apply scope rows =
      .ok (Dataset.arrange f.sort f.limit (rows.map fun row => f.dropHidden (derive row))) := by
  refine Except.bind_eq_ok.2 ⟨_, Except.mapM_eq_map h, congrArg Except.ok ?_⟩
  rw [List.map_map]
  unfold limited sorted Dataset.arrange
  cases f.limit <;> cases f.sort <;> rfl

/-- Selected rows are sorted, and limited after a sort. -/
theorem Compiled.apply_of_paging {p : Pattern} {limits : Limits} {c : Compiled} {paging : Paging}
    (h : p.compile limits = .ok c) (hpaging : c.paging = some paging) (scope : Scope)
    (rows : List Row) :
    c.finish.apply scope rows =
      .ok (Dataset.arrange p.sort (if p.sort.isSome then p.limit else none) rows) := by
  obtain ⟨r, hrows⟩ := Pattern.compileRows_of_paging h hpaging
  obtain ⟨span, -, rfl⟩ := Pattern.compileRows_eq_ok hrows
  have hderive : ∀ row ∈ rows, row.derive scope [] = .ok (id row) := fun _ _ => rfl
  refine (Finish.apply_of_derive hderive).trans ?_
  exact congrArg (fun rows => Except.ok (Dataset.arrange _ _ rows)) (List.map_id rows)

/-- The order of two values in a sort. -/
def SortKey.compare (key : SortKey) (v w : Value) : Ordering :=
  match key.direction with
  | .ascending => v.compare w
  | .descending => w.compare v

/-- Sorting rows that are made of some data is sorting the data by the values that the rows have in
the column. -/
theorem Dataset.sortBy_map {α : Type} {key : SortKey} {data : List α} {f : α → Row}
    {value : α → Value} (h : ∀ a ∈ data, ((f a).get? key.name).getD .null = value a) :
    sortBy key (data.map f) =
      (data.mergeSort fun a b => key.compare (value a) (value b) != .gt).map f := by
  refine (List.map_mergeSort fun a ha b hb => ?_).symm
  rw [← h a ha, ← h b hb]
  rfl

/-- If fetched rows can be finished, then all their values can be derived. -/
theorem Finish.exists_derive {f : Finish} {scope : Scope} {rows finished : List Row}
    (h : f.apply scope rows = .ok finished) :
    ∃ derive : Row → Row, (∀ row ∈ rows, row.derive scope f.derived = .ok (derive row)) ∧
      finished =
        Dataset.arrange f.sort f.limit (rows.map fun row => f.dropHidden (derive row)) := by
  obtain ⟨derived, hderived, -⟩ := Except.bind_eq_ok.1 h
  obtain ⟨derive, hderive, -⟩ := Except.exists_of_mapM_eq_ok hderived
  exact ⟨derive, hderive, Except.ok.inj (h.symm.trans (apply_of_derive hderive))⟩

/-- A finished row still has the cells that are neither derived nor hidden. -/
theorem Finish.get?_finished {f : Finish} {scope : Scope} {row derived : Row}
    (h : row.derive scope f.derived = .ok derived) {name : String}
    (hderived : name ∉ f.derived.map Prod.fst) (hhidden : name ∉ f.hidden) :
    (f.dropHidden derived).get? name = row.get? name := by
  rw [f.get?_dropHidden, if_neg hhidden, Row.get?_derive h hderived]

end FederatedQuery
