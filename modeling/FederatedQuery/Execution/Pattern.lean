import FederatedQuery.Execution.Config
import FederatedQuery.Execution.Finish
import FederatedQuery.Execution.Selection
import FederatedQuery.Task

/-!
# Computing patterns

A pattern is compiled, its rows are fetched and finished, and then its nested patterns are
computed for every row, with a source that is narrowed to the group of the row. A value
derived for a nested pattern sees the row of its group, and the rows around that one.

## Main definitions

* `Compiled.fetch`: the rows that a native query yields.
* `Compiled.finished`: the rows before nested patterns are computed.
* `Pattern.forGroup`: a nested pattern for one group.
* `Pattern.run`: the task that computes a pattern.
-/

namespace FederatedQuery

/-- The rows that a native query yields. -/
def Compiled.fetch (c : Compiled) (config : Config) (x : External) :
    Exchange ExecutionError (List Row) :=
  match c.paging with
  | some paging => c.readPages x config.maxRows paging [] []
  | none => do
    match ← Exchange.items (x.request c.query.toJson) with
    | .error message => .fail (.requester message)
    | .ok items => .ofExcept (c.rows items)

/-- The rows of a pattern before the nested patterns are computed: those that the native query
yields, unless they are too many, with what is left to do. -/
def Compiled.finished (c : Compiled) (config : Config) (x : External) (scope : Scope) :
    Exchange ExecutionError Dataset := do
  let rows ← c.fetch config x
  if config.maxRows < rows.length then .fail (.resultTooLarge config.maxRows)
  else .ofExcept ((c.finish.apply scope rows).mapError .expression)

/-- The nested pattern for the group in which a condition holds: the source is that of the
outer pattern, narrowed by the condition and by the nested pattern's own filter. That
filter is left out if the outer pattern has the same one. -/
def Pattern.forGroup (outer nested : Pattern) (condition : Expression) : Pattern :=
  let source := outer.source.narrow condition
  { nested with
    source :=
      match nested.source.filter with
      | none => source
      | some own => if outer.source.filter == some own then source else source.narrow own }

@[simp] theorem Pattern.forGroup_applies (outer nested : Pattern) (condition : Expression) :
    (outer.forGroup nested condition).applies = nested.applies := rfl

/-- The results of a nested pattern take less to write down than those of the outer one. -/
theorem Pattern.sizeOf_applies_lt {p nested : Pattern} {name : String}
    (h : (name, nested) ∈ p.nestedPatterns) : sizeOf nested.applies < sizeOf p.applies := by
  obtain ⟨⟨n, body⟩, hmem, hbody⟩ := List.mem_filterMap.1 h
  cases body with
  | scalar e => simp at hbody
  | nested q =>
    simp only [Option.some.injEq, Prod.mk.injEq] at hbody
    obtain ⟨rfl, rfl⟩ := hbody
    have := List.sizeOf_lt_of_mem hmem
    obtain ⟨source, dataName, split, applies, sort, limit⟩ := q
    simp only [Prod.mk.sizeOf_spec, Body.nested.sizeOf_spec, Pattern.mk.sizeOf_spec] at this ⊢
    omega

/-- The row with the datasets that tasks compute, one after the other. -/
def Row.attach (row : Row) : List (String × Task Dataset) → Task Dataset
  | [] => .done [row]
  | (name, task) :: rest => task.bind fun dataset => attach (row.put name (.dataset dataset)) rest

/-- The task that computes the rows of a pattern, given the rows around it. -/
def Pattern.run (config : Config) (p : Pattern) (scope : Scope) : Task Dataset :=
  .look fun cancelled =>
    if cancelled then .fail .cancelled
    else
      match p.compile config.limits with
      | .error error => .fail (.compile error)
      | .ok c =>
        (c.finished config p.source.external scope).andThen id fun rows =>
          match c.grouping with
          | none => .done rows
          | some grouping =>
            let nestedFor (row : Row) : List (String × Task Dataset) :=
              let key := (row.get? grouping.name).getD .null
              p.nestedPatterns.attach.map fun ⟨(name, nested), _⟩ =>
                (name, (p.forGroup nested (grouping.condition key)).run config (row :: scope))
            if p.nestedPatterns.isEmpty then .done rows
            else
              .join (.window config.width) (rows.map fun row => row.attach (nestedFor row))
                fun parts => .done parts.flatten
termination_by sizeOf p.applies
decreasing_by
  rw [Pattern.forGroup_applies]
  exact Pattern.sizeOf_applies_lt (by assumption)

end FederatedQuery
