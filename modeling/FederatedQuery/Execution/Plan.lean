import FederatedQuery.Execution.Pattern
import FederatedQuery.Plan.Basic

/-!
# Computing plans

A pipeline fills a single row: first the totals of all sources, computed side by side, then
the derived values in order, and then the datasets, again side by side. Any other plan is
one pattern or one value.

## Main definitions

* `Plan.run`: the task that computes a plan.
* `Plan.value`: the value of a plan whose rows have been computed.
-/

namespace FederatedQuery

namespace Step

/-- The patterns of the steps that compute totals. -/
def totals? : Step → Option Pattern
  | .totals pattern => some pattern
  | _ => none

/-- The values that are computed from other results. -/
def derived? : Step → Option (String × Expression)
  | .derived name e => some (name, e)
  | _ => none

/-- The datasets. -/
def dataset? : Step → Option (String × Pattern)
  | .dataset name pattern => some (name, pattern)
  | _ => none

end Step

namespace Plan

/-- The row with the totals; of each answer the first row counts. -/
def addTotals (row : Row) (answers : List Dataset) : Row :=
  answers.foldl (fun row rows =>
    match rows with
    | first :: _ => Row.extend row first
    | [] => row) row

/-- The task that computes the row of a pipeline. -/
def runSteps (config : Config) (seed : Row) (steps : List Step) : Task Dataset :=
  let totals := steps.filterMap Step.totals?
  let derived := steps.filterMap Step.derived?
  let datasets := steps.filterMap Step.dataset?
  .together (totals.map fun pattern => pattern.run config [seed]) fun answers =>
    match Row.derive [] (addTotals seed answers) derived with
    | .error error => .fail (.expression error)
    | .ok row =>
      .together (datasets.map fun (_, pattern) => pattern.run config [row]) fun answers =>
        let cells := (datasets.map Prod.fst).zip (answers.map Value.dataset)
        .done [Row.extend row cells]

/-- The task that computes the rows of a plan. A value is the only cell of the only row. -/
def run (config : Config) : Plan → Task Dataset
  | .value e =>
    match e.evaluate [] with
    | .error error => .fail (.expression error)
    | .ok v => .done [[(scalarColumn, v)]]
  | .dataset pattern => pattern.run config []
  | .scalar pattern => pattern.run config []
  | .pipeline seed steps => runSteps config seed steps

/-- The cell that holds a scalar, in the first row; null if there is none. -/
def scalarIn (rows : Dataset) : Value :=
  ((rows.head?.bind fun row => Row.get? row scalarColumn)).getD .null

/-- The value of a plan whose rows have been computed. -/
def result (rows : Dataset) : Plan → Value
  | .value _ | .scalar _ => scalarIn rows
  | .dataset _ | .pipeline .. => .dataset rows

end Plan

end FederatedQuery
