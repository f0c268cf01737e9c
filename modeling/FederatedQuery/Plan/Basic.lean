import FederatedQuery.Plan.Chain

/-!
# Plans

A plan tells how a whole expression is computed. An expression that applies results onto
a single row is a pipeline; its steps are the queries for totals, the queries for
datasets, and the values computed from other results. Aggregates over one source are
collected in one query as long as the name of the source is not bound anew.

## Main definitions

* `Step`, `Plan`: the plans.
* `Pipeline.addApply`: the step that an apply becomes.
* `Plan.ofExpression`: the plan of an expression.
-/

namespace FederatedQuery

/-- A step of a pipeline. -/
inductive Step where
  /-- A query for aggregates over all rows of a source. -/
  | totals (pattern : Pattern)
  /-- A query for a dataset. -/
  | dataset (name : String) (pattern : Pattern)
  /-- A value computed from other results. -/
  | derived (name : String) (e : Expression)

/-- How a whole expression is computed. -/
inductive Plan where
  /-- A single row, put together from the results of several steps. -/
  | pipeline (seed : Row) (steps : List Step)
  /-- The rows of one pattern. -/
  | dataset (pattern : Pattern)
  /-- One cell of the only row of a pattern. -/
  | scalar (pattern : Pattern)
  /-- A value that needs no datasource. -/
  | value (e : Expression)

/-- The column that holds the value of a scalar plan. -/
def Plan.scalarColumn : String := "__value"

/-! ### Pipelines -/

/-- A pipeline in the making. -/
structure Pipeline where
  bindings : Bindings
  steps : List Step
  /-- The steps that collect the totals of a source, by the name of the source. -/
  collecting : List (String × Nat)

namespace Pipeline

/-- The name of a source has a new meaning, so no step collects its totals any more. -/
def rebind (p : Pipeline) (name : String) (source : Source) : Pipeline :=
  { p with
    bindings := p.bindings.bind name source
    collecting := p.collecting.filter fun entry => entry.1 != name }

/-- One more step. -/
def addStep (p : Pipeline) (step : Step) : Pipeline := { p with steps := p.steps ++ [step] }

/-- A step with one more value to compute. -/
def Step.addScalar (name : String) (e : Expression) : Step → Step
  | .totals pattern => .totals (pattern.addScalar name e)
  | step => step

/-- A value over the rows called `root`, put into the step that collects the totals of
that source. -/
def addTotal (p : Pipeline) (root name : String) (e : Expression) :
    Except CompileError Pipeline :=
  match p.collecting.lookup root with
  | some index => .ok { p with steps := p.steps.modify index (Step.addScalar name e) }
  | none => do
    let source ← p.bindings.resolve root
    let step := Step.totals ((Pattern.totals source root).addScalar name e)
    .ok { p.addStep step with collecting := (root, p.steps.length) :: p.collecting }

/-- One more apply. A reference with filters binds its name to a source, another chain
from a source becomes a dataset, an expression with aggregates a total, and any other a
derived value. -/
def addApply (p : Pipeline) (name : String) (e : Expression) : Except CompileError Pipeline :=
  if e.isFilteredRef && p.bindings.isSourceChain e then do
    let source ← p.bindings.sourceOf e
    .ok (p.rebind name source)
  else if p.bindings.isSourceChain e then do
    let pattern ← p.bindings.pattern e
    .ok (p.addStep (.dataset name pattern))
  else
    match e.aggregateRoots with
    | [] => .ok (p.addStep (.derived name e))
    | [root] => p.addTotal root name e
    | _ => .error (.unsupportedShape (.severalDatasources e))

/-- The row onto which an expression applies its results, and the applies in order. -/
def unwind? (e : Expression) : Option (Row × List (String × Expression)) :=
  match Chain.takeApplies e with
  | (applies, .literal (.dataset [seed])) => some (seed, applies)
  | _ => none

end Pipeline

/-! ### Plans of expressions -/

namespace Plan

/-- The first reference to a datasource in an expression. -/
def firstSourceRef? (b : Bindings) (e : Expression) : Option String :=
  e.nodes.findSome? fun node =>
    match node with
    | .ref name => if b.isSource name then some name else none
    | _ => none

/-- The source of the rows called `root` in an expression over them, and the expression
over that source. The filters of a single aggregate narrow the whole query. -/
def scalarBody (b : Bindings) (e : Expression) (root : String) :
    Except CompileError (Source × Expression) :=
  match e.operand?, e.rebase? root with
  | some operand, some body =>
    if operand.isFilteredRef then (b.sourceOf operand).map fun source => (source, body)
    else (b.resolve root).map fun source => (source, e)
  | _, _ => (b.resolve root).map fun source => (source, e)

/-- The plan of an expression that is neither a pipeline nor a chain. -/
def ofScalar (b : Bindings) (e : Expression) : Except CompileError Plan :=
  match e.aggregateRoots with
  | [] =>
    match firstSourceRef? b e with
    | some name => .error (.unsupportedShape (.outsideAggregate name e))
    | none => .ok (.value e)
  | [root] => do
    let (source, body) ← scalarBody b e root
    .ok (.scalar ((Pattern.totals source root).addScalar scalarColumn body))
  | _ => .error (.unsupportedShape (.severalDatasources e))

/-- The plan of an expression. -/
def ofExpression (context : Context) (e : Expression) : Except CompileError Plan :=
  let b := Bindings.ofContext context
  match Pipeline.unwind? e with
  | some (seed, applies) => do
    let p ← applies.foldlM (fun p (name, body) => p.addApply name body) (Pipeline.mk b [] [])
    .ok (.pipeline seed p.steps)
  | none =>
    if e.isChain then (b.pattern e).map .dataset
    else ofScalar b e

end Plan

end FederatedQuery
