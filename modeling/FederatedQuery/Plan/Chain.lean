import FederatedQuery.Compile.Error
import FederatedQuery.Plan.Pattern

/-!
# Chains of operations on a dataset

A dataset is described by a chain of operations that starts at a name. Only chains in one
order of operations are patterns: a reference, then filters, a split, applies, a sort and
a limit. `Chain.unwind` takes a chain apart in that order, from its end, and leaves what
does not fit as the base of the chain.

## Main definitions

* `Expression.chainRoot?`: the name at which a chain starts.
* `Chain.unwind`: the parts of a chain.
* `Bindings`: what names of datasources mean.
* `Bindings.pattern`: the pattern that a chain describes.
-/

namespace FederatedQuery

namespace Expression

/-- The name at which a chain of operations on datasets starts. -/
def chainRoot? : Expression → Option String
  | .ref name => some name
  | .filter operand _ => operand.chainRoot?
  | .split operand _ _ => operand.chainRoot?
  | .apply operand _ _ => operand.chainRoot?
  | .sort operand _ _ => operand.chainRoot?
  | .limit operand _ => operand.chainRoot?
  | _ => none

/-- Whether an expression is a reference followed only by filters. -/
def isFilteredRef : Expression → Bool
  | .ref _ => true
  | .filter operand _ => operand.isFilteredRef
  | _ => false

/-- Whether an expression is a chain of operations that starts at a name. -/
def isChain (e : Expression) : Bool := e.chainRoot?.isSome

/-- The names at which the data of the aggregates in an expression start, each once. -/
def aggregateRoots (e : Expression) : List String :=
  (e.nodes.filterMap fun node =>
    if node.isAggregate then node.operand?.bind chainRoot? else none).eraseDups

/-- An aggregate over the rows called `root` instead of its own. -/
def rebase? (e : Expression) (root : String) : Option Expression :=
  match e with
  | .count _ => some (.count (.ref root))
  | .binary (.measure m) _ argument => some (.binary (.measure m) (.ref root) argument)
  | _ => none

end Expression

/-! ### Taking a chain apart -/

/-- The parts of a chain. -/
structure Chain where
  /-- What is left when the other parts are taken off. -/
  base : Expression
  split : Option SplitKey
  applies : List (String × Expression)
  sort : Option (Expression × Direction)
  limit : Option Nat

namespace Chain

/-- The limit at the end of a chain, and the chain before it. -/
def takeLimit : Expression → Option Nat × Expression
  | .limit operand rows => (some rows.toNat, operand)
  | e => (none, e)

/-- The sort at the end of a chain, and the chain before it. -/
def takeSort : Expression → Option (Expression × Direction) × Expression
  | .sort operand key direction => (some (key, direction), operand)
  | e => (none, e)

/-- The applies at the end of a chain, in order, and the chain before them. -/
def takeApplies : Expression → List (String × Expression) × Expression
  | .apply operand body name =>
    let (applies, base) := takeApplies operand
    (applies ++ [(name, body)], base)
  | e => ([], e)

/-- The split at the end of a chain, and the chain before it. -/
def takeSplit : Expression → Option SplitKey × Expression
  | .split operand key name => (some ⟨key, name⟩, operand)
  | e => (none, e)

/-- The parts of a chain. -/
def unwind (e : Expression) : Chain :=
  let (limit, e) := takeLimit e
  let (sort, e) := takeSort e
  let (applies, e) := takeApplies e
  let (split, e) := takeSplit e
  ⟨e, split, applies, sort, limit⟩

theorem sizeOf_takeLimit_le (e : Expression) : sizeOf (takeLimit e).2 ≤ sizeOf e := by
  cases e <;> simp [takeLimit]
  omega

theorem sizeOf_takeSort_le (e : Expression) : sizeOf (takeSort e).2 ≤ sizeOf e := by
  cases e <;> simp [takeSort]
  omega

theorem sizeOf_lt_of_mem_takeApplies {e : Expression} {apply : String × Expression}
    (h : apply ∈ (takeApplies e).1) : sizeOf apply.2 < sizeOf e := by
  induction e with
  | apply operand body name ih _ =>
    simp only [takeApplies, List.mem_append, List.mem_singleton] at h
    rcases h with h | h
    · have := ih h
      simp only [Expression.apply.sizeOf_spec]
      omega
    · subst h
      simp only [Expression.apply.sizeOf_spec]
      omega
  | _ => simp [takeApplies] at h

/-- The bodies of the applies are smaller than the chain. -/
theorem sizeOf_lt_of_mem_applies {e : Expression} {apply : String × Expression}
    (h : apply ∈ (unwind e).applies) : sizeOf apply.2 < sizeOf e := by
  have h₁ := sizeOf_takeLimit_le e
  have h₂ := sizeOf_takeSort_le (takeLimit e).2
  have h₃ := sizeOf_lt_of_mem_takeApplies (e := (takeSort (takeLimit e).2).2) h
  omega

end Chain

/-! ### Patterns of chains -/

/-- What the names of datasources mean: the bound ones, latest first, and those of the
context. -/
structure Bindings where
  context : Context
  bound : List (String × Source)

namespace Bindings

/-- No name is bound. -/
def ofContext (context : Context) : Bindings := ⟨context, []⟩

/-- Binds a name to a source; earlier bindings of the name no longer count. -/
def bind (b : Bindings) (name : String) (source : Source) : Bindings :=
  { b with bound := (name, source) :: b.bound }

/-- The source that a name means. -/
def resolve? (b : Bindings) (name : String) : Option Source :=
  match b.bound.lookup name with
  | some source => some source
  | none => (b.context.lookup name).map Source.ofExternal

/-- Whether a name means a source. -/
def isSource (b : Bindings) (name : String) : Bool := (b.resolve? name).isSome

/-- The source that a name means, which must be one. -/
def resolve (b : Bindings) (name : String) : Except CompileError Source :=
  match b.resolve? name with
  | some source => .ok source
  | none => .error (.unknownDatasource name)

/-- Whether an expression is a chain that starts at a datasource. -/
def isSourceChain (b : Bindings) (e : Expression) : Bool := e.chainRoot?.any b.isSource

/-- The source that a reference followed by filters describes. -/
def sourceOf (b : Bindings) : Expression → Except CompileError Source
  | .ref name => b.resolve name
  | .filter operand condition => do
    let source ← b.sourceOf operand
    .ok (source.narrow condition)
  | e => .error (.unsupportedShape (.expectedDatasource e))

/-- The sort of a pattern; its key must be a reference. -/
def sortOf : Option (Expression × Direction) → Except CompileError (Option SortKey)
  | none => .ok none
  | some (.ref name, direction) => .ok (some ⟨name, direction⟩)
  | some (key, _) => .error (.unsupportedShape (.sortKey key))

/-- The pattern that a chain describes. The body of an apply that is itself a chain from a
datasource becomes a nested pattern; it must start at the same name. -/
def pattern (b : Bindings) (e : Expression) : Except CompileError Pattern := do
  let chain := Chain.unwind e
  let sort ← sortOf chain.sort
  if !chain.base.isFilteredRef then throw (.unsupportedShape (.operatorOrder e))
  let source ← b.sourceOf chain.base
  let dataName := chain.base.chainRoot?.getD ""
  if chain.split.isNone && !chain.applies.isEmpty then
    throw (.unsupportedShape (.applyOnRows e))
  let applies ← chain.applies.attach.mapM fun ⟨(name, body), _⟩ => do
    if b.isSourceChain body then
      if body.chainRoot? = some dataName then
        let nested ← b.pattern body
        .ok (name, Body.nested nested)
      else throw (.unsupportedShape (.foreignNested body))
    else .ok (name, Body.scalar body)
  .ok ⟨source, dataName, chain.split, applies, sort, chain.limit⟩
termination_by sizeOf e
decreasing_by exact Chain.sizeOf_lt_of_mem_applies (by assumption)

end Bindings

end FederatedQuery
