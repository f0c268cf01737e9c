import FederatedQuery.External.Basic

/-!
# Patterns

A pattern is the shape of query that a backend can carry out: the rows of a datasource,
perhaps filtered, perhaps grouped, with results computed for every group, in some order
and up to some number. A result is a value, or for a group also a pattern of its own.

## Main definitions

* `Context`: the datasources by name.
* `Source`: a datasource with the filter that every query of it carries.
* `Pattern`: the shape of a query.
-/

namespace FederatedQuery

/-- The datasources by name. Each name occurs once. -/
abbrev Context := List (String × External)

/-- The datasources with one that takes the place of the one of its name, or comes last. -/
def Context.put : Context → String → External → Context
  | [], name, x => [(name, x)]
  | (n, y) :: rest, name, x => if n = name then (n, x) :: rest else (n, y) :: put rest name x

/-- What has been put under a name is found there. -/
theorem Context.lookup_put (context : Context) (name : String) (x : External) :
    (Context.put context name x).lookup name = some x := by
  induction context with
  | nil => simp [Context.put]
  | cons entry rest ih =>
    obtain ⟨n, y⟩ := entry
    by_cases h : n = name
    · simp [Context.put, h]
    · have hne : (name == n) = false := beq_false_of_ne fun e => h e.symm
      simp [Context.put, h, List.lookup_cons, hne, ih]

/-- A datasource and a filter on its rows. -/
structure Source where
  external : External
  filter : Option Expression

namespace Source

/-- A datasource with all its rows. -/
def ofExternal (x : External) : Source := ⟨x, none⟩

/-- The source narrowed by one more condition. -/
def narrow (s : Source) (condition : Expression) : Source :=
  ⟨s.external, some (match s.filter with
    | some filter => filter.conj condition
    | none => condition)⟩

/-- Narrowing keeps the datasource. -/
@[simp] theorem narrow_external (s : Source) (condition : Expression) :
    (s.narrow condition).external = s.external := rfl

end Source

/-- What rows are grouped by, and how the groups are called. -/
structure SplitKey where
  key : Expression
  name : String

/-- A result that a pattern computes: a value, or a dataset for every group. -/
inductive Body (Nested : Type) where
  | scalar (e : Expression)
  | nested (pattern : Nested)

/-- The shape of a query. -/
structure Pattern where
  source : Source
  /-- The name that aggregates use for the rows of the source. -/
  dataName : String
  split : Option SplitKey
  /-- The results, by name, in order. -/
  applies : List (String × Body Pattern)
  sort : Option SortKey
  limit : Option Nat

namespace Pattern

/-- A pattern of results over all rows of a source, of which there are none yet. -/
def totals (source : Source) (dataName : String) : Pattern :=
  ⟨source, dataName, none, [], none, none⟩

/-- The pattern with its source narrowed by one more condition. -/
def narrow (p : Pattern) (condition : Expression) : Pattern :=
  { p with source := p.source.narrow condition }

/-- The pattern with one more value to compute. -/
def addScalar (p : Pattern) (name : String) (e : Expression) : Pattern :=
  { p with applies := p.applies ++ [(name, .scalar e)] }

end Pattern

end FederatedQuery
