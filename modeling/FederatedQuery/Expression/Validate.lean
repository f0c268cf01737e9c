import FederatedQuery.Expression.Build

/-!
# Valid expressions

An expression that comes from a document has not been built step by step. Validation
looks at its nodes one by one, each before its children, and reports the first broken
rule.

## Main definitions

* `Expression.fault?`: the rule that a node breaks.
* `Expression.validate`: the check of a whole expression.
-/

namespace FederatedQuery.Expression

/-- The rule of the algebra that the root breaks. -/
def fault? : Expression → Option Malformation
  | .ref name => if name.isEmpty then some .namelessReference else none
  | .literal (.number x) => if x.isFinite then none else some (.infiniteLiteral x)
  | .split _ key name =>
    if name.isEmpty then some (.emptyName "split")
    else if key.isAggregate then some (.splitKey key)
    else none
  | .apply _ _ name => if name.isEmpty then some (.emptyName "apply") else none
  | .sort _ key _ => if key.isRef then none else some (.sortKey key)
  | .regex _ regexp => if regexp.isEmpty then some .emptyRegexp else none
  | .timeBucket _ duration =>
    match Period.parse? duration with
    | some _ => none
    | none => some (.invalidPeriod duration)
  | _ => none

/-- Checks every node; the error is that of the first faulty one. -/
def validate (e : Expression) : Except Malformation Unit :=
  match e.nodes.findSome? fault? with
  | some fault => .error fault
  | none => .ok ()

/-- An expression is valid when none of its nodes is faulty. -/
theorem validate_eq_ok_iff {e : Expression} :
    e.validate = .ok () ↔ ∀ node ∈ e.nodes, node.fault? = none := by
  unfold validate
  cases h : e.nodes.findSome? fault? with
  | none => simpa using h
  | some fault =>
    obtain ⟨node, hmem, hnode⟩ := List.exists_of_findSome?_eq_some h
    simp only [reduceCtorEq, false_iff]
    intro hall
    simp [hall node hmem] at hnode

end FederatedQuery.Expression
