import FederatedQuery.Execution.Finish
import FederatedQuery.Proofs.Success

/-!
# Evaluation in different scopes

An expression that has a value in two scopes which do not contradict each other has the same value
in both of them, and in every scope that has what these two have in common. For a name is looked
up in both scopes or in neither, as the conditions that decide about it have the same values.

## Main definitions

* `Scope.Covers`: a scope with all that two others have in common.

## Main results

* `Expression.evaluate_meets`: the values of an expression.
* `Row.derive_meets`: the rows with derived values.
-/

namespace FederatedQuery

variable {a b c : Scope}

theorem Scope.lookup?_singleton (row : Row) (name : String) :
    Scope.lookup? [row] name = row.get? name := by
  rw [lookup?, List.findSome?_cons, List.findSome?_nil]
  cases row.get? name <;> rfl

theorem Scope.lookup?_pair (row around : Row) (name : String) :
    Scope.lookup? [row, around] name = (row.get? name).or (around.get? name) := by
  rw [lookup?, List.findSome?_cons, List.findSome?_cons, List.findSome?_nil]
  cases row.get? name <;> cases around.get? name <;> rfl

/-- What two scopes both have is the same in both, and a third scope has it as well. -/
def Scope.Covers (c a b : Scope) : Prop :=
  ∀ name v w, a.lookup? name = some v → b.lookup? name = some w →
    v = w ∧ c.lookup? name = some v

/-- Scopes stay as they are to each other with one more row inside of them. -/
theorem Scope.Covers.cons (h : c.Covers a b) (row : Row) :
    Scope.Covers (row :: c) (row :: a) (row :: b) := by
  intro name v w ha hb
  simp only [Scope.lookup?, List.findSome?_cons] at ha hb ⊢
  cases hrow : row.get? name with
  | some value =>
    simp only [hrow] at ha hb
    exact ⟨Option.some.inj (ha.symm.trans hb), ha⟩
  | none =>
    simp only [hrow] at ha hb
    exact h name v w ha hb

namespace Expression

theorem evaluate_ref_eq_ok {scope : Scope} {name : String} {v : Value} :
    (ref name).evaluate scope = .ok v ↔ scope.lookup? name = some v := by
  rw [evaluate]
  cases scope.lookup? name <;> simp

/-- Operations on operands whose values meet have values that meet. -/
theorem evaluate_binary_meets {l l₁ l₂ r r₁ r₂ : Expression}
    (hl : (l.evaluate c).Meets (l₁.evaluate a) (l₂.evaluate b))
    (hr : (r.evaluate c).Meets (r₁.evaluate a) (r₂.evaluate b)) (op : Operator) :
    ((binary op l r).evaluate c).Meets ((binary op l₁ r₁).evaluate a)
      ((binary op l₂ r₂).evaluate b) := by
  have hstrict (f : Value → Value → Except ExpressionError Value) :=
    hl.bind fun x => hr.bind fun y => .refl (f x y)
  cases op with
  | arithmetic op => exact hstrict op.onValues
  | comparison k => exact hstrict fun x y => .ok (k.onValues x y)
  | relation k =>
    cases k with
    | is => exact hstrict fun x y => .ok (.boolean (x == y))
    | _ => exact .of_error rfl
  | measure => exact .of_error rfl
  | connective k =>
    -- the second operand is looked at in all scopes or in none
    have hsecond := hr.bind fun y => .refl (.ok (Value.boolean y.isTrue))
    cases k with
    | and =>
      refine hl.bind fun x => ?_
      split
      · exact hsecond
      · exact .refl _
    | or =>
      refine hl.bind fun x => ?_
      split
      · exact .refl _
      · exact hsecond

/-- **Values in different scopes.** If an expression has a value in two scopes that do not
contradict each other, it has the same one in every scope with what they have in common. -/
theorem evaluate_meets (hcovers : c.Covers a b) (e : Expression) :
    (e.evaluate c).Meets (e.evaluate a) (e.evaluate b) := by
  induction e with
  | literal value => exact .refl _
  | ref name =>
    refine ⟨fun ha hb => ?_⟩
    rw [evaluate_ref_eq_ok] at ha hb ⊢
    exact hcovers name _ _ ha hb
  | not e ih => exact ih.bind fun x => .refl _
  | binary op l r ihl ihr => exact evaluate_binary_meets ihl ihr op
  | _ => exact .of_error rfl

end Expression

/-- Rows with values that are derived in different scopes. -/
theorem Row.derive_meets (hcovers : c.Covers a b) (row : Row)
    (derived : List (String × Expression)) :
    (row.derive c derived).Meets (row.derive a derived) (row.derive b derived) := by
  induction derived generalizing row with
  | nil => exact .refl _
  | cons entry derived ih =>
    simp only [derive, List.foldlM_cons]
    have hvalue := Expression.evaluate_meets (hcovers.cons row) entry.2
    exact (hvalue.bind fun _ => .refl _).bind ih

end FederatedQuery
