import FederatedQuery.Expression.Basic

/-!
# What values and expressions are made of

A dataset holds values in its cells, which may be datasets again, and the literals of an expression
hold values. What is to hold of all numbers, instants or rows in an expression is a property of
each value that occurs in it. A first such property is that its numbers are finite: then the
expression is equal to itself.

## Main definitions

* `Value.parts`, `Expression.values`: the values that occur in a value and in an expression.
* `Value.numbers`, `Value.instants`, `Value.rows`: what a single value is made of.

## Main results

* `Expression.forall_values`: what holds of the values of an expression holds of those of its
  children.
* `Value.same_self`, `Expression.same_self`: equality is reflexive where numbers are finite.
-/

namespace FederatedQuery

/-! ### Values -/

namespace Value

mutual

/-- A value and all values in it, at any depth. -/
def parts : Value → List Value
  | .dataset rows => .dataset rows :: partsOfRows rows
  | v => [v]

/-- All values in rows. -/
def partsOfRows : List (List (String × Value)) → List Value
  | [] => []
  | row :: rest => partsOfCells row ++ partsOfRows rest

/-- All values in cells. -/
def partsOfCells : List (String × Value) → List Value
  | [] => []
  | (_, v) :: rest => parts v ++ partsOfCells rest

end

/-- The numbers that a value is made of, those of its parts apart. -/
def numbers : Value → List Float
  | .number x => [x]
  | .numberRange r => r.start.toList ++ r.stop.toList
  | _ => []

/-- The instants that a value is made of, those of its parts apart. -/
def instants : Value → List Instant
  | .time t => [t]
  | .timeRange r => [r.start, r.stop]
  | _ => []

/-- The rows that a value is made of. -/
def rows : Value → Dataset
  | .dataset rows => rows
  | _ => []

end Value

/-! ### Expressions -/

namespace Expression

/-- The values that occur in an expression, at any depth. -/
def values (e : Expression) : List Value :=
  e.nodes.flatMap fun node =>
    match node with
    | .literal v => v.parts
    | _ => []

theorem values_eq (e : Expression) : e.values = (match e with
    | .literal v => v.parts
    | _ => []) ++ e.children.flatMap values := by
  rw [values, nodes_eq, List.flatMap_cons, List.flatMap_assoc]
  rfl

@[simp] theorem values_literal (v : Value) : (literal v).values = v.parts := by
  rw [values_eq]
  exact List.append_nil _

/-- What holds of all values of an expression holds of those of its children. -/
theorem forall_values {p : Value → Prop} {child e : Expression} (hchild : child ∈ e.children)
    (h : ∀ v ∈ e.values, p v) : ∀ v ∈ child.values, p v := by
  intro v hv
  refine h v ?_
  rw [values_eq e]
  exact List.mem_append_right _ (List.mem_flatMap.2 ⟨child, hchild, hv⟩)

/-- What holds of all values of the children of a node holds of all values of the node, which has
none of its own unless it is a literal. -/
theorem forall_values_of_children {p : Value → Prop} {e : Expression} (he : ∀ v, e ≠ literal v)
    (h : ∀ child ∈ e.children, ∀ v ∈ child.values, p v) : ∀ v ∈ e.values, p v := by
  intro v hv
  rw [values_eq e] at hv
  obtain hv | hv := List.mem_append.1 hv
  · cases e with
    | literal w => exact absurd rfl (he w)
    | _ => cases hv
  · obtain ⟨child, hchild, hv⟩ := List.mem_flatMap.1 hv
    exact h child hchild v hv

end Expression

/-! ### Equality -/

/-- A number that is finite is equal to itself. -/
theorem beq_self_of_isFinite {x : Float} (h : x.isFinite = true) : (x == x) = true := by
  change x.toModel.unpack.isFinite = true at h
  change (x.toModel.unpack.compare x.toModel.unpack == some .eq) = true
  revert h
  generalize x.toModel.unpack = u
  intro h
  cases u with
  | notANumber => cases h
  | infinity s => cases h
  | zero s => rfl
  | finite s m e hpos =>
    have hself : (compare e e).then (compare m m) = .eq := by
      have he : compare e e = .eq := Std.ReflCmp.compare_self
      have hm : compare m m = .eq := Std.ReflCmp.compare_self
      rw [he, hm, Ordering.then_eq]
    cases s with
    | positive => exact congrArg (fun o => some o == some .eq) hself
    | negative => exact congrArg (fun o : Ordering => some o.swap == some .eq) hself

theorem beq_self_of_forall_isFinite {bound : Option Float} (h : ∀ x ∈ bound, x.isFinite = true) :
    (bound == bound) = true := by
  cases bound with
  | none => rfl
  | some x => exact beq_self_of_isFinite (h x rfl)

namespace Value

mutual

/-- A value of finite numbers is equal to itself. -/
theorem same_self : (v : Value) → (∀ u ∈ v.parts, ∀ x ∈ u.numbers, x.isFinite = true) →
    same v v = true
  | .null, _ => rfl
  | .boolean b, _ => beq_self_eq_true b
  | .number x, h => beq_self_of_isFinite (h _ List.mem_cons_self x List.mem_cons_self)
  | .string s, _ => beq_self_eq_true s
  | .time t, _ => beq_self_eq_true t
  | .timeRange r, _ => beq_self_eq_true r
  | .numberRange r, h => by
    have hfinite := h _ List.mem_cons_self
    have hstart := beq_self_of_forall_isFinite fun x (hx : x ∈ r.start) => hfinite x
      (List.mem_append_left _ (Option.mem_toList.2 hx))
    have hstop := beq_self_of_forall_isFinite fun x (hx : x ∈ r.stop) => hfinite x
      (List.mem_append_right _ (Option.mem_toList.2 hx))
    rw [same, hstart, hstop, Bool.and_self]
  | .stringSet items, _ => beq_self_eq_true items
  | .dataset rows, h => by
    rw [same]
    exact sameRows_self rows fun u hu => h u (List.mem_cons_of_mem _ hu)

theorem sameRows_self : (rows : List (List (String × Value))) →
    (∀ u ∈ partsOfRows rows, ∀ x ∈ u.numbers, x.isFinite = true) → sameRows rows rows = true
  | [], _ => rfl
  | row :: rest, h => by
    rw [sameRows, sameCells_self row fun u hu => h u (List.mem_append_left _ hu),
      sameRows_self rest fun u hu => h u (List.mem_append_right _ hu), Bool.and_self]

theorem sameCells_self : (cells : List (String × Value)) →
    (∀ u ∈ partsOfCells cells, ∀ x ∈ u.numbers, x.isFinite = true) → sameCells cells cells = true
  | [], _ => rfl
  | (name, v) :: rest, h => by
    rw [sameCells, same_self v fun u hu => h u (List.mem_append_left _ hu),
      sameCells_self rest fun u hu => h u (List.mem_append_right _ hu), beq_self_eq_true,
      Bool.and_self, Bool.and_self]

end

end Value

namespace Expression

/-- An expression of finite numbers is equal to itself. -/
theorem same_self {e : Expression} (h : ∀ v ∈ e.values, ∀ x ∈ v.numbers, x.isFinite = true) :
    same e e = true := by
  induction e with
  | literal v =>
    rw [values_literal] at h
    exact Value.same_self v h
  | ref name => exact beq_self_eq_true name
  | limit operand _ ih | count operand ih | not operand ih | regex operand _ ih
  | timeBucket operand _ ih => simp [same, ih (forall_values List.mem_cons_self h)]
  | filter operand argument iho iha | split operand argument _ iho iha
  | apply operand argument _ iho iha | sort operand argument _ iho iha
  | binary _ operand argument iho iha =>
    simp [same, iho (forall_values List.mem_cons_self h),
      iha (forall_values (List.mem_cons_of_mem _ List.mem_cons_self) h)]

end Expression

end FederatedQuery
