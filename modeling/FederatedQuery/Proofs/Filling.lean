import FederatedQuery.Proofs.Evaluation
import FederatedQuery.Proofs.Outputs

/-!
# Expressions over the values of aggregates

The backend gives the values of the aggregates in an expression, in order. The expression itself
is then computed without the rows: each aggregate is replaced by its value. It makes no difference
whether it is replaced by the value or by a reference to a column that holds it.

## Main definitions

* `Expression.nativeCount`: how many values of the backend an expression is computed from.
* `Expression.value?`: the value of an expression whose aggregates have given values.

## Main results

* `Expression.length_of_fill`: the number of parts that an expression takes.
* `Expression.evaluate_of_fill`: references to columns and the values in them.
-/

namespace FederatedQuery

namespace Expression

theorem takePart_eq_some {parts rest : List Expression} {e : Expression} :
    takePart parts = some (e, rest) ↔ parts = e :: rest := by
  cases parts with
  | nil => exact ⟨nofun, nofun⟩
  | cons part others => simp [takePart]

theorem takeQuotient_eq_some {parts rest : List Expression} {e : Expression} :
    takeQuotient parts = some (e, rest) ↔
      ∃ sum number, parts = sum :: number :: rest ∧
        e = .binary (.arithmetic .divide) sum number := by
  unfold takeQuotient
  split
  · next sum number others =>
    simp only [Option.some.injEq, Prod.mk.injEq, List.cons.injEq]
    constructor
    · rintro ⟨rfl, rfl⟩
      exact ⟨sum, number, ⟨rfl, rfl, rfl⟩, rfl⟩
    · rintro ⟨_, _, ⟨rfl, rfl, rfl⟩, rfl⟩
      exact ⟨rfl, rfl⟩
  · next hshort =>
    refine ⟨nofun, ?_⟩
    rintro ⟨sum, number, rfl, -⟩
    exact absurd rfl (hshort sum number rest)

theorem fill_not_eq_some {a e : Expression} {parts rest : List Expression} :
    (Expression.not a).fill parts = some (e, rest) ↔
      ∃ a', a.fill parts = some (a', rest) ∧ e = .not a' := by
  rw [fill, Option.map_eq_some_iff]
  constructor
  · rintro ⟨⟨a', _⟩, ha, ⟨⟩⟩
    exact ⟨a', ha, rfl⟩
  · rintro ⟨a', ha, rfl⟩
    exact ⟨_, ha, rfl⟩

theorem fill_binary_eq_some {op : Operator} {a b e : Expression}
    (h : (binary op a b).isAggregate = false) {parts rest : List Expression} :
    (binary op a b).fill parts = some (e, rest) ↔
      ∃ a' middle b', a.fill parts = some (a', middle) ∧ b.fill middle = some (b', rest) ∧
        e = .binary op a' b' := by
  rw [fill_binary h, Option.bind_eq_some_iff]
  constructor
  · rintro ⟨⟨a', middle⟩, ha, h⟩
    obtain ⟨⟨b', _⟩, hb, ⟨⟩⟩ := Option.bind_eq_some_iff.1 h
    exact ⟨a', middle, b', ha, hb, rfl⟩
  · rintro ⟨a', middle, b', ha, hb, rfl⟩
    exact ⟨_, ha, Option.bind_eq_some_iff.2 ⟨_, hb, rfl⟩⟩

/-- How many values of the backend an expression is computed from. -/
def nativeCount : Expression → Nat
  | .count _ => 1
  | .not a => a.nativeCount
  | .binary op a b =>
    match op with
    | .measure .average => 2
    | .measure _ => 1
    | _ => a.nativeCount + b.nativeCount
  | _ => 0

theorem nativeCount_binary {op : Operator} {a b : Expression}
    (h : (binary op a b).isAggregate = false) :
    (binary op a b).nativeCount = a.nativeCount + b.nativeCount := by
  cases op with
  | measure m => exact nomatch h
  | _ => rfl

/-- An expression takes as many parts as there are values. -/
theorem length_of_fill {e e' : Expression} {parts rest : List Expression}
    (h : e.fill parts = some (e', rest)) : parts.length = e.nativeCount + rest.length := by
  induction e generalizing parts rest e' with
  | count a =>
    rw [takePart_eq_some.1 h, List.length_cons, nativeCount, Nat.add_comm]
  | not a ih =>
    obtain ⟨a', ha, -⟩ := fill_not_eq_some.1 h
    exact ih ha
  | binary op a b iha ihb =>
    by_cases hroot : (binary op a b).isAggregate
    · cases op with
      | measure m =>
        cases m with
        | average =>
          obtain ⟨sum, number, rfl, -⟩ := takeQuotient_eq_some.1 h
          simp only [List.length_cons, nativeCount]
          omega
        | _ => exact (congrArg List.length (takePart_eq_some.1 h)).trans (Nat.add_comm _ 1)
      | _ => exact nomatch hroot
    · rw [Bool.not_eq_true] at hroot
      obtain ⟨a', middle, b', ha, hb, -⟩ := (fill_binary_eq_some hroot).1 h
      have hlength := iha ha
      have hlength' := ihb hb
      rw [nativeCount_binary hroot]
      omega
  | _ =>
    obtain ⟨⟩ := h
    exact (Nat.zero_add _).symm

/-! ### Values of filled expressions -/

/-- In a scope, an expression has a value whenever another one does, and the same one. -/
def Refines (scope : Scope) (p q : Expression) : Prop :=
  (q.evaluate scope).Meets (p.evaluate scope) (p.evaluate scope)

/-- Expressions filled with parts of the same values have the same values. -/
theorem fill_refines {scope : Scope} {e x y : Expression} {ps qs rs ss : List Expression}
    (h : List.Forall₂ (Refines scope) ps qs) (hp : e.fill ps = some (x, rs))
    (hq : e.fill qs = some (y, ss)) : Refines scope x y ∧ List.Forall₂ (Refines scope) rs ss := by
  induction e generalizing ps qs rs ss x y with
  | count a =>
    rw [takePart_eq_some.1 hp, takePart_eq_some.1 hq] at h
    obtain _ | ⟨hpart, hrest⟩ := h
    exact ⟨hpart, hrest⟩
  | not a ih =>
    obtain ⟨x', hx, rfl⟩ := fill_not_eq_some.1 hp
    obtain ⟨y', hy, rfl⟩ := fill_not_eq_some.1 hq
    obtain ⟨hpart, hrest⟩ := ih h hx hy
    exact ⟨hpart.bind fun v => .refl _, hrest⟩
  | binary op a b iha ihb =>
    by_cases hroot : (binary op a b).isAggregate
    · cases op with
      | measure m =>
        cases m with
        | average =>
          obtain ⟨sum, number, rfl, rfl⟩ := takeQuotient_eq_some.1 hp
          obtain ⟨sum', number', rfl, rfl⟩ := takeQuotient_eq_some.1 hq
          obtain _ | ⟨hsum, _ | ⟨hnumber, hrest⟩⟩ := h
          exact ⟨evaluate_binary_meets hsum hnumber _, hrest⟩
        | _ =>
          rw [takePart_eq_some.1 hp, takePart_eq_some.1 hq] at h
          obtain _ | ⟨hpart, hrest⟩ := h
          exact ⟨hpart, hrest⟩
      | _ => exact nomatch hroot
    · rw [Bool.not_eq_true] at hroot
      obtain ⟨xa, pm, xb, hxa, hxb, rfl⟩ := (fill_binary_eq_some hroot).1 hp
      obtain ⟨ya, qm, yb, hya, hyb, rfl⟩ := (fill_binary_eq_some hroot).1 hq
      obtain ⟨ha, hmiddle⟩ := iha h hxa hya
      obtain ⟨hb, hrest⟩ := ihb hmiddle hxb hyb
      exact ⟨evaluate_binary_meets ha hb op, hrest⟩
  | _ =>
    obtain ⟨⟩ := hp
    obtain ⟨⟩ := hq
    exact ⟨Except.Meets.refl _, h⟩

/-- The value of an expression whose aggregates have the given values, in order. -/
def value? (natives : List Value) (scope : Scope) (e : Expression) : Option Value :=
  match e.fill (natives.map .literal) with
  | some (filled, []) => (filled.evaluate scope).toOption
  | _ => none

theorem value?_eq_some {natives : List Value} {scope : Scope} {e : Expression} {v : Value} :
    e.value? natives scope = some v ↔
      ∃ filled, e.fill (natives.map .literal) = some (filled, []) ∧
        filled.evaluate scope = .ok v := by
  unfold value?
  split
  · next filled heq =>
    rw [heq, Except.toOption_eq_some_iff]
    constructor
    · intro h
      exact ⟨filled, rfl, h⟩
    · rintro ⟨_, ⟨⟩, h⟩
      exact h
  · next hother =>
    refine ⟨nofun, ?_⟩
    rintro ⟨filled, heq, -⟩
    exact absurd heq (hother filled)

/-- An aggregate that the backend computes as it is has the value that the backend gives. -/
theorem value?_of_isNative {e : Expression} (h : Outputs.isNative e) {natives : List Value}
    {scope : Scope} {v : Value} : e.value? natives scope = some v ↔ natives = [v] := by
  rw [value?_eq_some, fill_of_isNative h]
  constructor
  · rintro ⟨filled, hfill, hvalue⟩
    have hparts := takePart_eq_some.1 hfill
    obtain _ | ⟨w, _ | _⟩ := natives
    · exact nomatch hparts
    · cases hparts
      exact congrArg (fun v => [v]) (Except.ok.inj hvalue)
    · exact nomatch hparts
  · rintro rfl
    exact ⟨.literal v, rfl, rfl⟩

/-- The value of an expression, from the columns that hold the values of its aggregates. -/
theorem evaluate_of_fill {e filled derived : Expression} {natives : List Value}
    {names : List String} {scope : Scope}
    (hfilled : e.fill (natives.map .literal) = some (filled, []))
    (hderived : e.fill (names.map .ref) = some (derived, []))
    (hnames : List.Forall₂ (fun name v => scope.lookup? name = some v) names natives) (v : Value) :
    derived.evaluate scope = .ok v ↔ filled.evaluate scope = .ok v := by
  have href {name : String} {w : Value} (h : scope.lookup? name = some w) :
      (ref name).evaluate scope = (literal w).evaluate scope := evaluate_ref_eq_ok.2 h
  have hto : List.Forall₂ (Refines scope) (names.map .ref) (natives.map .literal) := by
    rw [List.forall₂_map_left_iff, List.forall₂_map_right_iff]
    refine hnames.imp fun name w h => ?_
    rw [Refines, href h]
    exact .refl _
  have hback : List.Forall₂ (Refines scope) (natives.map .literal) (names.map .ref) := by
    rw [List.forall₂_map_left_iff, List.forall₂_map_right_iff]
    refine hnames.flip.imp fun w name h => ?_
    rw [Refines, href h]
    exact .refl _
  constructor
  · intro h
    exact ((fill_refines hto hderived hfilled).1.ok h h).2
  · intro h
    exact ((fill_refines hback hfilled hderived).1.ok h h).2

end Expression

end FederatedQuery
