import FederatedQuery.Proofs.Compilation

/-!
# The native filters of conditions

A backend decides on a row by tests of single columns and by the time of the row. A column that is
tested has to be known, it must not be a metric, and its kind has to suit the test; the time
attribute is not tested like a column, it is only asked to overlap a range of time.

The native filters of conditions are described here by rules, one for each way in which a predicate
can be decided. The compiler translates by these rules, and by no others. So a proof about filters
goes through the rules, and not through the compiler.

## Main definitions

* `External.Offers`: the columns that can be tested.
* `Native.Translates`: the rules.
* `Native.Restriction.Admits`: the conjuncts that a restriction can stand for.

## Main results

* `Native.filterOf_eq_ok_iff`: the compiler follows the rules.
* `Native.Restriction.exists_ofCondition_iff`: the conditions that restrict a query.
-/

namespace FederatedQuery

open Native

/-! ### Columns that are tested -/

/-- The datasource has a column that can be tested as one of the given kinds. Null values may stand
for values of every kind. -/
structure External.Offers (x : External) (kinds : List Kind) (column : Attribute) : Prop where
  known : x.attribute? column.name = some column
  splitable : column.unsplitable = false
  kind : column.kind ∈ kinds ∨ column.kind = .null

theorem External.name_of_attribute? {x : External} {name : String} {column : Attribute}
    (h : x.attribute? name = some column) : column.name = name :=
  beq_iff_eq.1 (List.find?_some (p := fun a : Attribute => a.name == name) h)

theorem External.isTimeRef_iff {x : External} {e : Expression} :
    x.isTimeRef e ↔ e = .ref x.timeAttribute := by
  cases e with
  | ref name => rw [isTimeRef, beq_iff_eq, Expression.ref.injEq]
  | _ => exact ⟨nofun, nofun⟩

theorem External.isTimeRef_ref_eq_false {x : External} {name : String} :
    x.isTimeRef (.ref name) = false ↔ name ≠ x.timeAttribute :=
  beq_eq_false_iff_ne

theorem Expression.literal?_eq_some {e : Expression} {value : Value} :
    e.literal? = some value ↔ e = .literal value := by
  cases e with
  | literal v => rw [literal?, Option.some.injEq, Expression.literal.injEq]
  | _ => exact ⟨nofun, nofun⟩

namespace Native

variable {x : External}

/-- The column of a test is one that can be tested, referred to by its name. -/
theorem dimensionOf_eq_ok_iff {whole left : Expression} {first : Kind} {others : List Kind}
    {column : Attribute} :
    dimensionOf x whole left (first :: others) = .ok column ↔
      left = .ref column.name ∧ x.Offers (first :: others) column := by
  unfold dimensionOf
  constructor
  · intro h
    split at h
    · next name =>
      split at h
      · exact nomatch h
      next found hfound =>
      split at h
      · exact nomatch h
      next hsplit =>
      split at h
      · next hkind =>
        cases h
        have hname := External.name_of_attribute? hfound
        exact ⟨congrArg _ hname.symm, hname.symm ▸ hfound, eq_false_of_ne_true hsplit,
          Kind.isAssignableToAny_cons.1 hkind⟩
      · exact nomatch h
    · exact nomatch h
  · rintro ⟨rfl, hoffers⟩
    have hkind := Kind.isAssignableToAny_cons.2 hoffers.kind
    simp only [hoffers.known, hoffers.splitable, hkind, Bool.false_eq_true, if_false, if_true]

/-! ### Rules -/

/-- The test that a column has a value, or one of several values. -/
def equalityTest? (name : String) : Value → Option Filter
  | .stringSet values => some (.oneOf name values)
  | value => (selectorText? value).map (.selector name)

/-- The test that a column lies in a range of numbers. -/
def rangeTest (name : String) (range : NumberRange) : Filter :=
  .bound name .numeric (range.start.map fun s => ⟨Value.numberText s, none⟩)
    (range.stop.map fun e => ⟨Value.numberText e, some true⟩)

/-- The test that a column compares with a text. -/
def comparisonTest (name : String) (c : Comparison) (text : String) (order : BoundOrder) :
    Filter :=
  match c with
  | .greaterThan => .bound name order (some ⟨text, some true⟩) none
  | .greaterThanOrEqual => .bound name order (some ⟨text, some false⟩) none
  | .lessThan => .bound name order none (some ⟨text, some true⟩)
  | .lessThanOrEqual => .bound name order none (some ⟨text, some false⟩)

/-- The native filters of conditions. -/
inductive Translates (x : External) : Expression → Filter → Prop
  | equal {column : Attribute} {value : Value} {test : Filter}
      (hoffers : x.Offers [.string, .stringSet, .number] column)
      (htime : column.name ≠ x.timeAttribute)
      (htest : equalityTest? column.name value = some test) :
      Translates x (.binary (.relation .is) (.ref column.name) (.literal value)) test
  | equalTo {column : Attribute} {value : Value} {test : Filter}
      (hoffers : x.Offers [.string, .stringSet, .number] column)
      (htime : column.name ≠ x.timeAttribute)
      (htest : equalityTest? column.name value = some test) :
      Translates x (.binary (.relation .is) (.literal value) (.ref column.name)) test
  | during (range : TimeRange) :
      Translates x (.binary (.relation .overlap) (.ref x.timeAttribute)
        (.literal (.timeRange range))) (.interval range)
  | among {column : Attribute} (values : List String)
      (hoffers : x.Offers [.string, .stringSet] column) (htime : column.name ≠ x.timeAttribute) :
      Translates x (.binary (.relation .overlap) (.ref column.name)
        (.literal (.stringSet values))) (.oneOf column.name values)
  | within {column : Attribute} (range : NumberRange) (hoffers : x.Offers [.number] column)
      (htime : column.name ≠ x.timeAttribute) :
      Translates x (.binary (.relation .overlap) (.ref column.name)
        (.literal (.numberRange range))) (rangeTest column.name range)
  | contains {column : Attribute} (text : String) (hoffers : x.Offers [.string] column) :
      Translates x (.binary (.relation .contains) (.ref column.name) (.literal (.string text)))
        (.search column.name text)
  | compare {column : Attribute} {value : Value} {text : String} {order : BoundOrder}
      (c : Comparison) (hoffers : x.Offers [.string, .number] column)
      (htime : column.name ≠ x.timeAttribute)
      (htext : comparedText? (some value) = some (text, order)) :
      Translates x (.binary (.comparison c) (.ref column.name) (.literal value))
        (comparisonTest column.name c text order)
  | regex {column : Attribute} (pattern : String) (hoffers : x.Offers [.string] column) :
      Translates x (.regex (.ref column.name) pattern) (.regex column.name pattern)
  | and {a b : Expression} {left right : Filter} (ha : Translates x a left)
      (hb : Translates x b right) :
      Translates x (.binary (.connective .and) a b) (.and (left.conjuncts ++ right.conjuncts))
  | or {a b : Expression} {left right : Filter} (ha : Translates x a left)
      (hb : Translates x b right) :
      Translates x (.binary (.connective .or) a b) (.or (left.disjuncts ++ right.disjuncts))
  | not {a : Expression} {inner : Filter} (ha : Translates x a inner) :
      Translates x (.not a) (.not inner)

/-! ### The compiler follows the rules -/

theorem equalitySides?_eq_some {a b left : Expression} {value : Value}
    (h : equalitySides? a b = some (left, value)) :
    (left = a ∧ b = .literal value) ∨ (left = b ∧ a = .literal value) := by
  unfold equalitySides? at h
  split at h
  · next hb =>
    cases h
    exact .inl ⟨rfl, Expression.literal?_eq_some.1 hb⟩
  · next ha =>
    cases h
    exact .inr ⟨rfl, Expression.literal?_eq_some.1 ha⟩
  · exact nomatch h

theorem equality_eq {whole a b left : Expression} {value : Value}
    (hsides : equalitySides? a b = some (left, value)) (htime : x.isTimeRef left = false) :
    equality x whole a b =
      (dimensionOf x whole left [.string, .stringSet, .number] >>= fun column =>
        (equalityTest? column.name value).elim (.error (.unpushable whole .unsupportedLiteral))
          .ok) := by
  simp only [equality, hsides, htime, Bool.false_eq_true, if_false]
  congr 1
  funext column
  cases value <;> rfl

theorem translates_of_equality {whole a b : Expression} {f : Filter}
    (h : equality x whole a b = .ok f) : Translates x (.binary (.relation .is) a b) f := by
  cases hsides : equalitySides? a b with
  | none =>
    simp only [equality, hsides] at h
    exact nomatch h
  | some sides =>
    obtain ⟨left, value⟩ := sides
    cases htime : x.isTimeRef left with
    | true =>
      simp only [equality, hsides, htime, if_true] at h
      exact nomatch h
    | false =>
      rw [equality_eq hsides htime] at h
      obtain ⟨column, hcolumn, hf⟩ := Except.bind_eq_ok.1 h
      obtain ⟨rfl, hoffers⟩ := dimensionOf_eq_ok_iff.1 hcolumn
      have hname := External.isTimeRef_ref_eq_false.1 htime
      cases htest : equalityTest? column.name value with
      | none =>
        rw [htest] at hf
        exact nomatch hf
      | some test =>
        rw [htest] at hf
        obtain rfl : test = f := Except.ok.inj hf
        obtain ⟨rfl, rfl⟩ | ⟨rfl, rfl⟩ := equalitySides?_eq_some hsides
        · exact .equal hoffers hname htest
        · exact .equalTo hoffers hname htest

theorem translates_of_overlap {whole a b : Expression} {f : Filter}
    (h : overlap x whole a b = .ok f) : Translates x (.binary (.relation .overlap) a b) f := by
  unfold overlap at h
  split at h
  · exact nomatch h
  next value hvalue =>
  obtain rfl := Expression.literal?_eq_some.1 hvalue
  split at h
  · next htime =>
    obtain rfl := External.isTimeRef_iff.1 htime
    split at h
    · cases h
      exact .during _
    · exact nomatch h
  next htime =>
  split at h
  · obtain ⟨column, hcolumn, hf⟩ := Except.bind_eq_ok.1 h
    obtain ⟨rfl, hoffers⟩ := dimensionOf_eq_ok_iff.1 hcolumn
    cases hf
    exact .among _ hoffers (External.isTimeRef_ref_eq_false.1 (eq_false_of_ne_true htime))
  · obtain ⟨column, hcolumn, hf⟩ := Except.bind_eq_ok.1 h
    obtain ⟨rfl, hoffers⟩ := dimensionOf_eq_ok_iff.1 hcolumn
    cases hf
    exact .within _ hoffers (External.isTimeRef_ref_eq_false.1 (eq_false_of_ne_true htime))
  · exact nomatch h

theorem translates_of_containment {whole a b : Expression} {f : Filter}
    (h : containment x whole a b = .ok f) :
    Translates x (.binary (.relation .contains) a b) f := by
  unfold containment at h
  split at h
  · next text htext =>
    obtain rfl := Expression.literal?_eq_some.1 htext
    obtain ⟨column, hcolumn, hf⟩ := Except.bind_eq_ok.1 h
    obtain ⟨rfl, hoffers⟩ := dimensionOf_eq_ok_iff.1 hcolumn
    cases hf
    exact .contains _ hoffers
  · exact nomatch h

theorem translates_of_comparison {whole a b : Expression} {c : Comparison} {f : Filter}
    (h : comparison x whole c a b = .ok f) : Translates x (.binary (.comparison c) a b) f := by
  unfold comparison at h
  split at h
  · exact nomatch h
  next htime =>
  obtain ⟨column, hcolumn, hf⟩ := Except.bind_eq_ok.1 h
  obtain ⟨rfl, hoffers⟩ := dimensionOf_eq_ok_iff.1 hcolumn
  have hname := External.isTimeRef_ref_eq_false.1 (eq_false_of_ne_true htime)
  split at hf
  · exact nomatch hf
  next text order htext =>
  have hf : comparisonTest column.name c text order = f := by
    cases c <;> exact Except.ok.inj hf
  cases hvalue : b.literal? with
  | none =>
    rw [hvalue] at htext
    exact nomatch htext
  | some value =>
    rw [hvalue] at htext
    obtain rfl := Expression.literal?_eq_some.1 hvalue
    exact hf ▸ .compare c hoffers hname htext

/-- A filter that the compiler makes of a condition is one by the rules. -/
theorem translates_of_filterOf {e : Expression} {f : Filter} (h : filterOf x e = .ok f) :
    Translates x e f := by
  induction e generalizing f with
  | binary op a b iha ihb =>
    cases op with
    | connective c =>
      cases c <;>
      · obtain ⟨left, hleft, h⟩ := Except.bind_eq_ok.1 h
        obtain ⟨right, hright, h⟩ := Except.bind_eq_ok.1 h
        cases h
        constructor
        exacts [iha hleft, ihb hright]
    | relation r =>
      cases r with
      | is => exact translates_of_equality h
      | overlap => exact translates_of_overlap h
      | contains => exact translates_of_containment h
    | comparison => exact translates_of_comparison h
    | measure | arithmetic => exact nomatch h
  | not a ih =>
    obtain ⟨inner, hinner, h⟩ := Except.bind_eq_ok.1 h
    cases h
    exact .not (ih hinner)
  | regex a pattern =>
    obtain ⟨column, hcolumn, hf⟩ := Except.bind_eq_ok.1 h
    obtain ⟨rfl, hoffers⟩ := dimensionOf_eq_ok_iff.1 hcolumn
    cases hf
    exact .regex pattern hoffers
  | _ => exact nomatch h

/-- An equality that can be tested is translated to its test. -/
theorem equality_eq_ok {whole a b : Expression} {column : Attribute} {value : Value}
    {test : Filter} (hsides : equalitySides? a b = some (.ref column.name, value))
    (hoffers : x.Offers [.string, .stringSet, .number] column)
    (htime : column.name ≠ x.timeAttribute)
    (htest : equalityTest? column.name value = some test) :
    equality x whole a b = .ok test := by
  rw [equality_eq hsides (External.isTimeRef_ref_eq_false.2 htime)]
  refine Except.bind_eq_ok.2 ⟨column, dimensionOf_eq_ok_iff.2 ⟨rfl, hoffers⟩, ?_⟩
  rw [htest]
  rfl

/-- **The compiler follows the rules.** The native filters of conditions are those by the rules. -/
theorem filterOf_eq_ok_iff {e : Expression} {f : Filter} :
    filterOf x e = .ok f ↔ Translates x e f := by
  refine ⟨translates_of_filterOf, fun h => ?_⟩
  have tested {whole left : Expression} {first : Kind} {others : List Kind} {column : Attribute}
      {test : Attribute → Filter} (hoffers : x.Offers (first :: others) column)
      (hleft : left = .ref column.name) :
      (dimensionOf x whole left (first :: others) >>= fun column => .ok (test column)) =
        .ok (test column) :=
    Except.bind_eq_ok.2 ⟨column, dimensionOf_eq_ok_iff.2 ⟨hleft, hoffers⟩, rfl⟩
  induction h with
  | equal hoffers htime htest | equalTo hoffers htime htest =>
    rw [filterOf]
    exact equality_eq_ok rfl hoffers htime htest
  | during range =>
    simp only [filterOf, overlap, Expression.literal?, External.isTimeRef, beq_self_eq_true,
      if_true]
  | among values hoffers htime | within range hoffers htime =>
    simp only [filterOf, overlap, Expression.literal?, External.isTimeRef_ref_eq_false.2 htime,
      Bool.false_eq_true, if_false]
    exact tested hoffers rfl
  | contains text hoffers | regex pattern hoffers => exact tested hoffers rfl
  | @compare column value text order c hoffers htime htext =>
    simp only [filterOf, comparison, Expression.literal?, htext,
      External.isTimeRef_ref_eq_false.2 htime, Bool.false_eq_true, if_false]
    refine Except.bind_eq_ok.2 ⟨column, dimensionOf_eq_ok_iff.2 ⟨rfl, hoffers⟩, ?_⟩
    cases c <;> rfl
  | and _ _ iha ihb | or _ _ iha ihb =>
    exact Except.bind_eq_ok.2 ⟨_, iha, Except.bind_eq_ok.2 ⟨_, ihb, rfl⟩⟩
  | not _ ih => exact Except.bind_eq_ok.2 ⟨_, ih, rfl⟩

/-! ### Restrictions -/

namespace Restriction

/-- A conjunct is trivial or can be decided, be it by a filter or by the interval of a query. -/
def Admits (x : External) (part : Expression) : Prop :=
  part = .literal (.boolean true) ∨ ∃ f, Translates x part f

theorem translates_of_timeRange? {part : Expression} {range : TimeRange}
    (h : timeRange? x part = some range) : Translates x part (.interval range) := by
  unfold timeRange? at h
  split at h
  · split at h
    · next htime =>
      obtain rfl := External.isTimeRef_iff.1 htime
      cases h
      exact .during range
    · exact nomatch h
  · exact nomatch h

theorem isTrivial_iff {part : Expression} : isTrivial part ↔ part = .literal (.boolean true) := by
  unfold isTrivial
  split
  · exact iff_of_true rfl rfl
  · next h => exact iff_of_false Bool.false_ne_true h

/-- One more conjunct adds its filter, if it adds any. -/
theorem addConjunct_eq_ok {state state' : Option TimeRange × List Filter} {part : Expression}
    (h : addConjunct x state part = .ok state') :
    Admits x part ∧ ∃ added, state'.2 = state.2 ++ added ∧ ∀ f ∈ added, Translates x part f := by
  unfold addConjunct at h
  split at h
  · next range hrange =>
    cases h
    exact ⟨.inr ⟨_, translates_of_timeRange? hrange⟩, [], (List.append_nil _).symm, nofun⟩
  · split at h
    · next htrivial =>
      cases h
      exact ⟨.inl (isTrivial_iff.1 htrivial), [], (List.append_nil _).symm, nofun⟩
    · obtain ⟨f, hf, rfl⟩ := Except.map_eq_ok.1 h
      have htranslates := filterOf_eq_ok_iff.1 hf
      exact ⟨.inr ⟨f, htranslates⟩, [f], rfl, List.forall_mem_singleton.2 htranslates⟩

theorem exists_addConjunct_iff (state : Option TimeRange × List Filter) (part : Expression) :
    (∃ state', addConjunct x state part = .ok state') ↔ Admits x part := by
  refine ⟨fun ⟨state', h⟩ => (addConjunct_eq_ok h).1, fun h => ?_⟩
  unfold addConjunct
  split
  · exact ⟨_, rfl⟩
  · split
    · exact ⟨_, rfl⟩
    · next hnontrivial =>
      obtain rfl | ⟨f, hf⟩ := h
      · exact absurd rfl hnontrivial
      · exact ⟨_, Except.map_eq_ok.2 ⟨f, filterOf_eq_ok_iff.2 hf, rfl⟩⟩

/-- The restriction of a single conjunct that does not narrow the interval is its filter. -/
theorem exists_translates_of_ofCondition {e : Expression} {r : Restriction}
    (hconjuncts : e.conjuncts = [e]) (htime : timeRange? x e = none)
    (htrivial : isTrivial e = false) (h : ofCondition x (some e) = .ok r) :
    ∃ f, Translates x e f ∧ r = ⟨none, some f⟩ := by
  obtain ⟨state, hstate, hr⟩ := Except.bind_eq_ok.1 h
  rw [hconjuncts, List.foldlM_cons] at hstate
  obtain ⟨_, hadded, ⟨⟩⟩ := Except.bind_eq_ok.1 hstate
  simp only [addConjunct, htime, htrivial, Bool.false_eq_true, if_false] at hadded
  obtain ⟨f, hf, rfl⟩ := Except.map_eq_ok.1 hadded
  exact ⟨f, filterOf_eq_ok_iff.1 hf, (Except.ok.inj hr).symm⟩

/-- **The conditions that restrict a query** are those of which every conjunct is trivial or can be
decided. -/
theorem exists_ofCondition_iff {e : Expression} :
    (∃ r, ofCondition x (some e) = .ok r) ↔ ∀ part ∈ e.conjuncts, Admits x part := by
  rw [← Except.exists_foldlM_eq_ok (exists_addConjunct_iff (x := x)) (b := (none, []))]
  constructor
  · rintro ⟨r, h⟩
    obtain ⟨state, hstate, -⟩ := Except.bind_eq_ok.1 h
    exact ⟨state, hstate⟩
  · rintro ⟨state, hstate⟩
    exact ⟨_, Except.bind_eq_ok.2 ⟨state, hstate, rfl⟩⟩

end Restriction

end Native

end FederatedQuery
