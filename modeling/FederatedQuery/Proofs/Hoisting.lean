import FederatedQuery.Proofs.Outputs
import FederatedQuery.Proofs.Rows
import FederatedQuery.Proofs.Sample
import Mathlib.Data.List.Nodup

/-!
# Hoisting aggregates

An expression that computes with aggregates is rewritten before it is evaluated: each aggregate
becomes a native column of its own, and the expression refers to that column. This file compares
the rewritten expression with the original one in which each aggregate is replaced by its value, and
an average by the quotient of a sum and a number of rows. If the native columns hold the values of
the aggregates that they are generated for, both have the same value or fail in the same way.

## Main definitions

* `Expression.natives`, `Expression.substitute`: the aggregates of an expression, and their values
  in their place.
* `Outputs.columnsFor`: the native columns for results, with their aggregates.
* `Outputs.Adds`: outputs with more columns and derived values.

## Main results

* `Outputs.hoist_sound`: one expression.
* `Outputs.evaluate_derived`: all derived values of a sequence of results.
* `Row.derive_outputs`: the row that they are written into.
-/

namespace FederatedQuery

/-! ### Aggregates and their values -/

namespace Expression

/-- The aggregates that the backend computes for an expression, in order; for an average these are a
sum and a number of rows. -/
def natives : Expression → List Expression
  | .literal _ | .ref _ => []
  | e@(.count _) => [e]
  | e@(.binary op a b) =>
    match op with
    | .measure .average => [.binary (.measure .sum) a b, .count a]
    | .measure _ => [e]
    | _ => a.natives ++ b.natives
  | .not a | .regex a _ | .timeBucket a _ | .limit a _ => a.natives
  | .filter a b | .split a b _ | .apply a b _ | .sort a b _ => a.natives ++ b.natives

/-- The expression with the values of its aggregates in their place, and the quotient of two values
in the place of an average. -/
def substitute (value : Expression → Value) : Expression → Expression
  | .literal v => .literal v
  | .ref name => .ref name
  | e@(.count _) => .literal (value e)
  | e@(.binary op a b) =>
    match op with
    | .measure .average =>
      .binary (.arithmetic .divide) (.literal (value (.binary (.measure .sum) a b)))
        (.literal (value (.count a)))
    | .measure _ => .literal (value e)
    | op => .binary op (a.substitute value) (b.substitute value)
  | .not a => .not (a.substitute value)
  | .regex a regexp => .regex (a.substitute value) regexp
  | .timeBucket a duration => .timeBucket (a.substitute value) duration
  | .limit a rows => .limit (a.substitute value) rows
  | .filter a b => .filter (a.substitute value) (b.substitute value)
  | .split a b name => .split (a.substitute value) (b.substitute value) name
  | .apply a b name => .apply (a.substitute value) (b.substitute value) name
  | .sort a b direction => .sort (a.substitute value) (b.substitute value) direction

/-- Neither the root of an expression without aggregates is one, nor does a part have some. -/
theorem hasAggregate_eq_false {e : Expression} (h : e.hasAggregate = false) :
    e.isAggregate = false ∧ ∀ part ∈ e.children, part.hasAggregate = false := by
  rw [hasAggregate, nodes_eq, List.any_cons, List.any_flatMap, Bool.or_eq_false_iff] at h
  exact ⟨h.1, fun part hpart => Bool.eq_false_iff.2 fun haggregate =>
    Bool.eq_false_iff.1 h.2 (List.any_eq_true.2 ⟨part, hpart, haggregate⟩)⟩

/-- A binary operation that is no aggregate has the aggregates of its parts. -/
theorem natives_binary {op : Operator} {a b : Expression}
    (h : (binary op a b).isAggregate = false) :
    (binary op a b).natives = a.natives ++ b.natives ∧ ∀ value,
      (binary op a b).substitute value = binary op (a.substitute value) (b.substitute value) := by
  cases op with
  | measure => exact nomatch h
  | _ => exact ⟨rfl, fun _ => rfl⟩

/-- An expression without aggregates stays as it is, and the backend computes nothing for it. -/
theorem natives_of_not_hasAggregate {e : Expression} (h : e.hasAggregate = false) :
    e.natives = [] ∧ ∀ value, e.substitute value = e := by
  induction e with
  | literal | ref => exact ⟨rfl, fun _ => rfl⟩
  | count => exact nomatch (hasAggregate_eq_false h).1
  | not a ih | regex a _ ih | timeBucket a _ ih | limit a _ ih =>
    obtain ⟨hnatives, hsame⟩ := ih ((hasAggregate_eq_false h).2 a List.mem_cons_self)
    refine ⟨hnatives, fun value => ?_⟩
    rw [substitute, hsame]
  | filter a b iha ihb | split a b _ iha ihb | apply a b _ iha ihb | sort a b _ iha ihb =>
    obtain ⟨-, hparts⟩ := hasAggregate_eq_false h
    obtain ⟨ha, hsame⟩ := iha (hparts a List.mem_cons_self)
    obtain ⟨hb, hsame'⟩ := ihb (hparts b (List.mem_cons_of_mem _ List.mem_cons_self))
    refine ⟨?_, fun value => ?_⟩
    · rw [natives, ha, hb, List.append_nil]
    · rw [substitute, hsame, hsame']
  | binary op a b iha ihb =>
    obtain ⟨hroot, hparts⟩ := hasAggregate_eq_false h
    obtain ⟨ha, hsame⟩ := iha (hparts a List.mem_cons_self)
    obtain ⟨hb, hsame'⟩ := ihb (hparts b (List.mem_cons_of_mem _ List.mem_cons_self))
    obtain ⟨hnatives, hsubstitute⟩ := natives_binary hroot
    refine ⟨?_, fun value => ?_⟩
    · rw [hnatives, ha, hb, List.append_nil]
    · rw [hsubstitute, hsame, hsame']

end Expression

/-! ### Native columns -/

namespace Outputs

/-- Hidden columns for aggregates, of which the first one has the given number. -/
def hiddenColumns (first : Nat) (aggregates : List Expression) : List (String × Expression) :=
  (aggregates.zipIdx first).map fun (e, n) => (hiddenName n, e)

/-- The native columns for results, in order, with the aggregates that they are generated for. An
aggregate has a column of its own name; the aggregates of any other result have hidden columns,
which are numbered. -/
def columnsFor : Nat → List (String × Expression) → List (String × Expression)
  | _, [] => []
  | first, (name, e) :: results =>
    if isNative e then (name, e) :: columnsFor first results
    else hiddenColumns first e.natives ++ columnsFor (first + e.natives.length) results

theorem hiddenColumns_append (first : Nat) (aggregates others : List Expression) :
    hiddenColumns first (aggregates ++ others) =
      hiddenColumns first aggregates ++ hiddenColumns (first + aggregates.length) others := by
  rw [hiddenColumns, List.zipIdx_append, List.map_append, hiddenColumns, hiddenColumns]

variable {x : External} {dataName : String}

/-- Outputs have, in addition to others, native columns for the given aggregates, so many of them
hidden, and the given derived values. -/
structure Adds (x : External) (dataName : String) (o o' : Outputs)
    (columns : List (String × Expression)) (hidden : Nat) (derived : List (String × Expression)) :
    Prop where
  aggregators : ∃ added, o'.aggregators = o.aggregators ++ added ∧
    List.Forall₂ (fun column a => Aggregate.toNative x dataName column.1 column.2 = .ok a)
      columns added
  hidden : o'.hidden.length = o.hidden.length + hidden
  derived : o'.derived = o.derived ++ derived

theorem Adds.refl (o : Outputs) : Adds x dataName o o [] 0 [] :=
  ⟨⟨[], (List.append_nil _).symm, .nil⟩, rfl, (List.append_nil _).symm⟩

theorem Adds.trans {o o' o'' : Outputs} {columns columns' : List (String × Expression)}
    {hidden hidden' : Nat} {derived derived' : List (String × Expression)}
    (h : Adds x dataName o o' columns hidden derived)
    (h' : Adds x dataName o' o'' columns' hidden' derived') :
    Adds x dataName o o'' (columns ++ columns') (hidden + hidden') (derived ++ derived') where
  aggregators := by
    obtain ⟨added, hadded, hcolumns⟩ := h.aggregators
    obtain ⟨added', hadded', hcolumns'⟩ := h'.aggregators
    refine ⟨added ++ added', ?_, List.rel_append hcolumns hcolumns'⟩
    rw [hadded', hadded, List.append_assoc]
  hidden := by rw [h'.hidden, h.hidden, Nat.add_assoc]
  derived := by rw [h'.derived, h.derived, List.append_assoc]

theorem addAggregate_adds {o o' : Outputs} {name : String} {e : Expression}
    (h : o.addAggregate x dataName name e = .ok o') : Adds x dataName o o' [(name, e)] 0 [] := by
  obtain ⟨a, ha, ⟨⟩⟩ := Except.bind_eq_ok.1 h
  exact ⟨⟨[a], rfl, .cons ha .nil⟩, rfl, (List.append_nil _).symm⟩

theorem addHidden_adds {o o' : Outputs} {e e' : Expression}
    (h : o.addHidden x dataName e = .ok (e', o')) :
    Adds x dataName o o' (hiddenColumns o.hidden.length [e]) 1 [] ∧
      e' = .ref (hiddenName o.hidden.length) := by
  obtain ⟨added, hadded, ⟨⟩⟩ := Except.bind_eq_ok.1 h
  obtain ⟨haggregators, hhidden, hderived⟩ := addAggregate_adds hadded
  refine ⟨⟨haggregators, ?_, hderived⟩, rfl⟩
  rw [List.length_append, hhidden]
  rfl

/-! ### Rewritten expressions -/

/-- A scope has the values of aggregates in the columns that are generated for them. -/
def Holds (value : Expression → Value) (scope : Scope) (columns : List (String × Expression)) :
    Prop :=
  ∀ column ∈ columns, scope.lookup? column.1 = some (value column.2)

/-- A row with the values hides those in the rows around it. -/
theorem holds_of_row {value : Expression → Value} {row : Row}
    {columns : List (String × Expression)}
    (h : ∀ column ∈ columns, row.get? column.1 = some (value column.2)) (scope : Scope) :
    Holds value (row :: scope) columns := by
  intro column hcolumn
  rw [Scope.lookup?, List.findSome?_cons, h column hcolumn]

/-- A reference to a hidden column has the value of the aggregate. -/
theorem Holds.evaluate_ref {value : Expression → Value} {scope : Scope} {n : Nat} {e : Expression}
    (h : Holds value scope (hiddenColumns n [e])) :
    (Expression.ref (hiddenName n)).evaluate scope = .ok (value e) := by
  rw [Expression.evaluate, h (hiddenName n, e) List.mem_cons_self]

theorem holds_append {value : Expression → Value} {scope : Scope}
    {columns others : List (String × Expression)} :
    Holds value scope (columns ++ others) ↔
      Holds value scope columns ∧ Holds value scope others :=
  List.forall_mem_append

/-- An operation on numbers depends on nothing but how its operands are evaluated. -/
theorem evaluate_arithmetic_congr {scope : Scope} {a b a' b' : Expression}
    (ha : a'.evaluate scope = a.evaluate scope) (hb : b'.evaluate scope = b.evaluate scope)
    (op : Arithmetic) :
    (Expression.binary (.arithmetic op) a' b').evaluate scope =
      (Expression.binary (.arithmetic op) a b).evaluate scope := by
  rw [Expression.evaluate, Expression.evaluate, ha, hb]

/-- **Hoisting is sound.** Where the hidden columns hold the values of their aggregates, the
expression that refers to them is evaluated like the original one with these values in the place of
its aggregates. -/
theorem hoist_sound {o o' : Outputs} {e e' : Expression}
    (h : o.hoist x dataName e = .ok (e', o')) :
    Adds x dataName o o' (hiddenColumns o.hidden.length e.natives) e.natives.length [] ∧
      ∀ value scope, Holds value scope (hiddenColumns o.hidden.length e.natives) →
        e'.evaluate scope = (e.substitute value).evaluate scope := by
  induction e generalizing o e' o' with
  | literal v | ref name =>
    cases h
    exact ⟨.refl o, fun _ _ _ => rfl⟩
  | count rows =>
    obtain ⟨hadds, rfl⟩ := addHidden_adds h
    exact ⟨hadds, fun value scope hholds => hholds.evaluate_ref⟩
  | binary op a b iha ihb =>
    cases op with
    | arithmetic op =>
      obtain ⟨⟨a', o₁⟩, ha, h⟩ := Except.bind_eq_ok.1 h
      obtain ⟨⟨b', o₂⟩, hb, ⟨⟩⟩ := Except.bind_eq_ok.1 h
      obtain ⟨hadds, heval⟩ := iha ha
      obtain ⟨hadds', heval'⟩ := ihb hb
      have hroot : (Expression.binary (.arithmetic op) a b).isAggregate = false := rfl
      obtain ⟨hnatives, hsubstitute⟩ := Expression.natives_binary hroot
      rw [hadds.hidden] at hadds' heval'
      rw [hnatives, hiddenColumns_append, List.length_append]
      refine ⟨hadds.trans hadds', fun value scope hholds => ?_⟩
      obtain ⟨hfirst, hlast⟩ := holds_append.1 hholds
      rw [hsubstitute]
      exact evaluate_arithmetic_congr (heval value scope hfirst) (heval' value scope hlast) op
    | measure m =>
      cases m with
      | average =>
        obtain ⟨⟨sum, o₁⟩, hsum, h⟩ := Except.bind_eq_ok.1 h
        obtain ⟨⟨count, o₂⟩, hcount, ⟨⟩⟩ := Except.bind_eq_ok.1 h
        obtain ⟨hadds, rfl⟩ := addHidden_adds hsum
        obtain ⟨hadds', rfl⟩ := addHidden_adds hcount
        have hnatives := hiddenColumns_append o.hidden.length [.binary (.measure .sum) a b]
          [.count a]
        rw [hadds.hidden] at hadds' ⊢
        refine ⟨hadds.trans hadds', fun value scope hholds => ?_⟩
        obtain ⟨hfirst, hlast⟩ := holds_append.1 (hnatives ▸ hholds)
        exact evaluate_arithmetic_congr hfirst.evaluate_ref hlast.evaluate_ref .divide
      | _ =>
        obtain ⟨hadds, rfl⟩ := addHidden_adds h
        exact ⟨hadds, fun value scope hholds => hholds.evaluate_ref⟩
    | _ => exact nomatch h
  | _ => exact nomatch h

/-- A derived value stands for a result: it has its name, and is evaluated like the expression of
the result with the values of its aggregates in their place. -/
def StandsFor (value : Expression → Value) (scope : Scope) (derived result : String × Expression) :
    Prop :=
  derived.1 = result.1 ∧
    derived.2.evaluate scope = (result.2.substitute value).evaluate scope

theorem names_of_standsFor {value : Expression → Value} {scope : Scope}
    {derived results : List (String × Expression)}
    (h : List.Forall₂ (StandsFor value scope) derived results) :
    derived.map Prod.fst = results.map Prod.fst := by
  induction h with
  | nil => rfl
  | cons hfirst _ ih => rw [List.map_cons, List.map_cons, hfirst.1, ih]

/-- The columns and derived values for one more result. -/
theorem addApply_adds {o o' : Outputs} {name : String} {e : Expression}
    (h : o.addApply x dataName name e = .ok o') :
    (isNative e ∧ Adds x dataName o o' [(name, e)] 0 []) ∨
      isNative e = false ∧ ∃ e', Adds x dataName o o' (hiddenColumns o.hidden.length e.natives)
        e.natives.length [(name, e')] ∧
        ∀ value scope, Holds value scope (hiddenColumns o.hidden.length e.natives) →
          e'.evaluate scope = (e.substitute value).evaluate scope := by
  unfold addApply at h
  split at h
  · next hnative => exact .inl ⟨hnative, addAggregate_adds h⟩
  next hnative =>
  refine .inr ⟨Bool.not_eq_true _ ▸ hnative, ?_⟩
  split at h
  · obtain ⟨⟨e', added⟩, hhoist, ⟨⟩⟩ := Except.bind_eq_ok.1 h
    obtain ⟨hadds, heval⟩ := hoist_sound hhoist
    refine ⟨e', ⟨hadds.aggregators, hadds.hidden, ?_⟩, heval⟩
    rw [addDerived, hadds.derived, List.append_nil]
  · next haggregate =>
    cases h
    rw [Bool.not_eq_true] at haggregate
    obtain ⟨hnatives, hsame⟩ := Expression.natives_of_not_hasAggregate haggregate
    rw [hnatives]
    refine ⟨e, ⟨⟨[], (List.append_nil _).symm, .nil⟩, rfl, rfl⟩, fun value scope _ => ?_⟩
    rw [hsame]

/-- The columns and derived values for several results. -/
theorem addApplies_adds {results : List (String × Expression)} {o o' : Outputs}
    (h : results.foldlM (fun o result => o.addApply x dataName result.1 result.2) o = .ok o') :
    ∃ hidden derived, Adds x dataName o o' (columnsFor o.hidden.length results) hidden derived ∧
      ∀ value scope, Holds value scope (columnsFor o.hidden.length results) →
        List.Forall₂ (StandsFor value scope) derived
          (results.filter fun result => !isNative result.2) := by
  induction results generalizing o with
  | nil =>
    obtain rfl := Except.ok.inj h
    exact ⟨0, [], .refl o, fun _ _ _ => .nil⟩
  | cons result results ih =>
    obtain ⟨name, e⟩ := result
    obtain ⟨o₁, hfirst, h⟩ := Except.bind_eq_ok.1 h
    obtain ⟨hidden, derived, hadds', heval'⟩ := ih h
    rw [columnsFor]
    obtain ⟨hnative, hadds⟩ | ⟨hnative, e', hadds, heval⟩ := addApply_adds hfirst
    · rw [hadds.hidden] at hadds' heval'
      rw [if_pos hnative]
      refine ⟨_, _, hadds.trans hadds', fun value scope hholds => ?_⟩
      rw [List.filter_cons_of_neg (by simp [hnative])]
      exact heval' value scope (List.forall_mem_cons.1 hholds).2
    · rw [hadds.hidden] at hadds' heval'
      rw [if_neg (by simp [hnative])]
      refine ⟨_, _, hadds.trans hadds', fun value scope hholds => ?_⟩
      obtain ⟨hfirst, hlast⟩ := holds_append.1 hholds
      rw [List.filter_cons_of_pos (by simp [hnative])]
      exact .cons ⟨rfl, heval value scope hfirst⟩ (heval' value scope hlast)

/-- **Hoisting aggregates is sound.** For any sequence of results, the native columns are those of
the aggregates that they are generated for. In every row in which each of them holds the value of
its aggregate, whatever the rows around it, each derived value is evaluated like the expression of
its result, with the values of aggregates and quotients of averages in their place. -/
theorem evaluate_derived {results : List (String × Expression)} {o : Outputs}
    (h : results.foldlM (fun o result => o.addApply x dataName result.1 result.2) Outputs.none =
      .ok o) :
    List.Forall₂ (fun column a => Aggregate.toNative x dataName column.1 column.2 = .ok a)
        (columnsFor 0 results) o.aggregators ∧
      ∀ (value : Expression → Value) (row : Row) (scope : Scope),
        (∀ column ∈ columnsFor 0 results, row.get? column.1 = some (value column.2)) →
        List.Forall₂ (StandsFor value (row :: scope)) o.derived
          (results.filter fun result => !isNative result.2) := by
  obtain ⟨hidden, derived, ⟨⟨added, hadded, hcolumns⟩, -, hderived⟩, heval⟩ := addApplies_adds h
  obtain rfl : o.aggregators = added := hadded
  obtain rfl : o.derived = derived := hderived
  exact ⟨hcolumns, fun value row scope hrow => heval value (row :: scope) (holds_of_row hrow scope)⟩

/-- The names of native columns are hidden or those of results that the backend computes. -/
theorem of_mem_columnsFor {results : List (String × Expression)} {first : Nat}
    {column : String × Expression} (h : column ∈ columnsFor first results) :
    IsHiddenName column.1 ∨ column ∈ results ∧ isNative column.2 := by
  induction results generalizing first with
  | nil => exact absurd h List.not_mem_nil
  | cons result results ih =>
    obtain ⟨name, e⟩ := result
    have hrest {first : Nat} (h : column ∈ columnsFor first results) :=
      (ih h).imp_right fun h => And.intro (List.mem_cons_of_mem (name, e) h.1) h.2
    rw [columnsFor] at h
    split at h
    · next hnative =>
      obtain rfl | h := List.mem_cons.1 h
      · exact .inr ⟨List.mem_cons_self, hnative⟩
      · exact hrest h
    · obtain h | h := List.mem_append.1 h
      · obtain ⟨⟨e, n⟩, -, rfl⟩ := List.mem_map.1 h
        exact .inl (isHiddenName_hiddenName n)
      · exact hrest h

end Outputs

/-! ### Rows with derived values -/

/-- **Rows with hoisted aggregates.** If results have different names, none of them like those of
hidden columns, then the derived values are written into the row of native columns as if the
expressions of the results were evaluated one after the other, with the values of aggregates in
their place. -/
theorem Row.derive_outputs {x : External} {dataName : String}
    {results : List (String × Expression)} {o : Outputs}
    (h : results.foldlM (fun o result => o.addApply x dataName result.1 result.2) Outputs.none =
      .ok o) (hnames : (results.map Prod.fst).Nodup)
    (hvisible : ∀ result ∈ results, ¬IsHiddenName result.1) (value : Expression → Value) (row : Row)
    (scope : Scope)
    (hrow : ∀ column ∈ Outputs.columnsFor 0 results, row.get? column.1 = some (value column.2)) :
    row.derive scope o.derived = row.derive scope
      ((results.filter fun result => !Outputs.isNative result.2).map fun result =>
        (result.1, result.2.substitute value)) := by
  obtain ⟨hidden, derived, hadds, heval⟩ := Outputs.addApplies_adds h
  obtain rfl : o.derived = derived := hadds.derived
  have heval (row : Row)
      (hrow : ∀ column ∈ Outputs.columnsFor 0 results, row.get? column.1 = some (value column.2)) :=
    heval value (row :: scope) (Outputs.holds_of_row hrow scope)
  refine derive_congr (P := fun row => ∀ column ∈ Outputs.columnsFor 0 results,
    row.get? column.1 = some (value column.2)) hrow ?_ fun row hrow => ?_
  · intro row v hrow name hname column hcolumn
    have hne : column.1 ≠ name := by
      rintro rfl
      rw [Outputs.names_of_standsFor (heval row hrow)] at hname
      obtain ⟨result, hresult, hsame⟩ := List.mem_map.1 hname
      obtain ⟨hmem, hderived⟩ := List.mem_filter.1 hresult
      obtain hhidden | ⟨hcolumn, hnative⟩ := Outputs.of_mem_columnsFor hcolumn
      · exact hvisible result hmem (hsame ▸ hhidden)
      · rw [List.inj_on_of_nodup_map hnames hmem hcolumn hsame, hnative] at hderived
        exact nomatch hderived
    rw [get?_put_of_ne row v hne, hrow column hcolumn]
  · rw [List.forall₂_map_right_iff]
    exact heval row hrow

namespace Sample

/-- The sum of added characters. -/
def addedSum : Expression := .binary (.measure .sum) (.ref "edits") (.ref "added")

/-- By how much the average of added characters is above half of their sum. -/
def averageAboveHalf : Expression :=
  .binary (.arithmetic .subtract) (.binary (.measure .average) (.ref "edits") (.ref "added"))
    (.binary (.arithmetic .divide) addedSum (.literal (.number 2)))

/-- The number of edits, and a value over an average and a sum. -/
def countAndAverage : List (String × Expression) :=
  [("Edits", .count (.ref "edits")), ("Above", averageAboveHalf)]

/-- Two edits have added six characters. -/
def twoEdits : Expression → Value
  | .count _ => .number 2
  | _ => .number 6

/-- The row with the native columns. -/
def twoEditsRow : Row :=
  [("!T_0", .number 6), ("!T_1", .number 2), ("!T_2", .number 6), ("Edits", .number 2)]

end Sample

open Sample in
/-- The average and the sum are read from three hidden columns. -/
theorem Outputs.evaluate_derived_countAndAverage :
    ∃ o, countAndAverage.foldlM
        (fun o result => o.addApply edits "edits" result.1 result.2) Outputs.none = .ok o ∧
      o.aggregators.map Native.Aggregator.name = ["Edits", "!T_0", "!T_1", "!T_2"] ∧
      (∀ column ∈ columnsFor 0 countAndAverage,
        twoEditsRow.get? column.1 = some (twoEdits column.2)) ∧
      ∀ scope, List.Forall₂ (StandsFor twoEdits (twoEditsRow :: scope)) o.derived
        [("Above", averageAboveHalf)] := by
  obtain ⟨o, ho, hnames⟩ : ∃ o, countAndAverage.foldlM
      (fun o result => o.addApply edits "edits" result.1 result.2) Outputs.none = .ok o ∧
        o.aggregators.map Native.Aggregator.name = ["Edits", "!T_0", "!T_1", "!T_2"] :=
    ⟨_, rfl, rfl⟩
  have hrow : ∀ column ∈ columnsFor 0 countAndAverage,
      twoEditsRow.get? column.1 = some (twoEdits column.2) := by
    rw [show columnsFor 0 countAndAverage = [("Edits", .count (.ref "edits")), ("!T_0", addedSum),
      ("!T_1", .count (.ref "edits")), ("!T_2", addedSum)] from rfl]
    simp only [List.forall_mem_cons]
    exact ⟨rfl, rfl, rfl, rfl, nofun⟩
  exact ⟨o, ho, hnames, hrow, fun scope =>
    (Outputs.evaluate_derived ho).2 twoEdits twoEditsRow scope hrow⟩

end FederatedQuery
