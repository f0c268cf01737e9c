import FederatedQuery.Execution.Computation
import FederatedQuery.Proofs.Measures

/-!
# Columns that documents and answers agree on

While the results of a pattern are compiled, several lists grow: the aggregators that the document
asks for, the native columns that are read from an answer, and the hidden ones among them, which are
dropped in the end. A result that the backend does not compute adds a value that is derived from
hidden columns. The backend, the reading of its answer and the derived values know each other's
columns by nothing but their names.

The lists grow in step, one aggregate at a time, however deep it lies in an expression, and a value
is derived once all of its hidden columns are there. So the names in the document are those that are
read from the answer. Hidden columns and derived values belong together as well: every hidden column
is read by a derived value, and a derived value that reads a name of this kind finds its column.

## Main definitions

* `Json.aggregatorNames?`: the names of the aggregators in a native document.
* `Expression.TakesNames`: an expression that has taken some names in.
* `Outputs.InStep`: outputs whose lists have grown in step.
* `Outputs.ReadsHidden`: derived values that read the hidden columns.

## Main results

* `Native.Query.aggregatorNames?_toJson`: the names in the document of a query.
* `Expression.takesNames_of_fill`: the names in an expression whose aggregates have been replaced.
* `Outputs.InStep.hoist`: the lists stay in step with the aggregates of an expression.
* `Outputs.InStep.addApply`, `Outputs.ReadsHidden.addApply`: one more result.
* `Pattern.columns_agree`: the columns of a compiled pattern.
-/

namespace FederatedQuery

open Native

/-! ### Names in documents -/

namespace Json

/-- The name of an aggregator in a native document. One with a filter has the name of the aggregator
within. -/
def aggregatorName? (a : Json) : Option String :=
  if a.textAt? "type" = some "filtered" then (a.get? "aggregator").bind (textAt? · "name")
  else a.textAt? "name"

/-- The names of the aggregators in a native document, in order. -/
def aggregatorNames? (document : Json) : Option (List String) :=
  ((document.get? "aggregations").bind items?).bind (List.mapM aggregatorName?)

end Json

/-- An aggregator is found in a document under its name. -/
theorem Native.Aggregator.aggregatorName?_toJson (a : Aggregator) :
    a.toJson.aggregatorName? = some a.name := by
  obtain ⟨name, aggregation, filter⟩ := a
  cases filter with
  | some filter => rfl
  | none => cases aggregation <;> rfl

/-- The document of a query has the names of its aggregators, in order. -/
theorem Native.Query.aggregatorNames?_toJson {q : Query} {aggregators : List Aggregator}
    (h : q.shape.Aggregates aggregators) :
    q.toJson.aggregatorNames? = some (aggregators.map Aggregator.name) := by
  have hnames : (aggregators.map Aggregator.toJson).mapM Json.aggregatorName? =
      some (aggregators.map Aggregator.name) := by
    clear h
    induction aggregators with
    | nil => rfl
    | cons a aggregators ih =>
      rw [List.map_cons, List.mapM_cons, a.aggregatorName?_toJson, ih]
      rfl
  rw [Json.aggregatorNames?, get?_aggregations h]
  exact hnames

/-! ### Names in derived values -/

namespace Expression

theorem names_binary (op : Operator) (a b : Expression) :
    (binary op a b).names = a.names ++ b.names := by
  rw [names, nodes, List.filterMap_cons_none rfl, List.filterMap_append]
  rfl

/-- An expression has taken names in: it has them, and otherwise those of the expression before. -/
structure TakesNames (e e' : Expression) (taken : List String) : Prop where
  subset : taken ⊆ e'.names
  names_subset : e'.names ⊆ e.names ++ taken

theorem TakesNames.refl (e : Expression) : TakesNames e e [] :=
  ⟨List.nil_subset _, List.subset_append_left _ _⟩

/-- An expression gives way to a part. -/
theorem TakesNames.part (e part : Expression) : TakesNames e part part.names :=
  ⟨List.Subset.refl _, List.subset_append_right _ _⟩

theorem TakesNames.not {a a' : Expression} {taken : List String} (h : TakesNames a a' taken) :
    TakesNames (.not a) (.not a') taken :=
  ⟨h.subset, h.names_subset⟩

theorem TakesNames.binary {a b a' b' : Expression} {taken taken' : List String}
    (ha : TakesNames a a' taken) (hb : TakesNames b b' taken') (op op' : Operator) :
    TakesNames (.binary op a b) (.binary op' a' b') (taken ++ taken') := by
  refine ⟨?_, fun name hname => ?_⟩
  · rw [names_binary]
    exact List.append_subset.2 ⟨List.subset_append_of_subset_left _ ha.subset,
      List.subset_append_of_subset_right _ hb.subset⟩
  · rw [names_binary, List.mem_append] at hname
    have hleft (h : name ∈ a'.names) := List.mem_append.1 (ha.names_subset h)
    have hright (h : name ∈ b'.names) := List.mem_append.1 (hb.names_subset h)
    simp only [names_binary, List.mem_append]
    tauto

/-- The part that stands for an aggregate. -/
theorem takesNames_of_takePart (e : Expression) {filled : Expression} {parts rest : List Expression}
    (h : takePart parts = some (filled, rest)) :
    ∃ taken, parts = taken ++ rest ∧ TakesNames e filled (taken.flatMap names) :=
  ⟨[filled], takePart_eq_some.1 h, List.flatMap_singleton names filled ▸ .part e filled⟩

/-- **Names in replaced aggregates.** An expression whose aggregates have been replaced has taken in
the names in the parts that stand for them. -/
theorem takesNames_of_fill {e filled : Expression} {parts rest : List Expression}
    (h : e.fill parts = some (filled, rest)) :
    ∃ taken, parts = taken ++ rest ∧ TakesNames e filled (taken.flatMap names) := by
  induction e generalizing parts rest filled with
  | count a => exact takesNames_of_takePart _ h
  | not a ih =>
    obtain ⟨a', ha, rfl⟩ := fill_not_eq_some.1 h
    obtain ⟨taken, hparts, hnames⟩ := ih ha
    exact ⟨taken, hparts, hnames.not⟩
  | binary op a b iha ihb =>
    by_cases hroot : (binary op a b).isAggregate
    · cases op with
      | measure m =>
        cases m with
        | average =>
          obtain ⟨sum, number, rfl, rfl⟩ := takeQuotient_eq_some.1 h
          have hnames := (TakesNames.part a sum).binary (.part b number) (.measure .average)
            (.arithmetic .divide)
          refine ⟨[sum, number], rfl, ?_⟩
          rwa [List.flatMap_cons, List.flatMap_singleton]
        | _ => exact takesNames_of_takePart _ h
      | _ => exact absurd hroot Bool.false_ne_true
    · rw [Bool.not_eq_true] at hroot
      obtain ⟨a', middle, b', ha, hb, rfl⟩ := (fill_binary_eq_some hroot).1 h
      obtain ⟨taken, rfl, hnames⟩ := iha ha
      obtain ⟨taken', rfl, hnames'⟩ := ihb hb
      refine ⟨taken ++ taken', (List.append_assoc _ _ _).symm, ?_⟩
      rw [List.flatMap_append]
      exact hnames.binary hnames' op op
  | _ =>
    obtain ⟨⟩ := h
    exact ⟨[], rfl, .refl _⟩

/-- References that stand for the aggregates of an expression are the names that it has taken
in. -/
theorem takesNames_of_fill_refs {e filled : Expression} {columns : List String}
    (h : e.fill (columns.map .ref) = some (filled, [])) : TakesNames e filled columns := by
  obtain ⟨taken, htaken, hnames⟩ := takesNames_of_fill h
  rw [List.append_nil] at htaken
  rwa [← htaken, List.flatMap_map, show (fun column => (ref column).names) = fun n => [n] from rfl,
    List.flatMap_singleton'] at hnames

end Expression

/-! ### Outputs -/

namespace Outputs

variable {x : External} {dataName : String}

/-- The lists of outputs have grown in step: there is an aggregator under the name of every native
column, in their order, and the hidden columns are some of these, in the same order. -/
structure InStep (o : Outputs) : Prop where
  columns : o.aggregators.map Aggregator.name = o.columns
  hidden : o.hidden.Sublist o.columns

theorem InStep.none : Outputs.none.InStep := ⟨rfl, .slnil⟩

theorem InStep.addAggregate {o o' : Outputs} {name : String} {e : Expression} (h : o.InStep)
    (hadded : o.addAggregate x dataName name e = .ok o') : o'.InStep := by
  obtain ⟨a, ha, ⟨⟩⟩ := Except.bind_eq_ok.1 hadded
  refine ⟨?_, h.hidden.trans (List.sublist_append_left _ _)⟩
  rw [List.map_append, List.map_singleton, h.columns, Aggregate.name_of_toNative ha]

theorem InStep.addHidden {o o' : Outputs} {e e' : Expression} (h : o.InStep)
    (hadded : o.addHidden x dataName e = .ok (e', o')) : o'.InStep := by
  obtain ⟨added, haggregate, ⟨⟩⟩ := Except.bind_eq_ok.1 hadded
  obtain ⟨hcolumns, hhidden, -⟩ := addAggregate_eq_ok haggregate
  refine ⟨(h.addAggregate haggregate).columns, ?_⟩
  rw [hcolumns, hhidden]
  exact h.hidden.append (List.Sublist.refl _)

/-- **The lists stay in step**, whichever aggregates an expression has, and however deep they lie
in it. -/
theorem InStep.hoist {o o' : Outputs} {e e' : Expression} (h : o.InStep)
    (hhoist : o.hoist x dataName e = .ok (e', o')) : o'.InStep := by
  induction e generalizing o e' o' with
  | literal | ref =>
    cases hhoist
    exact h
  | count rows => exact h.addHidden hhoist
  | binary op a b iha ihb =>
    cases op with
    | arithmetic op =>
      obtain ⟨⟨a', o₁⟩, ha, hhoist⟩ := Except.bind_eq_ok.1 hhoist
      obtain ⟨⟨b', o₂⟩, hb, ⟨⟩⟩ := Except.bind_eq_ok.1 hhoist
      exact ihb (iha h ha) hb
    | measure m =>
      cases m with
      | average =>
        obtain ⟨⟨sum, o₁⟩, hsum, hhoist⟩ := Except.bind_eq_ok.1 hhoist
        obtain ⟨⟨count, o₂⟩, hcount, ⟨⟩⟩ := Except.bind_eq_ok.1 hhoist
        exact (h.addHidden hsum).addHidden hcount
      | _ => exact h.addHidden hhoist
    | _ => exact nomatch hhoist
  | _ => exact nomatch hhoist

/-- The lists stay in step with one more result. -/
theorem InStep.addApply {o o' : Outputs} {name : String} {e : Expression} (h : o.InStep)
    (hadded : o.addApply x dataName name e = .ok o') : o'.InStep := by
  unfold Outputs.addApply at hadded
  split at hadded
  · exact h.addAggregate hadded
  · split at hadded
    · obtain ⟨⟨e', o₁⟩, hhoist, ⟨⟩⟩ := Except.bind_eq_ok.1 hadded
      have hstep := h.hoist hhoist
      exact ⟨hstep.columns, hstep.hidden⟩
    · cases hadded
      exact ⟨h.columns, h.hidden⟩

/-- The derived values of results read the hidden columns: each of these is read by one of them, and
what else they read stands in the results. -/
structure ReadsHidden (o : Outputs) (results : List (String × Expression)) : Prop where
  read : ∀ name ∈ o.hidden, ∃ value ∈ o.derived, name ∈ value.2.names
  known : ∀ value ∈ o.derived, ∀ name ∈ value.2.names,
    name ∈ o.hidden ∨ ∃ result ∈ results, name ∈ result.2.names

/-- The hidden columns are read with one more result as well. -/
theorem ReadsHidden.addApply {o o' : Outputs} {results : List (String × Expression)} {name : String}
    {e : Expression} (h : o.ReadsHidden results)
    (hadded : o.addApply x dataName name e = .ok o') : o'.ReadsHidden (results ++ [(name, e)]) := by
  have hstands {n : String} (hn : ∃ result ∈ results, n ∈ result.2.names) :
      ∃ result ∈ results ++ [(name, e)], n ∈ result.2.names :=
    hn.imp fun _ => And.imp_left (List.mem_append_left _)
  obtain ⟨-, -, hhidden, hderived⟩ | ⟨columns, e', hhides, hfill, hderived⟩ := addApply_eq_ok hadded
  · refine ⟨fun n hn => ?_, fun value hvalue n hn => ?_⟩
    · rw [hderived]
      exact h.read n (hhidden ▸ hn)
    · rw [hhidden]
      exact (h.known value (hderived ▸ hvalue) n hn).imp_right hstands
  · have hhidden : o'.hidden = o.hidden ++ columns := hhides.hidden
    have hnames := Expression.takesNames_of_fill_refs hfill
    refine ⟨fun n hn => ?_, fun value hvalue n hn => ?_⟩
    · rw [hhidden, List.mem_append] at hn
      rw [hderived]
      obtain hn | hn := hn
      · exact (h.read n hn).imp fun _ => And.imp_left (List.mem_append_left _)
      · exact ⟨(name, e'), List.mem_append_right _ (List.mem_singleton_self _), hnames.subset hn⟩
    · rw [hderived, List.mem_append, List.mem_singleton] at hvalue
      rw [hhidden, List.mem_append]
      obtain hvalue | rfl := hvalue
      · exact (h.known value hvalue n hn).imp .inl hstands
      · obtain hn | hn := List.mem_append.1 (hnames.names_subset hn)
        · exact .inr ⟨(name, e), List.mem_append_right _ (List.mem_singleton_self _), hn⟩
        · exact .inl (.inr hn)

/-- Hidden columns have different names. -/
theorem hiddenName_injective : Function.Injective hiddenName := by
  intro n m h
  have htext : toString n = toString m := (String.append_right_inj _).1 h
  have hdigits : Nat.toDigits 10 n = Nat.toDigits 10 m := by
    simpa using congrArg String.toList htext
  rw [← Nat.ofDigitChars_ten_toDigits (n := n), hdigits, Nat.ofDigitChars_ten_toDigits]

end Outputs

/-! ### Patterns -/

namespace Pattern

/-- The outputs of a pattern have grown in step, and their hidden columns are read. -/
theorem inStep_outputs {p : Pattern} {o : Outputs} (h : p.outputs = .ok o) :
    o.InStep ∧ o.ReadsHidden p.values := by
  rw [outputs_eq_values] at h
  refine Except.foldlM_induction (motive := fun done o => o.InStep ∧ o.ReadsHidden done) h
    ⟨.none, nofun, nofun⟩ fun done result o o' hdone hadded => ?_
  exact ⟨hdone.1.addApply hadded, hdone.2.addApply hadded⟩

/-- **The columns agree.** The names of the aggregators in the document of a pattern of totals or
groups are, in order, the columns that are read from the answer. The hidden ones are some of them,
in the same order, and are numbered without gaps. Each hidden column is read by a derived value; and
unless a result refers to a name of this kind itself, derived values read no such names but those of
hidden columns. -/
theorem columns_agree {p : Pattern} {limits : Limits} {c : Compiled} (h : p.compile limits = .ok c)
    (hshape : p.split.isSome ∨ p.applies ≠ []) :
    c.query.toJson.aggregatorNames? = some c.columns ∧
      c.finish.hidden.Sublist c.columns ∧ c.finish.hidden.Nodup ∧
      c.finish.hidden = (List.range c.finish.hidden.length).map Outputs.hiddenName ∧
      (∀ name ∈ c.finish.hidden, ∃ value ∈ c.finish.derived, name ∈ value.2.names) ∧
      ((∀ result ∈ p.values, ∀ name ∈ result.2.names, ¬IsHiddenName name) →
        ∀ value ∈ c.finish.derived, ∀ name ∈ value.2.names, IsHiddenName name →
          name ∈ c.finish.hidden) := by
  obtain ⟨o, hcolumnar⟩ := columnar_of_compile h hshape
  obtain ⟨o', ho', haggregates⟩ := aggregates_of_compile h hshape
  obtain rfl : o = o' := Except.ok.inj (hcolumnar.outputs.symm.trans ho')
  obtain ⟨hstep, hreads⟩ := inStep_outputs ho'
  have hnumbered := (lists_outputs ho').hidden
  rw [hcolumnar.columns, hcolumnar.hidden, hcolumnar.derived,
    Native.Query.aggregatorNames?_toJson haggregates, hstep.columns]
  refine ⟨rfl, hstep.hidden, ?_, hnumbered, hreads.read, ?_⟩
  · rw [hnumbered]
    exact List.nodup_range.map Outputs.hiddenName_injective
  · intro hvisible value hvalue name hname hkind
    obtain hhidden | ⟨result, hresult, hname⟩ := hreads.known value hvalue name hname
    · exact hhidden
    · exact absurd hkind (hvisible result hresult name hname)

open Sample in
/-- The average of a share has a sum and a number of its own; no reference has the name of a hidden
column. -/
theorem columns_agree_mergedEdits : ∃ c, mergedTotals.compile .standard = .ok c ∧
    mergedTotals.applies ≠ [] ∧
    (∀ result ∈ mergedTotals.values, ∀ name ∈ result.2.names, ¬IsHiddenName name) ∧
    c.query.toJson.aggregatorNames? = some ["Edits", "!T_0", "!T_1", "!T_2"] ∧
    c.finish.hidden = ["!T_0", "!T_1", "!T_2"] ∧
    ∀ value ∈ c.finish.derived, ∀ name ∈ value.2.names, IsHiddenName name →
      name ∈ c.finish.hidden := by
  obtain ⟨c, hc, hcolumns⟩ : ∃ c, mergedTotals.compile .standard = .ok c ∧
      c.columns = ["Edits", "!T_0", "!T_1", "!T_2"] ∧
        c.finish.hidden = ["!T_0", "!T_1", "!T_2"] := ⟨_, rfl, rfl, rfl⟩
  have happlies : mergedTotals.applies ≠ [] := nofun
  have hvisible : ∀ result ∈ mergedTotals.values, ∀ name ∈ result.2.names,
      ¬IsHiddenName name := by
    decide
  obtain ⟨hnames, -, -, -, -, hread⟩ := columns_agree hc (.inr happlies)
  exact ⟨c, hc, happlies, hvisible, hcolumns.1 ▸ hnames, hcolumns.2, hread hvisible⟩

end Pattern

end FederatedQuery
