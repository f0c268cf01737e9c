import FederatedQuery.Execution.Finish
import FederatedQuery.Proofs.Compilation

/-!
# The outputs of a pattern

The outputs of a pattern are its native columns and its derived values. An aggregate that the
backend computes is a native column under its own name. An expression that computes with
aggregates is derived from hidden columns: each of its aggregates is replaced, in order, by a
reference to a new hidden column, and an average by the quotient of two of them.

If the results have different names, no native column that stays is overwritten by a derived
value, and a row that is finished still has the cells that are neither derived nor hidden.

## Main definitions

* `IsHiddenName`: the names that begin like those of hidden columns.
* `Expression.fill`: an expression with its aggregates replaced.
* `Outputs.Hides`: outputs with more hidden columns.
* `Outputs.Named`: outputs for results of given names.

## Main results

* `Outputs.hoist_eq_ok`, `Outputs.addApply_eq_ok`: what one more result adds to the outputs.
* `Pattern.named_outputs`: the names of the outputs of a pattern.
-/

namespace FederatedQuery

/-- A name begins like those of hidden columns. -/
def IsHiddenName (name : String) : Prop := "!T_".toList <+: name.toList

instance (name : String) : Decidable (IsHiddenName name) :=
  inferInstanceAs (Decidable ("!T_".toList <+: name.toList))

theorem isHiddenName_hiddenName (n : Nat) : IsHiddenName (Outputs.hiddenName n) := by
  rw [IsHiddenName, Outputs.hiddenName, String.toList_append]
  exact List.prefix_append _ _

/-! ### Aggregates replaced -/

namespace Expression

/-- The first of several parts, and the others. -/
def takePart : List Expression → Option (Expression × List Expression)
  | part :: rest => some (part, rest)
  | [] => none

/-- The quotient of the first two of several parts, and the others. -/
def takeQuotient : List Expression → Option (Expression × List Expression)
  | sum :: number :: rest => some (.binary (.arithmetic .divide) sum number, rest)
  | _ => none

/-- The expression with its aggregates replaced by the given parts, in order, and the parts that
are left. An average takes two of them, for the sum and the number of rows. -/
def fill : Expression → List Expression → Option (Expression × List Expression)
  | .count _, parts => takePart parts
  | .not a, parts => (a.fill parts).map fun (a, rest) => (.not a, rest)
  | .binary op a b, parts =>
    match op with
    | .measure .average => takeQuotient parts
    | .measure _ => takePart parts
    | op => do
      let (a, parts) ← a.fill parts
      let (b, parts) ← b.fill parts
      some (.binary op a b, parts)
  | e, parts => some (e, parts)

/-- An aggregate that the backend computes as it is takes one part. -/
theorem fill_of_isNative {e : Expression} (h : Outputs.isNative e) (parts : List Expression) :
    e.fill parts = takePart parts := by
  cases e with
  | count => rfl
  | binary op a b =>
    cases op with
    | measure m =>
      cases m with
      | average => exact nomatch h
      | _ => rfl
    | _ => exact nomatch h
  | _ => exact nomatch h

/-- The parts go to the operands of a binary operation in order, unless it is an aggregate. -/
theorem fill_binary {op : Operator} {a b : Expression} (h : (binary op a b).isAggregate = false)
    (parts : List Expression) :
    (binary op a b).fill parts =
      (a.fill parts).bind fun p => (b.fill p.2).bind fun q => some (binary op p.1 q.1, q.2) := by
  cases op with
  | measure m => exact nomatch h
  | _ => rfl

/-- Whether a node of a binary operation is an aggregate depends on the operation and the
parts. -/
theorem hasAggregate_binary (op : Operator) (a b : Expression) :
    (binary op a b).hasAggregate =
      ((binary op a b).isAggregate || (a.hasAggregate || b.hasAggregate)) := by
  rw [hasAggregate, nodes, List.any_cons, List.any_append]
  rfl

theorem hasAggregate_not (a : Expression) : (Expression.not a).hasAggregate = a.hasAggregate := by
  rw [hasAggregate, nodes, List.any_cons]
  rfl

/-- An expression without aggregates takes no parts. -/
theorem fill_of_not_hasAggregate {e : Expression} (h : e.hasAggregate = false)
    (parts : List Expression) : e.fill parts = some (e, parts) := by
  induction e generalizing parts with
  | count a =>
    rw [hasAggregate, nodes, List.any_cons] at h
    cases h
  | not a ih => rw [fill, ih (hasAggregate_not a ▸ h), Option.map_some]
  | binary op a b iha ihb =>
    rw [hasAggregate_binary, Bool.or_eq_false_iff, Bool.or_eq_false_iff] at h
    obtain ⟨hroot, ha, hb⟩ := h
    rw [fill_binary hroot, iha ha, Option.bind_some, ihb hb, Option.bind_some]
  | _ => rfl

end Expression

/-! ### Outputs -/

namespace Outputs

variable {x : External} {dataName : String}

/-- One more aggregate is one more native column of the given name. -/
theorem addAggregate_eq_ok {o o' : Outputs} {name : String} {e : Expression}
    (h : o.addAggregate x dataName name e = .ok o') :
    o'.columns = o.columns ++ [name] ∧ o'.hidden = o.hidden ∧ o'.derived = o.derived := by
  obtain ⟨a, -, ⟨⟩⟩ := Except.bind_eq_ok.1 h
  exact ⟨rfl, rfl, rfl⟩

/-- Outputs differ from others only by more hidden columns, which have the given names. Hidden
columns are numbered. -/
structure Hides (o o' : Outputs) (names : List String) : Prop where
  columns : o'.columns = o.columns ++ names
  hidden : o'.hidden = o.hidden ++ names
  derived : o'.derived = o.derived
  numbered : names = (List.range' o.hidden.length names.length).map hiddenName

theorem Hides.refl (o : Outputs) : Hides o o [] :=
  ⟨(List.append_nil _).symm, (List.append_nil _).symm, rfl, rfl⟩

theorem Hides.trans {o o' o'' : Outputs} {names names' : List String} (h : Hides o o' names)
    (h' : Hides o' o'' names') : Hides o o'' (names ++ names') where
  columns := by rw [h'.columns, h.columns, List.append_assoc]
  hidden := by rw [h'.hidden, h.hidden, List.append_assoc]
  derived := h'.derived.trans h.derived
  numbered := by
    have hlater := h'.numbered
    rw [h.hidden, List.length_append] at hlater
    rw [List.length_append, ← List.range'_append_1, List.map_append, ← h.numbered, ← hlater]

theorem Hides.isHiddenName {o o' : Outputs} {names : List String} (h : Hides o o' names)
    (name : String) (hmem : name ∈ names) : IsHiddenName name := by
  rw [h.numbered] at hmem
  obtain ⟨n, -, rfl⟩ := List.mem_map.1 hmem
  exact isHiddenName_hiddenName n

/-- One more hidden column, and a reference to it. -/
theorem addHidden_eq_ok {o o' : Outputs} {e e' : Expression}
    (h : o.addHidden x dataName e = .ok (e', o')) :
    ∃ name, e' = .ref name ∧ Hides o o' [name] := by
  obtain ⟨added, hadded, ⟨⟩⟩ := Except.bind_eq_ok.1 h
  obtain ⟨hcolumns, hhidden, hderived⟩ := addAggregate_eq_ok hadded
  exact ⟨_, rfl, hcolumns, congrArg (· ++ [_]) hhidden, hderived, rfl⟩

/-- **Hoisting** replaces the aggregates of an expression by references to new hidden columns, in
order. -/
theorem hoist_eq_ok {e e' : Expression} {o o' : Outputs}
    (h : o.hoist x dataName e = .ok (e', o')) :
    ∃ names, Hides o o' names ∧
      ∀ rest, e.fill (names.map .ref ++ rest) = some (e', rest) := by
  induction e generalizing o e' o' with
  | literal value =>
    cases h
    exact ⟨[], .refl o, fun rest => rfl⟩
  | ref name =>
    cases h
    exact ⟨[], .refl o, fun rest => rfl⟩
  | count a =>
    obtain ⟨name, rfl, hhides⟩ := addHidden_eq_ok h
    exact ⟨[name], hhides, fun rest => rfl⟩
  | binary op a b iha ihb =>
    cases op with
    | arithmetic op =>
      obtain ⟨⟨a', o₁⟩, ha, h⟩ := Except.bind_eq_ok.1 h
      obtain ⟨⟨b', o₂⟩, hb, ⟨⟩⟩ := Except.bind_eq_ok.1 h
      obtain ⟨names, hhides, hfill⟩ := iha ha
      obtain ⟨names', hhides', hfill'⟩ := ihb hb
      refine ⟨names ++ names', hhides.trans hhides', fun rest => ?_⟩
      rw [Expression.fill_binary rfl, List.map_append, List.append_assoc, hfill, Option.bind_some,
        hfill', Option.bind_some]
    | measure m =>
      cases m with
      | average =>
        obtain ⟨⟨sum, o₁⟩, hsum, h⟩ := Except.bind_eq_ok.1 h
        obtain ⟨⟨count, o₂⟩, hcount, ⟨⟩⟩ := Except.bind_eq_ok.1 h
        obtain ⟨name, rfl, hhides⟩ := addHidden_eq_ok hsum
        obtain ⟨name', rfl, hhides'⟩ := addHidden_eq_ok hcount
        exact ⟨[name] ++ [name'], hhides.trans hhides', fun rest => rfl⟩
      | _ =>
        obtain ⟨name, rfl, hhides⟩ := addHidden_eq_ok h
        exact ⟨[name], hhides, fun rest => rfl⟩
    | _ => exact nomatch h
  | _ => exact nomatch h

/-- What one more result adds to the outputs. Either it is a native column of its own name, or
it is derived from new hidden columns that stand for its aggregates. -/
theorem addApply_eq_ok {o o' : Outputs} {name : String} {e : Expression}
    (h : o.addApply x dataName name e = .ok o') :
    (isNative e ∧ o'.columns = o.columns ++ [name] ∧ o'.hidden = o.hidden ∧
        o'.derived = o.derived) ∨
      ∃ names e', Hides o { o' with derived := o.derived } names ∧
        e.fill (names.map .ref) = some (e', []) ∧ o'.derived = o.derived ++ [(name, e')] := by
  unfold addApply at h
  split at h
  · next hnative => exact .inl ⟨hnative, addAggregate_eq_ok h⟩
  · split at h
    · obtain ⟨⟨e', added⟩, hhoist, ⟨⟩⟩ := Except.bind_eq_ok.1 h
      obtain ⟨names, hhides, hfill⟩ := hoist_eq_ok hhoist
      refine .inr ⟨names, e', ⟨hhides.columns, hhides.hidden, rfl, hhides.numbered⟩, ?_, ?_⟩
      · rw [← List.append_nil (names.map _), hfill]
      · exact congrArg (· ++ [(name, e')]) hhides.derived
    · next haggregate =>
      cases h
      rw [Bool.not_eq_true] at haggregate
      exact .inr ⟨[], e, .refl o, Expression.fill_of_not_hasAggregate haggregate [], rfl⟩

/-! ### Names -/

/-- Outputs are for results of the given names: only names of results and hidden names
occur, and no derived value has the name of a native column that stays. -/
structure Named (o : Outputs) (names : List String) : Prop where
  hidden : ∀ name ∈ o.hidden, IsHiddenName name
  columns : ∀ name ∈ o.columns, name ∈ o.hidden ∨ name ∈ names ∧ name ∉ o.derived.map Prod.fst
  derived : ∀ name ∈ o.derived.map Prod.fst, name ∈ names

/-- Outputs stay well named with one more result of a new name. -/
theorem Named.addApply {o o' : Outputs} {names : List String} {name : String} {e : Expression}
    (hnamed : o.Named names) (hname : name ∉ names)
    (h : o.addApply x dataName name e = .ok o') : o'.Named (names ++ [name]) := by
  have hderived : name ∉ o.derived.map Prod.fst := fun hmem => hname (hnamed.derived name hmem)
  obtain ⟨-, hcolumns, hhidden, hsame⟩ | ⟨new, e', hhides, -, hnew⟩ := addApply_eq_ok h
  · refine ⟨fun n hn => hnamed.hidden n (hhidden ▸ hn), fun n hn => ?_, fun n hn => ?_⟩
    · rw [hcolumns, List.mem_append, List.mem_singleton] at hn
      rw [hhidden, hsame]
      obtain hn | rfl := hn
      · exact (hnamed.columns n hn).imp_right fun hn => ⟨List.mem_append_left _ hn.1, hn.2⟩
      · exact .inr ⟨List.mem_append_right _ (List.mem_singleton_self n), hderived⟩
    · exact List.mem_append_left _ (hnamed.derived n (hsame ▸ hn))
  · have hcolumns : o'.columns = o.columns ++ new := hhides.columns
    have hhidden : o'.hidden = o.hidden ++ new := hhides.hidden
    refine ⟨fun n hn => ?_, fun n hn => ?_, fun n hn => ?_⟩
    · rw [hhidden, List.mem_append] at hn
      exact hn.elim (hnamed.hidden n) (hhides.isHiddenName n)
    · rw [hcolumns, List.mem_append] at hn
      rw [hhidden, hnew, List.map_append, List.mem_append, List.mem_append, List.mem_append]
      obtain hn | hn := hn
      · refine (hnamed.columns n hn).imp .inl fun hn => ⟨.inl hn.1, fun hmem => ?_⟩
        obtain hmem | hmem := hmem
        · exact hn.2 hmem
        · obtain rfl : n = name := List.mem_singleton.1 hmem
          exact hname hn.1
      · exact .inl (.inr hn)
    · rw [hnew, List.map_append, List.mem_append] at hn
      rw [List.mem_append]
      exact hn.imp_left (hnamed.derived n)

/-- A native column that stays is not derived. -/
theorem Named.of_isPushed {o : Outputs} {names : List String} (hnamed : o.Named names)
    {name : String} (h : o.isPushed name) :
    name ∉ o.derived.map Prod.fst ∧ name ∉ o.hidden := by
  obtain ⟨hcolumn, hhidden⟩ := Bool.and_eq_true_iff.1 h
  have hhidden : name ∉ o.hidden := by simpa using hhidden
  obtain hmem | hmem := hnamed.columns name (List.contains_iff_mem.1 hcolumn)
  · exact absurd hmem hhidden
  · exact ⟨hmem.2, hhidden⟩

/-- Other names are neither derived nor hidden. -/
theorem Named.of_not_mem {o : Outputs} {names : List String} (hnamed : o.Named names)
    {name : String} (hname : name ∉ names) (hvisible : ¬IsHiddenName name) :
    name ∉ o.derived.map Prod.fst ∧ name ∉ o.hidden :=
  ⟨fun hmem => hname (hnamed.derived name hmem), fun hmem => hvisible (hnamed.hidden name hmem)⟩

end Outputs

namespace Pattern

/-- One more result of a pattern; a nested pattern has no outputs. -/
def addOutput (p : Pattern) (o : Outputs) (result : String × Body Pattern) :
    Except CompileError Outputs :=
  match result.2 with
  | .scalar e => o.addApply p.source.external p.dataName result.1 e
  | .nested _ => .ok o

theorem outputs_eq (p : Pattern) : p.outputs = p.applies.foldlM p.addOutput .none := rfl

/-- Outputs stay well named with one more result of a new name. -/
theorem named_addOutput {p : Pattern} {o o' : Outputs} {names : List String}
    {result : String × Body Pattern} (hnamed : o.Named names) (hname : result.1 ∉ names)
    (h : p.addOutput o result = .ok o') : o'.Named (names ++ [result.1]) := by
  obtain ⟨name, body⟩ := result
  cases body with
  | scalar e => exact hnamed.addApply hname h
  | nested pattern =>
    obtain rfl : o = o' := Except.ok.inj h
    exact ⟨hnamed.hidden, fun n hn => (hnamed.columns n hn).imp_right fun hn =>
      ⟨List.mem_append_left _ hn.1, hn.2⟩, fun n hn =>
      List.mem_append_left _ (hnamed.derived n hn)⟩

/-- **The names of the outputs.** The outputs of a pattern with results of different names are
well named. -/
theorem named_outputs {p : Pattern} {o : Outputs} (h : p.outputs = .ok o)
    (hnames : (p.applies.map Prod.fst).Nodup) : o.Named (p.applies.map Prod.fst) := by
  have hnone : Outputs.none.Named [] := ⟨nofun, nofun, nofun⟩
  revert hnames
  refine Except.foldlM_induction (motive := fun done o => (done.map Prod.fst).Nodup →
    o.Named (done.map Prod.fst)) h (fun _ => hnone) fun done result o o' hdone hadded hnames => ?_
  rw [List.map_append, List.map_singleton] at hnames ⊢
  obtain ⟨hnames, -, hnew⟩ := List.nodup_append.1 hnames
  exact named_addOutput (hdone hnames)
    (fun hmem => hnew _ hmem _ (List.mem_singleton_self result.1) rfl) hadded

end Pattern

end FederatedQuery
