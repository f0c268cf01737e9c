import FederatedQuery.Proofs.Columns
import FederatedQuery.Proofs.Filling

/-!
# References in derived values

A value that is derived for a group may refer to results before it, to the key of the group and to
names in the rows around. The row in which it is evaluated, however, holds all native columns of the
group from the start, those of results after it and hidden ones included. A reference to one of them
finds this column instead of a name in the rows around.

This file states how references are meant: results are performed one after the other, on a row that
begins with nothing but the key of the group. Rows are finished in this way as long as no reference
of a derived value names a hidden column or a native result after it.

## Main definitions

* `Expression.openNames`: the references of an expression outside of its aggregates.
* `Row.perform?`: results performed one after the other.
* `Outputs.Derives`: values derived as results are performed.
* `Pattern.LooksBack`: patterns whose references name no native column that comes later.

## Main results

* `Expression.toOption_evaluate_of_fill`: one derived value.
* `Row.perform?_append`, `Row.of_perform?_append`: what comes after a result does not change it.
* `Outputs.exists_derives`: the derived values of a sequence of results.
* `Pattern.finished_eq_perform?`: the finished rows of a pattern.
* `Pattern.references_lexical`: the references in its values.
* `Pattern.finished_sees_later`: a reference to a native result after it.
-/

namespace FederatedQuery

/-! ### References outside of aggregates -/

namespace Expression

/-- The names that are referred to outside of aggregates when an expression is evaluated. -/
def openNames : Expression → List String
  | .ref name => [name]
  | .not a => a.openNames
  | .binary op a b =>
    match op with
    | .measure _ => []
    | _ => a.openNames ++ b.openNames
  | _ => []

theorem openNames_binary {op : Operator} {a b : Expression}
    (h : (binary op a b).isAggregate = false) :
    (binary op a b).openNames = a.openNames ++ b.openNames := by
  cases op with
  | measure => exact nomatch h
  | _ => rfl

/-- Two expressions have the same value, each in a scope of its own, or none of them has one. -/
def Agree (s t : Scope) (e e' : Expression) : Prop :=
  (e.evaluate s).toOption = (e'.evaluate t).toOption

theorem Agree.not {s t : Scope} {a a' : Expression} (h : Agree s t a a') :
    Agree s t (.not a) (.not a') := by
  rw [Agree, evaluate, evaluate, Except.toOption_bind, Except.toOption_bind, h]

/-- Operations agree if their operands do. -/
theorem Agree.binary {s t : Scope} {a b a' b' : Expression} (ha : Agree s t a a')
    (hb : Agree s t b b') (op : Operator) : Agree s t (.binary op a b) (.binary op a' b') := by
  rw [Agree] at ha hb
  have hstrict (f : Value → Value → Except ExpressionError Value) :
      (do f (← a.evaluate s) (← b.evaluate s)).toOption =
        (do f (← a'.evaluate t) (← b'.evaluate t)).toOption := by
    simp only [Except.toOption_bind, ha, hb]
  cases op with
  | arithmetic op => exact hstrict op.onValues
  | comparison k => exact hstrict fun x y => .ok (k.onValues x y)
  | relation k =>
    cases k with
    | is => exact hstrict fun x y => .ok (.boolean (x == y))
    | _ => rfl
  | measure => rfl
  | connective k =>
    -- the second operand is looked at on both sides or on none
    have hsecond : (do .ok (Value.boolean (← b.evaluate s).isTrue) :
        Except ExpressionError Value).toOption =
          (do .ok (Value.boolean (← b'.evaluate t).isTrue)).toOption := by
      simp only [Except.toOption_bind, hb]
    cases k with
    | and =>
      rw [Agree, evaluate, evaluate, Except.toOption_bind, Except.toOption_bind, ha]
      refine congrArg _ (funext fun x => ?_)
      split
      · exact hsecond
      · rfl
    | or =>
      rw [Agree, evaluate, evaluate, Except.toOption_bind, Except.toOption_bind, ha]
      refine congrArg _ (funext fun x => ?_)
      split
      · rfl
      · exact hsecond

/-- An expression may be filled with parts that agree, in scopes in which open names mean the
same. -/
theorem exists_fill_agree {s t : Scope} {e filled : Expression} {ps qs rest : List Expression}
    (hopen : ∀ n ∈ e.openNames, s.lookup? n = t.lookup? n)
    (hparts : List.Forall₂ (Agree s t) ps qs) (h : e.fill ps = some (filled, rest)) :
    ∃ filled' rest', e.fill qs = some (filled', rest') ∧ Agree s t filled filled' ∧
      List.Forall₂ (Agree s t) rest rest' := by
  induction e generalizing ps qs rest filled with
  | count a =>
    obtain rfl := takePart_eq_some.1 h
    obtain _ | ⟨hpart, hrest⟩ := hparts
    exact ⟨_, _, rfl, hpart, hrest⟩
  | ref name =>
    obtain ⟨⟩ := h
    refine ⟨_, _, rfl, ?_, hparts⟩
    rw [Agree, evaluate, evaluate, hopen name List.mem_cons_self]
  | not a ih =>
    obtain ⟨a', ha, rfl⟩ := fill_not_eq_some.1 h
    obtain ⟨a'', rest', ha', hagree, hrest⟩ := ih hopen hparts ha
    exact ⟨_, _, fill_not_eq_some.2 ⟨a'', ha', rfl⟩, hagree.not, hrest⟩
  | binary op a b iha ihb =>
    by_cases hroot : (binary op a b).isAggregate
    · cases op with
      | measure m =>
        cases m with
        | average =>
          obtain ⟨sum, number, rfl, rfl⟩ := takeQuotient_eq_some.1 h
          obtain _ | ⟨hsum, _ | ⟨hnumber, hrest⟩⟩ := hparts
          exact ⟨_, _, rfl, hsum.binary hnumber _, hrest⟩
        | _ =>
          obtain rfl := takePart_eq_some.1 h
          obtain _ | ⟨hpart, hrest⟩ := hparts
          exact ⟨_, _, rfl, hpart, hrest⟩
      | _ => exact absurd hroot Bool.false_ne_true
    · rw [Bool.not_eq_true] at hroot
      rw [openNames_binary hroot] at hopen
      obtain ⟨a', middle, b', ha, hb, rfl⟩ := (fill_binary_eq_some hroot).1 h
      obtain ⟨a'', middle', ha', hagree, hmiddle⟩ :=
        iha (fun n hn => hopen n (List.mem_append_left _ hn)) hparts ha
      obtain ⟨b'', rest', hb', hagree', hrest⟩ :=
        ihb (fun n hn => hopen n (List.mem_append_right _ hn)) hmiddle hb
      exact ⟨_, _, (fill_binary_eq_some hroot).2 ⟨a'', middle', b'', ha', hb', rfl⟩,
        hagree.binary hagree' op, hrest⟩
  | _ =>
    obtain ⟨⟩ := h
    exact ⟨_, _, rfl, rfl, hparts⟩

/-- **One derived value.** A value that is derived from columns is the one that its expression has
with the values in these columns, in every scope in which open names mean the same. -/
theorem toOption_evaluate_of_fill {s t : Scope} {e derived : Expression} {columns : List String}
    {natives : List Value} (hopen : ∀ n ∈ e.openNames, s.lookup? n = t.lookup? n)
    (hcolumns : List.Forall₂ (fun v n => s.lookup? n = some v) natives columns)
    (h : e.fill (columns.map .ref) = some (derived, [])) :
    (derived.evaluate s).toOption = e.value? natives t := by
  have hparts : List.Forall₂ (Agree s t) (columns.map .ref) (natives.map .literal) := by
    rw [List.forall₂_map_left_iff, List.forall₂_map_right_iff]
    refine hcolumns.flip.imp fun n v hn => ?_
    rw [Agree, evaluate_ref_eq_ok.2 hn]
    rfl
  obtain ⟨filled, rest, hfill, hagree, hrest⟩ := exists_fill_agree hopen hparts h
  cases hrest
  rw [hagree, value?, hfill]

end Expression

/-! ### Results one after the other -/

/-- Results performed one after the other on a row: each sees the row with the results before it,
and the rows around. The backend has given the values of their aggregates, in order. -/
def Row.perform? (scope : Scope) : List Value → Row → List (String × Expression) → Option Row
  | _, row, [] => some row
  | natives, row, (name, e) :: results => do
    let value ← e.value? (natives.take e.nativeCount) (row :: scope)
    perform? scope (natives.drop e.nativeCount) (row.put name value) results

namespace Row

variable {scope : Scope} {natives : List Value} {row final : Row}
  {results : List (String × Expression)}

/-- How many values of the backend results are computed from. -/
def nativeTotal : List (String × Expression) → Nat
  | [] => 0
  | (_, e) :: results => e.nativeCount + nativeTotal results

/-- **Later results change nothing.** Performing results means to perform the first ones without
those after them, and then the others on the row with the first ones. -/
theorem perform?_append (scope : Scope) (natives : List Value) (row : Row)
    (results others : List (String × Expression)) :
    perform? scope natives row (results ++ others) = (perform? scope natives row results).bind
      fun next => perform? scope (natives.drop (nativeTotal results)) next others := by
  induction results generalizing natives row with
  | nil => rfl
  | cons result results ih =>
    obtain ⟨name, e⟩ := result
    rw [List.cons_append, perform?, perform?]
    simp only [ih, nativeTotal, List.drop_drop, Option.bind_eq_bind, Option.bind_assoc]

/-- Results leave the cells of other names alone. -/
theorem get?_of_perform? (h : perform? scope natives row results = some final) {name : String}
    (hname : name ∉ results.map Prod.fst) : final.get? name = row.get? name := by
  induction results generalizing natives row with
  | nil =>
    obtain rfl := Option.some.inj h
    rfl
  | cons result results ih =>
    obtain ⟨n, e⟩ := result
    rw [List.map_cons, List.mem_cons, not_or] at hname
    obtain ⟨value, -, h⟩ := Option.bind_eq_some_iff.1 h
    rw [ih h hname.2, get?_put_of_ne row value hname.1]

/-- Results performed on a row add their names. -/
theorem isSome_get?_of_perform? (h : perform? scope natives row results = some final)
    (name : String) :
    (final.get? name).isSome ↔ name ∈ results.map Prod.fst ∨ (row.get? name).isSome := by
  induction results generalizing natives row with
  | nil =>
    obtain rfl := Option.some.inj h
    exact (or_iff_right List.not_mem_nil).symm
  | cons result results ih =>
    obtain ⟨n, e⟩ := result
    obtain ⟨value, -, h⟩ := Option.bind_eq_some_iff.1 h
    rw [ih h, isSome_get?_put, List.map_cons, List.mem_cons, or_left_comm, or_assoc]

/-- **What a result sees.** A result has the value of its expression in the row of the results
before it, whatever comes after it. -/
theorem of_perform?_append {before after : List (String × Expression)} {name : String}
    {e : Expression} (h : perform? scope natives row (before ++ (name, e) :: after) = some final)
    (hnames : ((name, e) :: after).map Prod.fst |>.Nodup) :
    ∃ next, perform? scope natives row before = some next ∧
      final.get? name =
        e.value? ((natives.drop (nativeTotal before)).take e.nativeCount) (next :: scope) ∧
      ∀ n ∉ ((name, e) :: after).map Prod.fst, next.get? n = final.get? n := by
  rw [perform?_append] at h
  obtain ⟨next, hnext, h⟩ := Option.bind_eq_some_iff.1 h
  refine ⟨next, hnext, ?_, fun n hn => (get?_of_perform? h hn).symm⟩
  obtain ⟨value, hvalue, h⟩ := Option.bind_eq_some_iff.1 h
  rw [get?_of_perform? h (List.nodup_cons.1 hnames).1, get?_put, ← hvalue]

end Row

/-! ### Derived values in the row of a group -/

namespace Outputs

variable {x : External} {dataName : String} {results : List (String × Expression)}

/-- The names of the results that the backend computes. -/
def nativeNames (results : List (String × Expression)) : List String :=
  (results.filter fun result => isNative result.2).map Prod.fst

theorem mem_of_mem_nativeNames {name : String} (h : name ∈ nativeNames results) :
    name ∈ results.map Prod.fst := by
  obtain ⟨result, hmem, rfl⟩ := List.mem_map.1 h
  exact List.mem_map_of_mem (List.mem_filter.1 hmem).1

theorem nativeNames_cons_of_isNative {e : Expression} (h : isNative e) (name : String) :
    nativeNames ((name, e) :: results) = name :: nativeNames results :=
  congrArg (List.map Prod.fst) (List.filter_cons_of_pos h)

theorem nativeNames_cons_of_not_isNative {e : Expression} (h : isNative e = false)
    (name : String) : nativeNames ((name, e) :: results) = nativeNames results :=
  congrArg (List.map Prod.fst) (List.filter_cons_of_neg (by simp [h]))

/-- In a row with the given native columns, deriving values means to perform results one after the
other, on the row without hidden columns and those of the results. -/
def Derives (scope : Scope) (hidden : List String) (results : List (String × Expression))
    (columns : List String) (derived : List (String × Expression)) : Prop :=
  ∀ (row : Row) (natives : List Value), row.IsSorted →
    List.Forall₂ (fun v n => row.get? n = some v) natives columns →
    (row.derive scope derived).toOption.map (·.without hidden) =
      Row.perform? scope natives (row.without (hidden ++ nativeNames results)) results

section

variable {scope : Scope} {hidden columns hoisted : List String}
  {derived : List (String × Expression)} {name : String} {e e' : Expression}

/-- A native column is there already, when its result is performed. -/
theorem Derives.cons_native (h : Derives scope hidden results columns derived)
    (hnative : isNative e) (hname : name ∉ hidden ++ nativeNames results) :
    Derives scope hidden ((name, e) :: results) (name :: columns) derived := by
  intro row natives hrow hnatives
  obtain _ | @⟨value, _, natives, _, hvalue, hnatives⟩ := hnatives
  have hcount : e.nativeCount = 1 :=
    (Expression.length_of_fill (Expression.fill_of_isNative hnative [.literal value])).symm
  have hsingle : e.value? [value] (row.without (hidden ++ nativeNames ((name, e) :: results)) ::
      scope) = some value := (Expression.value?_of_isNative hnative).2 rfl
  have hnext : (row.without (hidden ++ nativeNames ((name, e) :: results))).put name value =
      row.without (hidden ++ nativeNames results) := by
    refine Row.without_of_get? hrow hvalue hname fun n => ?_
    rw [nativeNames_cons_of_isNative hnative, List.mem_append, List.mem_cons, List.mem_append]
    exact or_left_comm
  rw [h row natives hrow hnatives, ← hnext, Row.perform?, hcount, List.take_succ_cons,
    List.take_zero, hsingle]
  rfl

/-- A derived value sees its hidden columns, and what is there when its result is performed. -/
theorem Derives.cons_derived (h : Derives scope hidden results columns derived)
    (hderived : isNative e = false) (hname : name ∉ hidden ++ nativeNames results)
    (hcolumns : columns ⊆ hidden ++ nativeNames results)
    (hopen : ∀ n ∈ e.openNames, n ∉ hidden ++ nativeNames results)
    (hfill : e.fill (hoisted.map .ref) = some (e', [])) :
    Derives scope hidden ((name, e) :: results) (hoisted ++ columns) ((name, e') :: derived) := by
  intro row natives hrow hnatives
  have hcount : hoisted.length = e.nativeCount := by
    have hlength := Expression.length_of_fill hfill
    rwa [List.length_map] at hlength
  have hown := hcount ▸ List.forall₂_take_append natives hoisted columns hnatives
  have hothers := hcount ▸ List.forall₂_drop_append natives hoisted columns hnatives
  have hvalue : (e'.evaluate (row :: scope)).toOption = e.value? (natives.take e.nativeCount)
      (row.without (hidden ++ nativeNames results) :: scope) := by
    refine Expression.toOption_evaluate_of_fill (fun n hn => ?_) (hown.imp fun v n hn => ?_) hfill
    · rw [Scope.lookup?, List.findSome?_cons, Scope.lookup?, List.findSome?_cons, Row.get?_without,
        if_neg (hopen n hn)]
    · rw [Scope.lookup?, List.findSome?_cons, hn]
  rw [Row.derive_cons, Except.toOption_bind, Option.map_bind, Row.perform?, hvalue,
    nativeNames_cons_of_not_isNative hderived]
  refine congrArg _ (funext fun value => ?_)
  rw [← Row.put_without hrow hname]
  refine h (row.put name value) _ (hrow.put name value) ?_
  refine List.forall₂_iff_zip.2 ⟨hothers.length_eq, @fun v n hmem => ?_⟩
  have hne : n ≠ name := by
    rintro rfl
    exact hname (hcolumns (List.of_mem_zip hmem).2)
  rw [Row.get?_put_of_ne row value hne]
  exact (List.forall₂_iff_zip.1 hothers).2 hmem

end

/-- **The derived values of results.** In a row with all native columns, values are derived as if
the results were performed one after the other, on the row without these columns, as long as
references name neither hidden columns nor native results that come later. -/
theorem exists_derives (scope : Scope) {o o' : Outputs}
    (h : results.foldlM (fun o result => o.addApply x dataName result.1 result.2) o = .ok o')
    (hnames : (results.map Prod.fst).Nodup)
    (hvisible : ∀ result ∈ results, result.1 ∉ o'.hidden ∧
      ∀ n ∈ result.2.openNames, n ∉ o'.hidden)
    (hlater : results.Pairwise fun result later =>
      isNative later.2 → later.1 ∉ result.2.openNames) :
    ∃ columns derived, o'.columns = o.columns ++ columns ∧ o'.derived = o.derived ++ derived ∧
      o.hidden ⊆ o'.hidden ∧ columns ⊆ o'.hidden ++ nativeNames results ∧
      Derives scope o'.hidden results columns derived := by
  induction results generalizing o with
  | nil =>
    obtain rfl := Except.ok.inj h
    refine ⟨[], [], (List.append_nil _).symm, (List.append_nil _).symm, List.Subset.refl _,
      List.nil_subset _, fun row natives _ _ => ?_⟩
    rw [nativeNames, List.filter_nil, List.map_nil, List.append_nil]
    rfl
  | cons result results ih =>
    obtain ⟨name, e⟩ := result
    obtain ⟨next, hnext, h⟩ := Except.bind_eq_ok.1 h
    obtain ⟨hname, hnames⟩ := List.nodup_cons.1 hnames
    obtain ⟨⟨hshown, hopen⟩, hvisible⟩ := List.forall_mem_cons.1 hvisible
    obtain ⟨hback, hlater⟩ := List.pairwise_cons.1 hlater
    obtain ⟨columns, derived, hcolumns, hderived, hhidden, hof, hderives⟩ :=
      ih h hnames hvisible hlater
    have hname : name ∉ o'.hidden ++ nativeNames results := by
      rw [List.mem_append, not_or]
      exact ⟨hshown, fun hmem => hname (mem_of_mem_nativeNames hmem)⟩
    by_cases hnative : isNative e
    · obtain ⟨hadded, hsame, hnone⟩ := addAggregate_eq_ok ((if_pos hnative).symm.trans hnext)
      refine ⟨name :: columns, derived, ?_, ?_, ?_, ?_, hderives.cons_native hnative hname⟩
      · rw [hcolumns, hadded, List.append_assoc, List.singleton_append]
      · rw [hderived, hnone]
      · rwa [← hsame]
      · rw [nativeNames_cons_of_isNative hnative]
        refine List.cons_subset.2 ⟨List.mem_append_right _ List.mem_cons_self, fun n hn => ?_⟩
        exact (List.mem_append.1 (hof hn)).elim (List.mem_append_left _) fun hn =>
          List.mem_append_right _ (List.mem_cons_of_mem name hn)
    · obtain ⟨hoisted, e', hhides, hfill, hadded⟩ :=
        (addApply_eq_ok hnext).resolve_left fun h => hnative h.1
      rw [Bool.not_eq_true] at hnative
      have hnew : next.columns = o.columns ++ hoisted := hhides.columns
      have hnewHidden : next.hidden = o.hidden ++ hoisted := hhides.hidden
      refine ⟨hoisted ++ columns, (name, e') :: derived, ?_, ?_, ?_, ?_,
        hderives.cons_derived hnative hname hof ?_ hfill⟩
      · rw [hcolumns, hnew, List.append_assoc]
      · rw [hderived, hadded, List.append_assoc, List.singleton_append]
      · rw [hnewHidden] at hhidden
        exact (List.append_subset.1 hhidden).1
      · rw [nativeNames_cons_of_not_isNative hnative]
        rw [hnewHidden] at hhidden
        refine List.append_subset.2 ⟨fun n hn => ?_, hof⟩
        exact List.mem_append_left _ ((List.append_subset.1 hhidden).2 hn)
      · intro n hn
        rw [List.mem_append, not_or]
        refine ⟨hopen n hn, fun hmem => ?_⟩
        obtain ⟨later, hnative, rfl⟩ := List.mem_map.1 hmem
        obtain ⟨hlater, hnative⟩ := List.mem_filter.1 hnative
        exact hback later hlater hnative hn

end Outputs

/-! ### Finished rows of patterns -/

namespace Row

theorem isSorted_decode (c : Compiled) (g : NativeGroup) : (c.decode g).IsSorted := by
  have hrow : (c.row g.record).IsSorted := by
    refine IsSorted.write ?_ c.columns
    split
    · exact IsSorted.put List.Pairwise.nil _ _
    · exact List.Pairwise.nil
  unfold Compiled.decode
  split
  · exact hrow.put _ _
  · exact hrow

end Row

/-- The values of the native columns of a group, in order. -/
def Compiled.natives (c : Compiled) (g : NativeGroup) : List Value :=
  c.columns.map fun n => ((c.decode g).get? n).getD .null

namespace Pattern

/-- The results that are values, in order. -/
def valuesOf : List (String × Body Pattern) → List (String × Expression)
  | [] => []
  | (name, .scalar e) :: results => (name, e) :: valuesOf results
  | (_, .nested _) :: results => valuesOf results

/-- The results of a pattern that are values, in order. -/
def values (p : Pattern) : List (String × Expression) := valuesOf p.applies

/-- The name of the key of groups, if there are groups. -/
def keyNames (p : Pattern) : List String := (p.split.map SplitKey.name).toList

/-- References in values, outside of aggregates, name neither hidden columns nor native results that
come later. -/
structure LooksBack (p : Pattern) (hidden : List String) : Prop where
  visible : ∀ result ∈ p.values, ∀ n ∈ result.2.openNames, n ∉ hidden
  earlier : p.values.Pairwise fun result later =>
    Outputs.isNative later.2 → later.1 ∉ result.2.openNames

variable {p : Pattern}

/-- Only values have outputs. -/
theorem outputs_eq_values (p : Pattern) : p.outputs = p.values.foldlM
    (fun o result => o.addApply p.source.external p.dataName result.1 result.2) Outputs.none := by
  rw [outputs_eq, values]
  generalize Outputs.none = o
  induction p.applies generalizing o with
  | nil => rfl
  | cons result applies ih =>
    obtain ⟨name, body⟩ := result
    rw [List.foldlM_cons]
    cases body with
    | scalar e => exact bind_congr ih
    | nested q => exact ih o

/-- Each value has the name of its result. -/
theorem values_sublist (p : Pattern) :
    (p.values.map Prod.fst).Sublist (p.applies.map Prod.fst) := by
  rw [values]
  induction p.applies with
  | nil => exact .slnil
  | cons result applies ih =>
    obtain ⟨name, body⟩ := result
    cases body with
    | scalar e => exact ih.cons_cons name
    | nested q => exact ih.cons name

theorem namesOf_isNative (p : Pattern) :
    namesOf p.applies Body.isNative = Outputs.nativeNames p.values := by
  rw [values, namesOf, Outputs.nativeNames]
  induction p.applies with
  | nil => rfl
  | cons result applies ih =>
    obtain ⟨name, body⟩ := result
    cases body with
    | scalar e =>
      rw [valuesOf, List.filter_cons, List.filter_cons, Body.isNative]
      cases Outputs.isNative e with
      | false => exact ih
      | true => exact congrArg (name :: ·) ih
    | nested q => exact ih

/-- The row of a group has the native columns and the key of the group. -/
theorem Columnar.isSome_get?_decode {c : Compiled} {o : Outputs} (h : p.Columnar c o)
    (g : NativeGroup) (n : String) :
    ((c.decode g).get? n).isSome ↔
      n ∈ o.hidden ++ Outputs.nativeNames p.values ∨ n ∈ p.keyNames := by
  rw [c.isSome_get?_decode, h.columns, (lists_outputs h.outputs).columns, namesOf_isNative, h.key,
    List.mem_append, keyNames, Option.mem_toList]

/-- Without native columns, the row of a group has nothing but the key. -/
theorem Columnar.without_decode {c : Compiled} {o : Outputs} (h : p.Columnar c o)
    (hnames : p.names.Nodup) (hvisible : ∀ n ∈ p.names, n ∉ o.hidden) (g : NativeGroup) :
    (c.decode g).without (o.hidden ++ Outputs.nativeNames p.values) =
      (c.decode g).only p.keyNames := by
  have hsorted := Row.isSorted_decode c g
  refine (hsorted.without _).ext (hsorted.only _) fun n => ?_
  rw [Row.get?_without, Row.get?_only]
  by_cases hkey : n ∈ p.keyNames
  · have hnative : n ∉ o.hidden ++ Outputs.nativeNames p.values := by
      rw [List.mem_append, not_or]
      refine ⟨hvisible n (List.mem_append_left _ hkey), fun hmem => ?_⟩
      have hresult := p.values_sublist.subset (Outputs.mem_of_mem_nativeNames hmem)
      exact (List.nodup_append.1 hnames).2.2 n hkey n hresult rfl
    rw [if_neg hnative, if_pos hkey]
  · rw [if_neg hkey]
    split
    · rfl
    · next hnative =>
      rw [← Option.not_isSome_iff_eq_none, h.isSome_get?_decode]
      exact not_or.2 ⟨hnative, hkey⟩

/-- **Finished rows.** In a pattern with different names, none of them hidden, whose references look
back, the row of a group is finished as if the results were performed one after the other, with the
key of the group and the rows around. So a reference in a value, outside of its aggregates, means
the key or the result before it that has this name, and otherwise what it means in the rows around,
whatever comes after the value. -/
theorem finished_eq_perform? {limits : Limits} {c : Compiled} (hcompile : p.compile limits = .ok c)
    (hshape : p.split.isSome ∨ p.applies ≠ []) (hnames : p.names.Nodup)
    (hvisible : ∀ n ∈ p.names, n ∉ c.finish.hidden) (hback : p.LooksBack c.finish.hidden)
    (g : NativeGroup) (scope : Scope) :
    ((c.decode g).derive scope c.finish.derived).toOption.map c.finish.dropHidden =
      Row.perform? scope (c.natives g) ((c.decode g).only p.keyNames) p.values := by
  obtain ⟨o, hcolumnar⟩ := columnar_of_compile hcompile hshape
  rw [hcolumnar.hidden] at hvisible hback
  have hvalues : ∀ result ∈ p.values, result.1 ∉ o.hidden ∧
      ∀ n ∈ result.2.openNames, n ∉ o.hidden := fun result hresult =>
    ⟨hvisible _ (List.mem_append_right _ (p.values_sublist.subset (List.mem_map_of_mem hresult))),
      hback.visible result hresult⟩
  have happlies := (List.nodup_append.1 hnames).2.1.sublist p.values_sublist
  obtain ⟨columns, derived, hcolumns, hderived, -, -, hderives⟩ := Outputs.exists_derives scope
    ((outputs_eq_values p).symm.trans hcolumnar.outputs) happlies hvalues hback.earlier
  have hnatives : List.Forall₂ (fun v n => (c.decode g).get? n = some v) (c.natives g)
      columns := by
    rw [Compiled.natives, hcolumnar.columns, hcolumns, List.forall₂_map_left_iff]
    refine List.forall₂_same.2 fun n hn => ?_
    obtain ⟨v, hv⟩ := Option.isSome_iff_exists.1
      ((c.isSome_get?_decode g n).2 (.inl (hcolumnar.columns ▸ hcolumns ▸ hn)))
    rw [hv, Option.getD_some]
  rw [← hcolumnar.without_decode hnames hvisible g, hcolumnar.derived, hderived]
  refine Eq.trans ?_ (hderives (c.decode g) (c.natives g) (Row.isSorted_decode c g) hnatives)
  rw [← hcolumnar.hidden]
  rfl

/-- **References are resolved lexically.** In a pattern of totals or groups with different names,
none of them hidden, whose references look back, the row of each group is finished as if its results
were performed one after the other. So each value is that of its expression, with the values of its
aggregates, in the rows around a row of those results that come before it: outside of aggregates a
name means the key or the result before the value that has it, if there is one, and otherwise what
it means in the rows around. What comes after the value makes no difference. -/
theorem references_lexical {limits : Limits} {c : Compiled} (hcompile : p.compile limits = .ok c)
    (hshape : p.split.isSome ∨ p.applies ≠ []) (hnames : p.names.Nodup)
    (hvisible : ∀ n ∈ p.names, n ∉ c.finish.hidden) (hback : p.LooksBack c.finish.hidden)
    (g : NativeGroup) (scope : Scope) :
    ((c.decode g).derive scope c.finish.derived).toOption.map c.finish.dropHidden =
        Row.perform? scope (c.natives g) ((c.decode g).only p.keyNames) p.values ∧
      ∀ d before name e after, (c.decode g).derive scope c.finish.derived = .ok d →
        p.values = before ++ (name, e) :: after →
        ∃ row, Row.perform? scope (c.natives g) ((c.decode g).only p.keyNames) before = some row ∧
          (c.finish.dropHidden d).get? name = e.value?
            (((c.natives g).drop (Row.nativeTotal before)).take e.nativeCount) (row :: scope) ∧
          ∀ n, Scope.lookup? (row :: scope) n =
            if n ∈ p.keyNames ++ before.map Prod.fst then (c.finish.dropHidden d).get? n
            else scope.lookup? n := by
  have hfinished := finished_eq_perform? hcompile hshape hnames hvisible hback g scope
  refine ⟨hfinished, fun d before name e after hderive hvalues => ?_⟩
  obtain ⟨o, hcolumnar⟩ := columnar_of_compile hcompile hshape
  obtain ⟨-, hresults, hkey⟩ := List.nodup_append.1 hnames
  have hresults := hresults.sublist p.values_sublist
  have hkey : ∀ n ∈ p.keyNames, n ∉ p.values.map Prod.fst := fun n hn hmem =>
    hkey n hn n (p.values_sublist.subset hmem) rfl
  rw [hderive, hvalues] at hfinished
  rw [hvalues, List.map_append] at hresults hkey
  obtain ⟨-, hafter, hdifferent⟩ := List.nodup_append.1 hresults
  obtain ⟨row, hrow, hvalue, hlater⟩ := Row.of_perform?_append hfinished.symm hafter
  refine ⟨row, hrow, hvalue, fun n => ?_⟩
  have hsome : (row.get? n).isSome ↔ n ∈ p.keyNames ++ before.map Prod.fst := by
    rw [Row.isSome_get?_of_perform? hrow, Row.get?_only, List.mem_append, or_comm]
    refine or_congr_left ?_
    split
    · next hn => exact iff_of_true ((hcolumnar.isSome_get?_decode g n).2 (.inr hn)) hn
    · next hn => exact iff_of_false nofun hn
  rw [Scope.lookup?, List.findSome?_cons]
  split
  · next v hv =>
    have hn := hsome.1 (hv ▸ rfl)
    have hlast : n ∉ ((name, e) :: after).map Prod.fst := fun hmem => by
      obtain hn | hn := List.mem_append.1 hn
      · exact hkey n hn (List.mem_append_right _ hmem)
      · exact hdifferent n hn n hmem rfl
    rw [if_pos hn, ← hlater n hlast, hv]
  · next hnone =>
    rw [if_neg fun hn => ?_, Scope.lookup?]
    rw [← hsome, hnone] at hn
    exact nomatch hn

end Pattern

namespace Sample

/-- The pages with their share of the edits in the rows around. -/
def shares : Pattern :=
  pagesWith [("Count", .scalar (.count (.ref "edits"))), ("Average", average),
    ("Share", .scalar (.binary (.arithmetic .divide) (.ref "Count") (.ref "Edits")))]

/-- The pages with a copy of the edits in the rows around, and with edits of their own. -/
def copies : Pattern :=
  pagesWith [("Copy", .scalar (.ref "Edits")), ("Edits", .scalar (.count (.ref "edits")))]

/-- Two edits of the front page. -/
def frontGroup : NativeGroup :=
  ⟨.null, [("page", .string "Front"), ("Count", .int 2), ("!T_0", .int 6), ("!T_1", .int 2),
    ("Edits", .int 2)]⟩

/-- A row around the pages in which ten edits have been counted. -/
def tenEdits : Row := [("Edits", .number 10)]

/-- A row around the pages in which edits have not been counted exactly. -/
def manyEdits : Row := [("Edits", .string "many")]

end Sample

namespace Pattern

open Sample

/-- The share of a page is that of its own count in the edits around. -/
theorem references_lexical_shares : ∃ c, shares.compile Config.standard.limits = .ok c ∧
    shares.split.isSome ∧ shares.names.Nodup ∧ (∀ n ∈ shares.names, n ∉ c.finish.hidden) ∧
      shares.LooksBack c.finish.hidden ∧ c.finish.hidden = ["!T_0", "!T_1"] ∧
      ∀ d, (c.decode frontGroup).derive [tenEdits] c.finish.derived = .ok d →
        ∃ row, (c.finish.dropHidden d).get? "Share" =
            (Expression.binary (.arithmetic .divide) (.ref "Count") (.ref "Edits")).value? []
              [row, tenEdits] ∧
          Scope.lookup? [row, tenEdits] "Count" = (c.finish.dropHidden d).get? "Count" ∧
          Scope.lookup? [row, tenEdits] "Edits" = some (.number 10) := by
  obtain ⟨c, hcompile, hhidden⟩ : ∃ c, shares.compile Config.standard.limits = .ok c ∧
      c.finish.hidden = ["!T_0", "!T_1"] := ⟨_, rfl, by decide⟩
  have hnames : shares.names.Nodup := by decide
  have hvisible : ∀ n ∈ shares.names, n ∉ c.finish.hidden := by
    rw [hhidden]
    decide
  have hback : shares.LooksBack c.finish.hidden := by
    rw [hhidden]
    exact ⟨by decide, by decide⟩
  obtain ⟨-, hvalues⟩ :=
    references_lexical hcompile (.inl rfl) hnames hvisible hback frontGroup [tenEdits]
  refine ⟨c, hcompile, rfl, hnames, hvisible, hback, hhidden, fun d hderive => ?_⟩
  obtain ⟨row, -, hvalue, hlookup⟩ :=
    hvalues d (shares.values.take 2) _ _ [] hderive rfl
  exact ⟨row, hvalue, hlookup "Count", hlookup "Edits"⟩

/-- A copy of the edits around is one of the edits that are counted after it. -/
theorem finished_sees_later : ∃ c d, copies.compile Config.standard.limits = .ok c ∧
    copies.names.Nodup ∧ (∀ n ∈ copies.names, n ∉ c.finish.hidden) ∧
      copies.values = [("Copy", .ref "Edits"), ("Edits", .count (.ref "edits"))] ∧
      (c.decode frontGroup).derive [manyEdits] c.finish.derived = .ok d ∧
      (c.finish.dropHidden d).get? "Copy" = some (.number (Float.ofInt 2)) ∧
      (c.finish.dropHidden d).get? "Copy" ≠ Scope.lookup? [manyEdits] "Edits" := by
  obtain ⟨c, d, hcompile, hhidden, hderive, hcopy⟩ : ∃ c d,
      copies.compile Config.standard.limits = .ok c ∧ c.finish.hidden = [] ∧
        (c.decode frontGroup).derive [manyEdits] c.finish.derived = .ok d ∧
        (c.finish.dropHidden d).get? "Copy" = some (.number (Float.ofInt 2)) :=
    ⟨_, _, rfl, rfl, rfl, rfl⟩
  refine ⟨c, d, hcompile, by decide, fun n _ => ?_, rfl, hderive, hcopy, ?_⟩
  · rw [hhidden]
    exact List.not_mem_nil
  · rw [hcopy]
    exact nofun

end Pattern

end FederatedQuery
