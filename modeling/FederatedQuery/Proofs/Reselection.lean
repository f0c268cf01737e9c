import FederatedQuery.Proofs.Columns
import FederatedQuery.Proofs.Translation

/-!
# Selecting groups again

The rows of a group are selected by its key when a nested pattern is computed for the group. By then
the query for the groups has been sent, so the selection had better not be refused. For buckets of
time it never is. For the groups of a dimension it is accepted whatever the key is, or refused
whatever the key is; this depends on the dimension, which has to be of a kind whose values can be
tested for equality, and not the time attribute.

Splits ask for less: rows are grouped by any column that is known, that is no metric and whose
values are no instants. So a pattern by a dimension of truth values compiles, and each of its nested
patterns is refused once there is a group.

## Main definitions

* `Grouping.IsKey`: the keys of groups.
* `Grouping.IsSelectable`: the groupings whose groups can be selected.
* `Pattern.IsWellShaped`: what it takes for a pattern to compile, apart from its filter.

## Main results

* `Grouping.admits_condition_iff`: the groups that can be selected.
* `Pattern.exists_compile_iff`: the patterns that compile.
* `Pattern.compiles_in_groups`: the nested patterns that compile inside of groups.
-/

namespace FederatedQuery

open Native

/-! ### Keys of groups -/

/-- A value can be the key of a group: what the cell of a dimension is decoded to, or a bucket of
the period. -/
inductive Grouping.IsKey : Grouping → Value → Prop
  | cell (name dimension : String) (cell : Json) : IsKey (.dimension name dimension) (.ofCell cell)
  | bucket (name : String) (period : Period) (time : String) (start : Instant) :
    IsKey (.bucket name period time) (.timeRange (period.bucketAt start))

/-- The key of a group is one, if a time is given for a bucket. -/
theorem Grouping.isKey_keyOf {grouping : Grouping} {g : NativeGroup}
    (hstart : ∀ name period time, grouping = .bucket name period time → g.start?.isSome) :
    grouping.IsKey (grouping.keyOf g) := by
  cases grouping with
  | dimension name dimension =>
    change IsKey _ (recordCell g.record name)
    unfold recordCell
    cases g.record.lookup name with
    | some cell => exact .cell name dimension cell
    | none => exact .cell name dimension .null
  | bucket name period time =>
    obtain ⟨start, hstart⟩ := Option.isSome_iff_exists.1 (hstart name period time rfl)
    rw [keyOf, hstart]
    exact .bucket name period time start

/-- The rows of a reply have keys of groups. -/
theorem Compiled.isKey_of_rows {c : Compiled} {grouping : Grouping} {items : List Json}
    {rows : List Row} {row : Row} (hgrouping : c.grouping = some grouping)
    (hfits : grouping.Fits c.query.shape) (h : c.rows items = .ok rows) (hrow : row ∈ rows) :
    ∃ key, row.get? grouping.name = some key ∧ grouping.IsKey key := by
  obtain ⟨g, rfl, hgroup⟩ :=
    exists_group (fun _ hother => Option.some.inj (hgrouping.symm.trans hother) ▸ hfits) h hrow
  obtain ⟨⟨item, hitem, hholds⟩, hkey⟩ := hgroup grouping hgrouping
  refine ⟨_, hkey, Grouping.isKey_keyOf ?_⟩
  rintro name period time rfl
  unfold Compiled.rows at h
  cases hshape : c.query.shape with
  | timeseries =>
    rw [hshape] at h hholds
    obtain ⟨read, hread, -⟩ := Except.bind_eq_ok.1 h
    obtain ⟨seriesRow, hrowOf, -⟩ := Except.exists_of_mapM_eq_ok hread
    obtain ⟨g', -, -, hbucket⟩ := of_seriesRow (hrowOf item hitem)
    obtain ⟨hstart, htimestamp⟩ := hbucket name period time hgrouping
    have htime : g'.timestamp = g.timestamp :=
      Option.some.inj (htimestamp.symm.trans hholds.2)
    rwa [NativeGroup.start?, htime] at hstart
  | _ =>
    rw [hshape] at hfits
    exact hfits.elim

/-! ### The groups that can be selected -/

namespace Grouping

variable {x : External} {grouping : Grouping} {split : SplitKey} {key : Value}

/-- The groups of a grouping can be selected by their keys. -/
def IsSelectable (x : External) : Grouping → Prop
  | .dimension _ d => d ≠ x.timeAttribute ∧
      ∃ column, x.attribute? d = some column ∧
        column.kind ∈ [Kind.null, .string, .stringSet, .number]
  | .bucket .. => True

/-- Rows are grouped by a column that is known and no metric, or by buckets of time. -/
theorem ofSplit_cases (h : ofSplit x split = .ok grouping) :
    (∃ column, x.attribute? column.name = some column ∧ column.unsplitable = false ∧
      grouping = .dimension split.name column.name) ∨
    ∃ period, grouping = .bucket split.name period x.timeAttribute := by
  unfold ofSplit at h
  split at h
  · split at h
    · exact nomatch h
    next column hcolumn =>
    have hname := External.name_of_attribute? hcolumn
    split at h
    · exact nomatch h
    next hsplit =>
    split at h
    · exact nomatch h
    · cases h
      exact .inl ⟨column, hname.symm ▸ hcolumn, eq_false_of_ne_true hsplit, rfl⟩
  · split at h
    · split at h
      · cases h
        exact .inr ⟨_, rfl⟩
      · exact nomatch h
    · exact nomatch h
  · exact nomatch h

theorem exists_equalityTest?_ofDouble (name : String) (x : Float) :
    ∃ test, equalityTest? name (.ofDouble x) = some test := by
  unfold Value.ofDouble
  split <;> exact ⟨_, rfl⟩

/-- Every decoded cell can be tested for. -/
theorem exists_equalityTest?_ofCell (name : String) (cell : Json) :
    ∃ value test, Expression.ofValue (.ofCell cell) = .literal value ∧
      equalityTest? name value = some test := by
  cases cell with
  | int n =>
    obtain ⟨test, htest⟩ := exists_equalityTest?_ofDouble name (Float.ofInt n)
    exact ⟨_, test, rfl, htest⟩
  | float x =>
    obtain ⟨test, htest⟩ := exists_equalityTest?_ofDouble name x
    exact ⟨_, test, rfl, htest⟩
  | _ => exact ⟨_, _, rfl, rfl⟩

theorem translates_condition {name : String} {column : Attribute}
    (hcolumn : x.attribute? column.name = some column) (hsplit : column.unsplitable = false)
    (hselectable : (Grouping.dimension name column.name).IsSelectable x) {value : Value}
    {test : Filter} (hvalue : Expression.ofValue key = .literal value)
    (htest : equalityTest? column.name value = some test) :
    Translates x ((Grouping.dimension name column.name).condition key) test := by
  obtain ⟨htime, found, hfound, hkind⟩ := hselectable
  obtain rfl : column = found := Option.some.inj (hcolumn.symm.trans hfound)
  rw [condition, hvalue, Expression.eqTo]
  exact .equal ⟨hcolumn, hsplit, by simpa [or_comm, or_assoc] using hkind⟩ htime htest

/-- A column is tested for the key of a group if it can be tested for equality at all. -/
theorem translates_condition_iff {name : String} {column : Attribute}
    (hcolumn : x.attribute? column.name = some column) (hsplit : column.unsplitable = false)
    (cell : Json) :
    (∃ f, Translates x ((Grouping.dimension name column.name).condition (.ofCell cell)) f) ↔
      (Grouping.dimension name column.name).IsSelectable x := by
  obtain ⟨value, test, hvalue, htest⟩ := exists_equalityTest?_ofCell column.name cell
  constructor
  · rintro ⟨f, h⟩
    rw [condition, hvalue, Expression.eqTo] at h
    generalize hd : column.name = d at h
    cases h with
    | @equal other _ _ hoffers htime =>
      obtain rfl : column = other :=
        Option.some.inj (hcolumn.symm.trans (hd.symm ▸ hoffers.known))
      refine ⟨htime, column, hcolumn, ?_⟩
      simpa [or_comm, or_assoc] using hoffers.kind
  · exact fun hselectable =>
      ⟨test, translates_condition hcolumn hsplit hselectable hvalue htest⟩

/-- A condition on the key of a group is a single conjunct. -/
theorem conjuncts_condition (grouping : Grouping) (key : Value) :
    (grouping.condition key).conjuncts = [grouping.condition key] := by
  cases grouping <;> rfl

/-- **The groups that can be selected.** Whether the condition on a key is accepted does not depend
on the key. -/
theorem admits_condition_iff (h : ofSplit x split = .ok grouping) (hkey : grouping.IsKey key) :
    Restriction.Admits x (grouping.condition key) ↔ grouping.IsSelectable x := by
  obtain ⟨column, hcolumn, hsplit, rfl⟩ | ⟨period, rfl⟩ := ofSplit_cases h
  · cases hkey with
    | cell _ _ cell =>
      rw [← translates_condition_iff hcolumn hsplit cell]
      exact or_iff_right nofun
  · cases hkey
    exact iff_of_true (.inr ⟨_, .during _⟩) trivial

/-- A selection that is refused is refused as one that cannot be left to the backend. -/
theorem addConjunct_condition_error (h : ofSplit x split = .ok grouping)
    (hkey : grouping.IsKey key) (hselectable : ¬grouping.IsSelectable x)
    (state : Option TimeRange × List Filter) :
    ∃ fault, Restriction.addConjunct x state (grouping.condition key) =
      .error (.unpushable (grouping.condition key) fault) := by
  obtain ⟨column, hcolumn, hsplit, rfl⟩ | ⟨period, rfl⟩ := ofSplit_cases h
  · cases hkey with
    | cell _ _ cell =>
      obtain ⟨value, test, hvalue, -⟩ := exists_equalityTest?_ofCell column.name cell
      rw [condition, hvalue, Expression.eqTo]
      have hadd {error : CompileError} (hfilter : filterOf x (.binary (.relation .is)
          (.ref column.name) (.literal value)) = .error error) :
          Restriction.addConjunct x state (.binary (.relation .is) (.ref column.name)
            (.literal value)) = .error error := by
        change Except.map _ (filterOf x _) = _
        rw [hfilter]
        rfl
      by_cases htime : column.name = x.timeAttribute
      · exact ⟨.timeEquality, hadd (if_pos (beq_iff_eq.2 htime))⟩
      · have hkind : ¬column.kind.isAssignableToAny [.string, .stringSet, .number] := by
          rw [Kind.isAssignableToAny_cons]
          refine fun hkind => hselectable ⟨htime, column, hcolumn, ?_⟩
          simpa [or_comm, or_assoc] using hkind
        refine ⟨.wrongKind column.name column.kind, hadd ?_⟩
        rw [filterOf, equality_eq rfl (External.isTimeRef_ref_eq_false.2 htime)]
        simp only [dimensionOf, hcolumn, hsplit, hkind, Bool.false_eq_true, if_false]
        rfl
  · exact absurd trivial hselectable

end Grouping

/-! ### Patterns that compile -/

namespace Source

/-- The conditions on the rows of a source. -/
def conjuncts (s : Source) : List Expression := s.filter.elim [] Expression.conjuncts

theorem conjuncts_narrow (s : Source) (condition : Expression) :
    (s.narrow condition).conjuncts = s.conjuncts ++ condition.conjuncts := by
  obtain ⟨x, _ | filter⟩ := s <;> rfl

/-- The restriction of a query for the rows of a source is made of its conditions, one after the
other. -/
theorem ofCondition_filter (s : Source) :
    Restriction.ofCondition s.external s.filter =
      s.conjuncts.foldlM (Restriction.addConjunct s.external) (none, []) >>= fun state =>
        .ok ⟨state.1, Restriction.conjunction state.2⟩ := by
  obtain ⟨x, _ | filter⟩ := s <;> rfl

/-- Rows of the source can be asked for: its conditions can be decided, and it is restricted in time
unless that is not needed. -/
structure IsQueryable (s : Source) : Prop where
  admits : ∀ part ∈ s.conjuncts, Restriction.Admits s.external part
  bounded : s.external.allowEternity ∨
    ∃ part ∈ s.conjuncts, (Restriction.timeRange? s.external part).isSome

/-- A restriction has an interval if one of the conditions asks for a range of time. -/
theorem isSome_interval_iff {s : Source} {r : Restriction}
    (h : Restriction.ofCondition s.external s.filter = .ok r) :
    r.interval.isSome ↔ ∃ part ∈ s.conjuncts, (Restriction.timeRange? s.external part).isSome := by
  rw [ofCondition_filter] at h
  obtain ⟨state, hstate, hr⟩ := Except.bind_eq_ok.1 h
  obtain rfl := Except.ok.inj hr
  refine Except.foldlM_induction (motive := fun done state => state.1.isSome ↔
    ∃ part ∈ done, (Restriction.timeRange? s.external part).isSome) hstate (by simp) ?_
  intro done part state state' hdone hpart
  have hmem : (∃ q ∈ done ++ [part], (Restriction.timeRange? s.external q).isSome) ↔
      state.1.isSome ∨ (Restriction.timeRange? s.external part).isSome := by
    simp [hdone, or_and_right, exists_or]
  rw [hmem]
  unfold Restriction.addConjunct at hpart
  split at hpart
  · next range hrange =>
    cases hpart
    simp [hrange]
  · next hnone =>
    have hsame : state'.1 = state.1 := by
      split at hpart
      · exact congrArg Prod.fst (Except.ok.inj hpart).symm
      · obtain ⟨f, -, rfl⟩ := Except.map_eq_ok.1 hpart
        rfl
    simp [hsame, hnone]

/-- **The sources of which rows can be asked for.** -/
theorem isQueryable_iff {s : Source} :
    s.IsQueryable ↔ ∃ r span, Restriction.ofCondition s.external s.filter = .ok r ∧
      r.span s.external = .ok span := by
  have hrestriction : (∃ r, Restriction.ofCondition s.external s.filter = .ok r) ↔
      ∀ part ∈ s.conjuncts, Restriction.Admits s.external part := by
    obtain ⟨x, _ | filter⟩ := s
    · exact ⟨fun _ => nofun, fun _ => ⟨_, rfl⟩⟩
    · exact Restriction.exists_ofCondition_iff
  have hspan {r : Restriction} : (∃ span, r.span s.external = .ok span) ↔
      s.external.allowEternity ∨ r.interval.isSome := by
    unfold Restriction.span
    split
    · next range hrange => simp [hrange]
    · next hnone => split <;> simp_all
  constructor
  · rintro ⟨hadmits, hbounded⟩
    obtain ⟨r, hr⟩ := hrestriction.2 hadmits
    rw [← isSome_interval_iff hr, ← hspan] at hbounded
    obtain ⟨span, hbounded⟩ := hbounded
    exact ⟨r, span, hr, hbounded⟩
  · rintro ⟨r, span, hr, hbounded⟩
    refine ⟨hrestriction.1 ⟨r, hr⟩, ?_⟩
    rw [← isSome_interval_iff hr, ← hspan]
    exact ⟨span, hbounded⟩

end Source

namespace Pattern

variable {p : Pattern} {limits : Limits}

/-- What it takes for a pattern to compile, apart from its filter. -/
def IsWellShaped (p : Pattern) : Prop :=
  match p.split with
  | some split => (∃ outputs, p.outputs = .ok outputs) ∧
      (∃ grouping, Grouping.ofSplit p.source.external split = .ok grouping) ∧
      p.checkGroupSort split = .ok ()
  | none =>
    if p.applies.isEmpty then p.source.external.allowSelect ∧ p.checkRowSort = .ok ()
    else (∃ outputs, p.outputs = .ok outputs) ∧ p.nestedPatterns.isEmpty

theorem exists_compileRows_iff {r : Restriction} :
    (∃ c, p.compileRows limits r = .ok c) ↔ (∃ span, r.span p.source.external = .ok span) ∧
      p.source.external.allowSelect ∧ p.checkRowSort = .ok () := by
  unfold compileRows
  constructor
  · rintro ⟨c, h⟩
    simp only at h
    split at h
    · exact nomatch h
    next hallow =>
    obtain ⟨⟨⟩, hsort, h⟩ := Except.bind_eq_ok.1 h
    obtain ⟨span, hspan, -⟩ := Except.bind_eq_ok.1 h
    exact ⟨⟨span, hspan⟩, by simpa using hallow, hsort⟩
  · rintro ⟨⟨span, hspan⟩, hallow, hsort⟩
    simp only [hallow, Bool.not_true, Bool.false_eq_true, if_false]
    exact ⟨_, Except.bind_eq_ok.2 ⟨(), hsort, Except.bind_eq_ok.2 ⟨span, hspan, rfl⟩⟩⟩

theorem exists_compileTotals_iff {r : Restriction} {outputs : Outputs} :
    (∃ c, p.compileTotals r outputs = .ok c) ↔
      (∃ span, r.span p.source.external = .ok span) ∧ p.nestedPatterns.isEmpty := by
  constructor
  · rintro ⟨c, h⟩
    obtain ⟨hnested, span, hspan, -⟩ := compileTotals_eq_ok h
    exact ⟨⟨span, hspan⟩, List.isEmpty_iff.2 hnested⟩
  · rintro ⟨⟨span, hspan⟩, hnested⟩
    unfold compileTotals
    simp only [hnested, Bool.not_true, Bool.false_eq_true, if_false]
    exact ⟨_, Except.bind_eq_ok.2 ⟨span, hspan, rfl⟩⟩

theorem exists_compileGroups_iff {r : Restriction} {outputs : Outputs} {split : SplitKey} :
    (∃ c, p.compileGroups limits r outputs split = .ok c) ↔
      (∃ span, r.span p.source.external = .ok span) ∧
        (∃ grouping, Grouping.ofSplit p.source.external split = .ok grouping) ∧
        p.checkGroupSort split = .ok () := by
  constructor
  · rintro ⟨c, h⟩
    obtain ⟨grouping, span, hgrouping, hsort, hspan, -⟩ := compileGroups_eq_ok h
    exact ⟨⟨span, hspan⟩, ⟨grouping, hgrouping⟩, hsort⟩
  · rintro ⟨⟨span, hspan⟩, ⟨grouping, hgrouping⟩, hsort⟩
    exact ⟨_, Except.bind_eq_ok.2 ⟨grouping, hgrouping, Except.bind_eq_ok.2 ⟨(), hsort,
      Except.bind_eq_ok.2 ⟨span, hspan, rfl⟩⟩⟩⟩

/-- **The patterns that compile** are the well-shaped ones whose rows can be asked for. -/
theorem exists_compile_iff :
    (∃ c, p.compile limits = .ok c) ↔ p.source.IsQueryable ∧ p.IsWellShaped := by
  have hqueryable : p.source.IsQueryable ∧ p.IsWellShaped ↔
      ∃ r, Restriction.ofCondition p.source.external p.source.filter = .ok r ∧
        (∃ span, r.span p.source.external = .ok span) ∧ p.IsWellShaped := by
    rw [Source.isQueryable_iff]
    constructor
    · rintro ⟨⟨r, span, hr, hspan⟩, hshape⟩
      exact ⟨r, hr, ⟨span, hspan⟩, hshape⟩
    · rintro ⟨r, hr, ⟨span, hspan⟩, hshape⟩
      exact ⟨⟨r, span, hr, hspan⟩, hshape⟩
  rw [hqueryable, compile, Except.exists_bind_eq_ok]
  refine exists_congr fun r => and_congr_right fun _ => ?_
  unfold IsWellShaped
  cases p.split with
  | some split =>
    simp only [Option.isNone_some, Bool.false_and, Bool.false_eq_true, if_false,
      Except.exists_bind_eq_ok, exists_compileGroups_iff, ← exists_and_right]
    tauto
  | none =>
    by_cases happlies : p.applies.isEmpty
    · simp only [happlies, Option.isNone_none, Bool.and_self, if_true, exists_compileRows_iff]
    · simp only [happlies, Option.isNone_none, Bool.and_false, Bool.false_eq_true, if_false,
        Except.exists_bind_eq_ok, exists_compileTotals_iff]
      tauto

/-- Whether a pattern is well-shaped does not depend on its filter. -/
theorem isWellShaped_source {s s' : Source} (h : s.external = s'.external) :
    { p with source := s }.IsWellShaped ↔ { p with source := s' }.IsWellShaped := by
  obtain ⟨x, filter⟩ := s
  obtain ⟨x', filter'⟩ := s'
  obtain rfl : x = x' := h
  rfl

/-- The conditions that a nested pattern adds to those of the outer pattern and the group. -/
def ownConjuncts (outer nested : Pattern) : List Expression :=
  match nested.source.filter with
  | none => []
  | some own => if outer.source.filter == some own then [] else own.conjuncts

theorem conjuncts_forGroup (outer nested : Pattern) (condition : Expression) :
    (outer.forGroup nested condition).source.conjuncts =
      outer.source.conjuncts ++ (condition.conjuncts ++ outer.ownConjuncts nested) := by
  unfold forGroup ownConjuncts
  cases nested.source.filter with
  | none => rw [Source.conjuncts_narrow, List.append_nil]
  | some own =>
    dsimp only
    split
    · rw [Source.conjuncts_narrow, List.append_nil]
    · rw [Source.conjuncts_narrow, Source.conjuncts_narrow, List.append_assoc]

variable {x : External} {split : SplitKey} {grouping : Grouping} {key : Value} {c : Compiled}

/-- Inside of a group that can be selected compiles what compiles outside of groups. -/
theorem exists_compile_forGroup {nested : Pattern} {condition : Expression}
    (hcondition : ∀ part ∈ condition.conjuncts, Restriction.Admits p.source.external part)
    (h : ∃ d, (p.forGroup nested (.literal (.boolean true))).compile limits = .ok d) :
    ∃ d, (p.forGroup nested condition).compile limits = .ok d := by
  rw [exists_compile_iff] at h ⊢
  obtain ⟨⟨hadmits, hbounded⟩, hshape⟩ := h
  rw [conjuncts_forGroup, forGroup_external] at hadmits hbounded
  simp only [List.forall_mem_append] at hadmits
  refine ⟨⟨?_, ?_⟩, ?_⟩
  · rw [conjuncts_forGroup, forGroup_external]
    simp only [List.forall_mem_append]
    exact ⟨hadmits.1, hcondition, hadmits.2.2⟩
  · rw [conjuncts_forGroup, forGroup_external]
    refine hbounded.imp_right ?_
    rintro ⟨part, hpart, hrange⟩
    refine ⟨part, ?_, hrange⟩
    simp only [List.mem_append] at hpart ⊢
    refine hpart.imp_right fun hpart => .inr (hpart.resolve_left fun htrivial => ?_)
    obtain rfl := List.mem_singleton.1 htrivial
    exact absurd hrange Bool.false_ne_true
  · have hexternal : (p.forGroup nested (.literal (.boolean true))).source.external =
        (p.forGroup nested condition).source.external := by
      rw [forGroup_external, forGroup_external]
    exact (isWellShaped_source (p := nested) hexternal).1 hshape

/-- Inside of a group that cannot be selected nothing compiles. -/
theorem compile_forGroup_error {nested : Pattern} {condition : Expression} {r : Restriction}
    (hr : Restriction.ofCondition p.source.external p.source.filter = .ok r)
    (hsingle : condition.conjuncts = [condition])
    (hrefused : ∀ state, ∃ fault, Restriction.addConjunct p.source.external state condition =
      .error (.unpushable condition fault)) :
    ∃ fault, (p.forGroup nested condition).compile limits =
      .error (.unpushable condition fault) := by
  rw [Source.ofCondition_filter] at hr
  obtain ⟨state, hstate, -⟩ := Except.bind_eq_ok.1 hr
  obtain ⟨fault, hfault⟩ := hrefused state
  refine ⟨fault, Except.bind_eq_error.2 (.inl ?_)⟩
  rw [Source.ofCondition_filter, conjuncts_forGroup, forGroup_external, hsingle,
    List.singleton_append, List.foldlM_append, hstate]
  refine Except.bind_eq_error.2 (.inl (Except.bind_eq_error.2 (.inr ⟨state, rfl, ?_⟩)))
  rw [List.foldlM_cons, hfault]
  rfl

/-- **Selecting groups again.** Take rows grouped by what a split asks for. A condition on a key is
accepted if and only if the groups can be selected, whatever the key is. When a pattern with such
groups has been compiled, every row of every reply has a key of a group. A nested pattern compiles
inside of the group if the groups can be selected and it compiles outside of groups, where it is
restricted by nothing but *true*. It does not compile if they cannot be selected, and the condition
on the key is to blame. -/
theorem compiles_in_groups (x : External) (split : SplitKey) (grouping : Grouping)
    (h : Grouping.ofSplit x split = .ok grouping) :
    (∀ key, grouping.IsKey key →
      ((∃ r, Restriction.ofCondition x (some (grouping.condition key)) = .ok r) ↔
        grouping.IsSelectable x)) ∧
    ∀ (p : Pattern) (limits : Limits) (c : Compiled), p.source.external = x →
      p.compile limits = .ok c → c.grouping = some grouping →
      (∀ items rows row, c.rows items = .ok rows → row ∈ rows →
        ∃ key, row.get? grouping.name = some key ∧ grouping.IsKey key) ∧
      ∀ (nested : Pattern) (key : Value), grouping.IsKey key →
        (grouping.IsSelectable x →
          (∃ d, (p.forGroup nested (.literal (.boolean true))).compile limits = .ok d) →
          ∃ d, (p.forGroup nested (grouping.condition key)).compile limits = .ok d) ∧
        (¬grouping.IsSelectable x →
          ∃ fault, (p.forGroup nested (grouping.condition key)).compile limits =
            .error (.unpushable (grouping.condition key) fault)) := by
  have hadmits {key : Value} (hkey : grouping.IsKey key) :
      (∀ part ∈ (grouping.condition key).conjuncts, Restriction.Admits x part) ↔
        grouping.IsSelectable x := by
    rw [grouping.conjuncts_condition, List.forall_mem_singleton]
    exact Grouping.admits_condition_iff h hkey
  refine ⟨fun key hkey => Restriction.exists_ofCondition_iff.trans (hadmits hkey), ?_⟩
  rintro p limits c rfl hcompile hgrouping
  refine ⟨fun items rows row hrows hrow => ?_, fun nested key hkey => ⟨fun hselectable => ?_,
    fun hselectable => ?_⟩⟩
  · exact Compiled.isKey_of_rows hgrouping (fits_of_compile hcompile hgrouping) hrows hrow
  · exact exists_compile_forGroup ((hadmits hkey).2 hselectable)
  · obtain ⟨r, hr, -⟩ := compile_eq_ok hcompile
    exact compile_forGroup_error hr (grouping.conjuncts_condition key)
      (Grouping.addConjunct_condition_error h hkey hselectable)

end Pattern

namespace Sample

/-- Edits of which it is known whether a robot has made them. -/
def flaggedEdits : External :=
  { edits with attributes := some (edits.columns ++ [.plain "isRobot" .boolean "STRING"]) }

/-- Edits by their languages. -/
def theirLanguages : Pattern :=
  ⟨.ofExternal flaggedEdits, "edits", some ⟨.ref "language", "language"⟩, [], none, none⟩

/-- The groups of edits by a column, and the languages of each of them. -/
def languagesBy (column : String) : Pattern :=
  ⟨.ofExternal flaggedEdits, "edits", some ⟨.ref column, column⟩,
    [("Languages", .nested theirLanguages)], none, none⟩

/-- The reply of a backend of which all edits are made by robots. -/
def robotReply : Reply := [.ok (.array [.object [("event", .object [("isRobot", .bool true)])]])]

/-- The row of the edits made by robots. -/
def robotRow : Row := [("isRobot", .boolean true)]

/-- The condition that an edit is made by a robot. -/
def byRobot : Expression := (Expression.ref "isRobot").eqTo (.literal (.boolean true))

/-- The row of the edits made by robots is given their languages. -/
def robotPart : Task Dataset :=
  robotRow.attach [("Languages",
    ((languagesBy "isRobot").forGroup theirLanguages byRobot).run .standard [robotRow])]

/-- The condition that an edit is one of the front page. -/
def byFront : Expression := (Expression.ref "page").eqTo (.literal (.string "Front"))

end Sample

namespace Pattern

open Sample in
/-- The front page is selected again, and its languages are asked for. -/
theorem compiles_in_groups_frontPage :
    Grouping.ofSplit flaggedEdits ⟨.ref "page", "page"⟩ = .ok (.dimension "page" "page") ∧
      ∃ c r d, (languagesBy "page").compile .standard = .ok c ∧
        c.grouping = some (.dimension "page" "page") ∧
        Restriction.ofCondition flaggedEdits (some byFront) = .ok r ∧
        ((languagesBy "page").forGroup theirLanguages byFront).compile .standard = .ok d := by
  have hsplit : Grouping.ofSplit flaggedEdits ⟨.ref "page", "page"⟩ =
      .ok (.dimension "page" "page") := rfl
  have hselectable : (Grouping.dimension "page" "page").IsSelectable flaggedEdits :=
    ⟨by decide, .plain "page" .string "STRING", rfl, by decide⟩
  have hkey : (Grouping.dimension "page" "page").IsKey (.string "Front") :=
    .cell "page" "page" (.string "Front")
  obtain ⟨c, hcompile, hgrouping⟩ : ∃ c, (languagesBy "page").compile .standard = .ok c ∧
      c.grouping = some (.dimension "page" "page") := ⟨_, rfl, rfl⟩
  obtain ⟨haccepted, hgroups⟩ := compiles_in_groups flaggedEdits _ _ hsplit
  obtain ⟨r, hr⟩ := (haccepted _ hkey).2 hselectable
  obtain ⟨-, hnested⟩ := hgroups _ .standard c rfl hcompile hgrouping
  obtain ⟨d, hd⟩ := (hnested theirLanguages _ hkey).1 hselectable ⟨_, rfl⟩
  exact ⟨hsplit, c, r, d, hcompile, hgrouping, hr, hd⟩

open Sample Activity in
/-- The edits are grouped by whether a robot has made them, which is asked of the backend. Then it
turns out that the robots cannot be selected. -/
theorem refused_in_groups : ∃ request fault,
    Runs false (.ready ((languagesBy "isRobot").run .standard [])) [(request, robotReply)]
      (.settled (.error (.compile (.unpushable byRobot fault)))) := by
  obtain ⟨request, next, hask, more, hjoin⟩ : ∃ request next,
      ((languagesBy "isRobot").run .standard []).heed false = .ask request next ∧
      ∃ more, (next robotReply).heed false = .join (.window Config.standard.width)
        [robotPart] more := by
    rw [Pattern.run_eq_fanOut]
    exact ⟨_, _, rfl, _, rfl⟩
  obtain ⟨fault, hfail⟩ : ∃ fault, robotPart.heed false =
      .fail (.compile (.unpushable byRobot fault)) := by
    rw [robotPart, Pattern.run]
    exact ⟨_, rfl⟩
  have hattached : Runs false (.ready robotPart) []
      (.settled (.error (.compile (.unpushable byRobot fault)))) := .quiet (.fail hfail) (.refl _)
  have hfails := hattached.part (.window Config.standard.width) [] [] [] [] more
  refine ⟨request, fault, .asked hask robotReply (.quiet (.window hjoin) ?_)⟩
  exact .quiet (.enter (by decide)) (hfails.trans (.quiet .windowFailed (.refl _)))

end Pattern

end FederatedQuery
