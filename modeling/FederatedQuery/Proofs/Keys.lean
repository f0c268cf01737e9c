import FederatedQuery.Proofs.Reselection
import FederatedQuery.Proofs.Shortest

/-!
# Groups by integers

The key of a group crosses four forms: an integer in the answer of the backend, a double among the
values of a row, a literal in the condition that selects the group, and a text in the native filter
of each nested query. Texts keep doubles apart, so two groups are told apart if and only if the
doubles nearest to their keys differ. Up to `2 ^ 53` every integer is a double, and its text is the
decimal of the integer. Beyond, the nested datasets of a group can be computed for the rows of
another group.

## Main definitions

* `Restriction.IsSelectedBy`: the conditions that become one filter.

## Main results

* `Pattern.filter_forGroup_inj`: nested queries differ by the filters of their groups.
* `Pattern.selectors_of_integers`: the selectors of groups by integers.
-/

namespace FederatedQuery

open Native

/-! ### Selectors in the filter of a query -/

namespace Native.Restriction

variable {x : External} {condition : Expression} {f : Filter}

/-- A condition is a single conjunct, and it is decided by a filter. -/
structure IsSelectedBy (x : External) (condition : Expression) (f : Filter) : Prop where
  conjuncts : condition.conjuncts = [condition]
  addConjunct (state : Option TimeRange × List Filter) :
    Restriction.addConjunct x state condition = .ok (state.1, state.2 ++ [f])

theorem IsSelectedBy.ofCondition (h : IsSelectedBy x condition f) :
    Restriction.ofCondition x (some condition) = .ok ⟨none, some f⟩ := by
  refine Except.bind_eq_ok.2 ⟨(none, [f]), ?_, rfl⟩
  rw [h.conjuncts, List.foldlM_cons, h.addConjunct]
  rfl

/-- What a conjunct adds does not depend on the filters before it. -/
theorem addConjunct_append (interval : Option TimeRange) (fs gs : List Filter) (part : Expression) :
    addConjunct x (interval, fs ++ gs) part =
      (addConjunct x (interval, gs) part).map fun state => (state.1, fs ++ state.2) := by
  unfold addConjunct
  split
  · rfl
  · split
    · rfl
    · cases filterOf x part with
      | error e => rfl
      | ok f => exact congrArg (fun hs => Except.ok (interval, hs)) (List.append_assoc fs gs [f])

theorem foldlM_addConjunct_append (parts : List Expression) (interval : Option TimeRange)
    (fs gs : List Filter) : parts.foldlM (addConjunct x) (interval, fs ++ gs) =
      (parts.foldlM (addConjunct x) (interval, gs)).map fun state => (state.1, fs ++ state.2) := by
  induction parts generalizing interval gs with
  | nil => rfl
  | cons part parts ih =>
    rw [List.foldlM_cons, List.foldlM_cons, addConjunct_append]
    cases addConjunct x (interval, gs) part with
    | error e => rfl
    | ok state => exact ih state.1 state.2

/-- A conjunction shows its filters, if it is known how many there are. -/
theorem conjunction_injective {fs gs : List Filter} (hlength : fs.length = gs.length)
    (h : conjunction fs = conjunction gs) : fs = gs := by
  match fs, gs with
  | [], [] => rfl
  | [f], [g] => exact congrArg (fun f => [f]) (Option.some.inj h)
  | _ :: _ :: _, _ :: _ :: _ => exact Filter.and.inj (Option.some.inj h)

end Native.Restriction

namespace Grouping

variable {x : External} {name d : String} {split : SplitKey}

/-- A group by an integer is selected by the text of the double nearest to the integer. -/
theorem filterOf_condition_int (h : ofSplit x split = .ok (.dimension name d))
    (hselectable : (Grouping.dimension name d).IsSelectable x) {i : Int}
    (hi : Json.isExact i = true) :
    filterOf x ((Grouping.dimension name d).condition (.ofCell (.int i))) =
      .ok (.selector d (some (Value.numberText (Float.ofInt i)))) := by
  obtain ⟨column, hcolumn, hsplit, hgrouping⟩ | ⟨period, hgrouping⟩ := ofSplit_cases h
  · obtain ⟨rfl, rfl⟩ := Grouping.dimension.inj hgrouping
    have hvalue : Expression.ofValue (.ofCell (.int i)) = .literal (.number (Float.ofInt i)) :=
      congrArg Expression.literal (if_pos (Double.isFinite_ofInt hi))
    exact filterOf_eq_ok_iff.2 (translates_condition hcolumn hsplit hselectable hvalue rfl)
  · cases hgrouping

theorem isSelectedBy_int (h : ofSplit x split = .ok (.dimension name d))
    (hselectable : (Grouping.dimension name d).IsSelectable x) {i : Int}
    (hi : Json.isExact i = true) :
    Restriction.IsSelectedBy x ((Grouping.dimension name d).condition (.ofCell (.int i)))
      (.selector d (some (Value.numberText (Float.ofInt i)))) where
  conjuncts := conjuncts_condition _ _
  addConjunct state := by
    change Except.map _ (filterOf x _) = _
    rw [filterOf_condition_int h hselectable hi]
    rfl

end Grouping

/-- The key of a decoded group is its decoded cell. -/
theorem Compiled.get?_decode_cell {c : Compiled} {name d : String}
    (hgrouping : c.grouping = some (.dimension name d)) {g : NativeGroup} {cell : Json}
    (hg : g.record.lookup name = some cell) : (c.decode g).get? name = some (.ofCell cell) := by
  refine (c.get?_decode_key hgrouping nofun).trans ?_
  change some (recordCell g.record name) = _
  rw [recordCell, hg]

namespace Pattern

variable {p : Pattern} {limits : Limits} {c : Compiled} {name d : String}

/-- The filter of a compiled query is that of the conditions on the rows. -/
theorem filter_of_compile (h : p.compile limits = .ok c) :
    ∃ state, p.source.conjuncts.foldlM (Restriction.addConjunct p.source.external) (none, []) =
      .ok state ∧ c.query.filter = Restriction.conjunction state.2 := by
  obtain ⟨r, hr, hrest⟩ := compile_eq_ok h
  rw [Source.ofCondition_filter] at hr
  obtain ⟨state, hstate, hr⟩ := Except.bind_eq_ok.1 hr
  obtain rfl := Except.ok.inj hr
  refine ⟨state, hstate, ?_⟩
  obtain ⟨-, -, hrows⟩ | ⟨outputs, -, -, htotals⟩ | ⟨outputs, split, -, -, hgroups⟩ := hrest
  · obtain ⟨span, -, rfl⟩ := compileRows_eq_ok hrows
    rfl
  · obtain ⟨-, span, -, rfl⟩ := compileTotals_eq_ok htotals
    rfl
  · obtain ⟨grouping, span, -, -, -, rfl⟩ := compileGroups_eq_ok hgroups
    rfl

/-- The grouping of a compiled pattern is that of its split. -/
theorem ofSplit_of_compile {grouping : Grouping} (h : p.compile limits = .ok c)
    (hgrouping : c.grouping = some grouping) :
    ∃ split, Grouping.ofSplit p.source.external split = .ok grouping := by
  obtain ⟨r, -, hrest⟩ := compile_eq_ok h
  obtain ⟨-, -, hrows⟩ | ⟨outputs, -, -, htotals⟩ | ⟨outputs, split, -, -, hgroups⟩ := hrest
  · obtain ⟨span, -, rfl⟩ := compileRows_eq_ok hrows
    exact nomatch hgrouping
  · obtain ⟨-, span, -, rfl⟩ := compileTotals_eq_ok htotals
    exact nomatch hgrouping
  · obtain ⟨other, span, hsplit, -, -, rfl⟩ := compileGroups_eq_ok hgroups
    obtain rfl := Option.some.inj hgrouping
    exact ⟨split, hsplit⟩

/-- The filter of a nested query has the filter of its group between the filters of the outer query
and those of its own conditions. -/
theorem filter_forGroup {nested : Pattern} {condition : Expression} {f : Filter} {s : Compiled}
    (hcondition : Restriction.IsSelectedBy p.source.external condition f)
    (h : (p.forGroup nested condition).compile limits = .ok s) :
    ∃ outer own, p.source.conjuncts.foldlM (Restriction.addConjunct p.source.external) (none, []) =
        .ok outer ∧
      (p.ownConjuncts nested).foldlM (Restriction.addConjunct p.source.external) (outer.1, []) =
        .ok own ∧
      s.query.filter = Restriction.conjunction (outer.2 ++ [f] ++ own.2) := by
  obtain ⟨state, hstate, hfilter⟩ := filter_of_compile h
  rw [conjuncts_forGroup, forGroup_external, hcondition.conjuncts, List.singleton_append,
    List.foldlM_append] at hstate
  obtain ⟨outer, houter, hstate⟩ := Except.bind_eq_ok.1 hstate
  rw [List.foldlM_cons, hcondition.addConjunct] at hstate
  have hown := Restriction.foldlM_addConjunct_append (x := p.source.external)
    (p.ownConjuncts nested) outer.1 (outer.2 ++ [f]) []
  rw [List.append_nil] at hown
  obtain ⟨own, hownstate, rfl⟩ := Except.map_eq_ok.1 (hown.symm.trans hstate)
  exact ⟨outer, own, houter, hownstate, hfilter⟩

/-- Nested queries of different groups have different filters. -/
theorem filter_forGroup_inj {nested : Pattern} {condition condition' : Expression} {f f' : Filter}
    {s s' : Compiled} (hcondition : Restriction.IsSelectedBy p.source.external condition f)
    (hcondition' : Restriction.IsSelectedBy p.source.external condition' f')
    (h : (p.forGroup nested condition).compile limits = .ok s)
    (h' : (p.forGroup nested condition').compile limits = .ok s')
    (hquery : s.query.filter = s'.query.filter) : f = f' := by
  obtain ⟨outer, own, houter, hown, hfilter⟩ := filter_forGroup hcondition h
  obtain ⟨outer', own', houter', hown', hfilter'⟩ := filter_forGroup hcondition' h'
  obtain rfl := Except.ok.inj (houter.symm.trans houter')
  obtain rfl := Except.ok.inj (hown.symm.trans hown')
  rw [hfilter, hfilter'] at hquery
  have hlists := Restriction.conjunction_injective (by simp) hquery
  simpa using hlists

/-- **Groups by integers.** Take two groups with integers of 64 bits as keys, by a dimension whose
groups can be selected. Each of them is selected by a text, and so are its rows in every nested
query. The texts are equal if and only if the doubles nearest to the integers are equal, and the
nested queries are equal if and only if they are. An integer up to `2 ^ 53` is selected by its own
decimal, so different integers of this size are told apart. -/
theorem selectors_of_integers (hcompile : p.compile limits = .ok c)
    (hgrouping : c.grouping = some (.dimension name d))
    (hselectable : (Grouping.dimension name d).IsSelectable p.source.external)
    {g g' : NativeGroup} {i j : Int} (hi : Json.isExact i = true) (hj : Json.isExact j = true)
    (hg : g.record.lookup name = some (.int i)) (hg' : g'.record.lookup name = some (.int j)) :
    ∃ key key' text text', (c.decode g).get? name = some key ∧
      (c.decode g').get? name = some key' ∧
      Restriction.ofCondition p.source.external
        (some ((Grouping.dimension name d).condition key)) =
          .ok ⟨none, some (.selector d (some text))⟩ ∧
      Restriction.ofCondition p.source.external
        (some ((Grouping.dimension name d).condition key')) =
          .ok ⟨none, some (.selector d (some text'))⟩ ∧
      (text = text' ↔ Float.ofInt i = Float.ofInt j) ∧
      (∀ (nested : Pattern) (s s' : Compiled),
        (p.forGroup nested ((Grouping.dimension name d).condition key)).compile limits = .ok s →
        (p.forGroup nested ((Grouping.dimension name d).condition key')).compile limits = .ok s' →
        (s.query = s'.query ↔ Float.ofInt i = Float.ofInt j)) ∧
      (i.natAbs ≤ 2 ^ 53 → text = String.ofList (Text.signed i)) ∧
      (j.natAbs ≤ 2 ^ 53 → text' = String.ofList (Text.signed j)) ∧
      (i.natAbs ≤ 2 ^ 53 → j.natAbs ≤ 2 ^ 53 → i ≠ j → text ≠ text') := by
  obtain ⟨split, hsplit⟩ := ofSplit_of_compile hcompile hgrouping
  have hselected := Grouping.isSelectedBy_int hsplit hselectable hi
  have hselected' := Grouping.isSelectedBy_int hsplit hselectable hj
  have htexts : Value.numberText (Float.ofInt i) = Value.numberText (Float.ofInt j) ↔
      Float.ofInt i = Float.ofInt j :=
    ⟨Decimal.Layout.plain_injective (Double.isFinite_ofInt hi) (Double.isFinite_ofInt hj),
      congrArg Value.numberText⟩
  refine ⟨_, _, _, _, Compiled.get?_decode_cell hgrouping hg,
    Compiled.get?_decode_cell hgrouping hg', hselected.ofCondition, hselected'.ofCondition,
    htexts, ?_, Decimal.Layout.plain_write_ofInt, Decimal.Layout.plain_write_ofInt, ?_⟩
  · intro nested s s' hs hs'
    constructor
    · intro hquery
      have hfilter :=
        filter_forGroup_inj hselected hselected' hs hs' (congrArg Query.filter hquery)
      exact htexts.1 (Option.some.inj (Filter.selector.inj hfilter).2)
    · intro hdoubles
      have hcells : Value.ofCell (.int i) = .ofCell (.int j) := congrArg Value.number hdoubles
      rw [hcells] at hs
      rw [Except.ok.inj (hs.symm.trans hs')]
  · intro hsmall hsmall' hne htext
    rw [Value.numberText, Value.numberText, Decimal.Layout.plain_write_ofInt hsmall,
      Decimal.Layout.plain_write_ofInt hsmall', String.ofList_inj] at htext
    exact hne (Text.signed_injective htext)

end Pattern

namespace Sample

/-- The edits with a number of added characters. -/
def addedGroup (n : Int) : NativeGroup := ⟨.null, [("added", .int n)]⟩

theorem lookup_addedGroup (n : Int) : (addedGroup n).record.lookup "added" = some (.int n) := rfl

theorem ofSplit_added : Grouping.ofSplit flaggedEdits ⟨.ref "added", "added"⟩ =
    .ok (.dimension "added" "added") := rfl

theorem isSelectable_added : (Grouping.dimension "added" "added").IsSelectable flaggedEdits :=
  ⟨by decide, .plain "added" .number "LONG", rfl, by decide⟩

end Sample

namespace Pattern

open Sample in
/-- The languages of the pages with seven characters less, and of those with twelve more. -/
theorem selectors_of_integers_added : ∃ c,
    (languagesBy "added").compile .standard = .ok c ∧
      c.grouping = some (.dimension "added" "added") ∧
      Json.isExact (-7) = true ∧ Json.isExact 12 = true ∧
      ∃ key key' s s', (c.decode (addedGroup (-7))).get? "added" = some key ∧
        (c.decode (addedGroup 12)).get? "added" = some key' ∧
        Restriction.ofCondition flaggedEdits
          (some ((Grouping.dimension "added" "added").condition key)) =
            .ok ⟨none, some (.selector "added" (some "-7"))⟩ ∧
        Restriction.ofCondition flaggedEdits
          (some ((Grouping.dimension "added" "added").condition key')) =
            .ok ⟨none, some (.selector "added" (some "12"))⟩ ∧
        ((languagesBy "added").forGroup theirLanguages
          ((Grouping.dimension "added" "added").condition key)).compile .standard = .ok s ∧
        ((languagesBy "added").forGroup theirLanguages
          ((Grouping.dimension "added" "added").condition key')).compile .standard = .ok s' ∧
        s.query ≠ s'.query := by
  obtain ⟨c, hcompile, hgrouping⟩ : ∃ c, (languagesBy "added").compile .standard = .ok c ∧
      c.grouping = some (.dimension "added" "added") := ⟨_, rfl, rfl⟩
  obtain ⟨key, key', text, text', hkey, hkey', hselector, hselector', htexts, hqueries, htext,
      htext', hne⟩ :=
    selectors_of_integers hcompile hgrouping isSelectable_added (by decide) (by decide)
      (lookup_addedGroup (-7)) (lookup_addedGroup 12)
  have hcompiles {n : Int} {key : Value}
      (h : (c.decode (addedGroup n)).get? "added" = some key) :
      ∃ s, ((languagesBy "added").forGroup theirLanguages
        ((Grouping.dimension "added" "added").condition key)).compile .standard = .ok s := by
    obtain rfl : Value.ofCell (.int n) = key :=
      Option.some.inj ((Compiled.get?_decode_cell hgrouping (lookup_addedGroup n)).symm.trans h)
    refine exists_compile_forGroup ?_ ⟨_, rfl⟩
    rw [Grouping.conjuncts_condition, List.forall_mem_singleton]
    exact (Grouping.admits_condition_iff ofSplit_added (.cell _ _ _)).2 isSelectable_added
  obtain ⟨s, hs⟩ := hcompiles hkey
  obtain ⟨s', hs'⟩ := hcompiles hkey'
  obtain rfl : text = "-7" := htext (by decide)
  obtain rfl : text' = "12" := htext' (by decide)
  refine ⟨c, hcompile, hgrouping, by decide, by decide, key, key', s, s', hkey, hkey', hselector,
    hselector', hs, hs', fun hquery => ?_⟩
  exact absurd (htexts.2 ((hqueries _ _ _ hs hs').1 hquery)) (by decide)

open Sample in
/-- Beyond `2 ^ 53` two groups have the same selector, and the text in it is the decimal of one of
their keys only. -/
theorem selectors_coincide : ∃ c key key' text,
    (languagesBy "added").compile .standard = .ok c ∧
      c.grouping = some (.dimension "added" "added") ∧
      (c.decode (addedGroup 9007199254740993)).get? "added" = some key ∧
      (c.decode (addedGroup 9007199254740992)).get? "added" = some key' ∧
      Restriction.ofCondition flaggedEdits
        (some ((Grouping.dimension "added" "added").condition key)) =
          .ok ⟨none, some (.selector "added" (some text))⟩ ∧
      Restriction.ofCondition flaggedEdits
        (some ((Grouping.dimension "added" "added").condition key')) =
          .ok ⟨none, some (.selector "added" (some text))⟩ ∧
      text ≠ String.ofList (Text.signed 9007199254740993) := by
  obtain ⟨c, hcompile, hgrouping⟩ : ∃ c, (languagesBy "added").compile .standard = .ok c ∧
      c.grouping = some (.dimension "added" "added") := ⟨_, rfl, rfl⟩
  have htext : Value.numberText (Float.ofInt 9007199254740993) =
      Value.numberText (Float.ofInt 9007199254740992) := by decide +kernel
  refine ⟨c, _, _, _, hcompile, hgrouping,
    Compiled.get?_decode_cell hgrouping (lookup_addedGroup 9007199254740993),
    Compiled.get?_decode_cell hgrouping (lookup_addedGroup 9007199254740992),
    (Grouping.isSelectedBy_int ofSplit_added isSelectable_added (by decide)).ofCondition, ?_, ?_⟩
  · rw [htext]
    exact (Grouping.isSelectedBy_int ofSplit_added isSelectable_added (by decide)).ofCondition
  · decide +kernel

end Pattern

end FederatedQuery
