import FederatedQuery.Proofs.Performing

/-!
# Pipelines in phases

The steps of a pipeline are carried out in three phases: all queries for totals, then all derived
values in their order, then all queries for datasets. What a step sees is thus not what its results
would see if the applies were performed one after the other. This file states when a step sees
enough of the row nevertheless, and shows that a pipeline computes the row of its applies if all
steps do, and fails otherwise.

## Main definitions

* `Pattern.Delivers`: queries for totals that backends answer with given values.
* `Step.SeesEnough`: steps that see enough of the row.

## Main results

* `Step.Performed.run_totals`: one query for totals.
* `run_totals`, `derive_eq_ok`, `run_datasets`: the three phases.
* `Pipeline.Performed.run_eq_ok`: whole pipelines.
-/

namespace FederatedQuery

open Plan

/-! ### What steps see -/

section

variable (answer : Request → Reply) (config : Config) (natives : Natives)

/-- The backend answers the query for the totals of a pattern; the first row of the answer holds
the values of the aggregates in its results. -/
def Pattern.Delivers (p : Pattern) : Prop :=
  ∃ c first others, p.Fetches answer config c (first :: others) ∧
    c.columns.map first.get? = (p.applies.flatMap fun a => natives p.source a.1).map some

/-- A step of a pipeline sees enough of the final row of the pipeline at the time when it is carried
out. A query for totals sees the seed, and each of its results the other ones; all rows of its
answer have to be finished, although only the first one counts. A derived value sees what is no
dataset, and so does a dataset. -/
def Step.SeesEnough (seed row : Row) (datasets : List String) : Step → Prop
  | .totals pattern =>
    (∀ name e, (name, .scalar e) ∈ pattern.applies →
      (e.value? (natives pattern.source name)
        [row.only (pattern.applies.map Prod.fst), seed]).isSome) ∧
    ∀ c first others, pattern.Fetches answer config c (first :: others) →
      ∀ other ∈ others, ∃ d, other.derive [seed] c.finish.derived = .ok d
  | .derived _ e => ∃ v, e.evaluate [row.without datasets] = .ok v
  | .dataset _ pattern =>
    ∃ rows, (pattern.run config [row.without datasets]).run answer = .ok rows

end

variable {answer : Request → Reply} {config : Config} {natives : Natives} {seed : Row}
  {value : String → Value} {names : List String}

/-- The rows that a pattern fetches are determined. -/
theorem Pattern.Fetches.unique {p : Pattern} {c c' : Compiled} {rows rows' : List Row}
    (h : p.Fetches answer config c rows) (h' : p.Fetches answer config c' rows') :
    c = c' ∧ rows = rows' := by
  obtain rfl := Except.ok.inj (h.compiled.symm.trans h'.compiled)
  exact ⟨rfl, Except.ok.inj (h.fetched.symm.trans h'.fetched)⟩

/-! ### Totals -/

/-- A query for totals succeeds in its phase if it sees enough; the first row of its answer then
has the values of its results. -/
theorem Step.Performed.run_totals {pattern : Pattern} (htakes : seed.Takes names)
    (hperformed : (Step.totals pattern).Performed answer config natives seed value names)
    (hdelivers : pattern.Delivers answer config natives) (datasets : List String) :
    ((∃ rows, (pattern.run config [seed]).run answer = .ok rows) ↔
        (Step.totals pattern).SeesEnough answer config natives seed
          (Row.write value seed names) datasets) ∧
      ∀ rows, (pattern.run config [seed]).run answer = .ok rows → ∃ head tail,
        rows = head :: tail ∧ head.IsSorted ∧ ∀ n, head.get? n =
          if n ∈ pattern.applies.map Prod.fst then some (value n) else none := by
  obtain ⟨dataName, applies, hne, hpattern, hsublist, hvalues⟩ := hperformed
  obtain ⟨source, rfl⟩ : ∃ source, pattern = .scalars source dataName applies := ⟨_, hpattern⟩
  obtain ⟨c, first, others, hfetches, hnatives⟩ := hdelivers
  have hnames : (Pattern.scalars source dataName applies).applies.map Prod.fst =
      applies.map Prod.fst := by
    rw [Pattern.scalars, List.map_map]
    rfl
  have hmem (name : String) (e : Expression) :
      (name, Body.scalar e) ∈ (Pattern.scalars source dataName applies).applies ↔
        (name, e) ∈ applies := by
    rw [Pattern.scalars, List.mem_map]
    constructor
    · rintro ⟨a, ha, ⟨⟩⟩
      exact ha
    · intro h
      exact ⟨_, h, rfl⟩
  have hnatives : c.columns.map first.get? =
      (applies.flatMap fun a => natives source a.1).map some := by
    rw [hnatives, Pattern.scalars, List.flatMap_map]
  have haround (n : String) : Scope.lookup?
      [(Row.write value seed names).only (applies.map Prod.fst), seed] n =
        if n ∈ applies.map Prod.fst then some (value n) else seed.get? n := by
    rw [Scope.lookup?_pair, Row.get?_only, Row.get?_write]
    split
    · next hn => rw [if_pos (hsublist.subset hn), Option.some_or]
    · rw [Option.none_or]
  obtain ⟨hiff, hend⟩ := Pattern.run_scalars htakes hsublist haround hne hfetches hnatives hvalues
  rw [hnames]
  refine ⟨hiff.trans ?_, hend⟩
  rw [SeesEnough, hnames]
  refine and_congr ⟨fun h name e ha => h (name, e) ((hmem name e).1 ha),
    fun h a ha => h a.1 a.2 ((hmem a.1 a.2).2 ha)⟩ ⟨?_, fun h => h c first others hfetches⟩
  rintro h c' first' others' hfetches'
  obtain ⟨rfl, hrows⟩ := hfetches.unique hfetches'
  obtain ⟨-, rfl⟩ := List.cons.inj hrows
  exact h

/-- All queries for totals succeed if each of them sees enough. They then write the values of
their results. -/
theorem run_totals (htakes : seed.Takes names) {patterns : List Pattern}
    (hperformed : ∀ pattern ∈ patterns,
      (Step.totals pattern).Performed answer config natives seed value names)
    (hdelivers : ∀ pattern ∈ patterns, pattern.Delivers answer config natives)
    (datasets : List String) :
    ((∃ answers, patterns.mapM (fun pattern => (pattern.run config [seed]).run answer) =
        .ok answers) ↔
        ∀ pattern ∈ patterns, (Step.totals pattern).SeesEnough answer config natives seed
          (Row.write value seed names) datasets) ∧
      ∀ answers, patterns.mapM (fun pattern => (pattern.run config [seed]).run answer) =
        .ok answers → ∀ row : Row, addTotals row answers =
          Row.write value row (patterns.flatMap fun pattern => pattern.applies.map Prod.fst) := by
  constructor
  · rw [Except.exists_mapM_eq_ok]
    exact forall₂_congr fun pattern hpattern =>
      ((hperformed pattern hpattern).run_totals htakes (hdelivers pattern hpattern) datasets).1
  · intro answers hanswers row
    induction Except.mapM_eq_ok.1 hanswers generalizing row with
    | nil => rfl
    | @cons pattern rows patterns answers hrows hrest ih =>
      obtain ⟨hfirst, hpatterns⟩ := List.forall_mem_cons.1 hperformed
      obtain ⟨hdelivers, hdeliver⟩ := List.forall_mem_cons.1 hdelivers
      obtain ⟨head, tail, rfl, hsorted, hcells⟩ := (hfirst.run_totals htakes hdelivers
        datasets).2 rows hrows
      have hextend := Row.extend_eq_write hsorted hcells row
      rw [List.flatMap_cons, Row.write_append, ← hextend]
      exact ih hpatterns hdeliver (Except.mapM_eq_ok.2 hrest) _

/-! ### Derived values and datasets -/

section

variable {all totals datasets : List String} {around : Scope}

/-- The row with some results, among those that are no datasets. -/
theorem Row.Takes.holds (htakes : seed.Takes names) (hall : all ⊆ names) {done : List String}
    (hdone : done ⊆ all) :
    Scope.Holds [Row.write value seed done] seed value names all done where
  done n hn := by rw [Scope.lookup?_singleton, Row.get?_write, if_pos hn]
  missing n hn hmem := by
    rw [Scope.lookup?_singleton, Row.get?_write, if_neg fun h => hmem (hdone h), htakes.new n hn]
  seed n v h := by
    have hn : n ∉ done := fun hn => nomatch (htakes.new n (hall (hdone hn))).symm.trans h
    rw [Scope.lookup?_singleton, Row.get?_write, if_neg hn, h]

/-- The derived values, computed in order after the totals, write the values of their results if
each of them can be computed around all totals and derived values. -/
theorem derive_eq_ok (htakes : seed.Takes names) (hall : all ⊆ names)
    (haround : ∀ n, around.lookup? n = if n ∈ all then some (value n) else seed.get? n)
    {derived : List (String × Expression)} {done : List String}
    (hsublist : (done ++ derived.map Prod.fst).Sublist names)
    (hmem : ∀ n, n ∈ all ↔ n ∈ totals ++ (done ++ derived.map Prod.fst))
    (hvalues : ∀ a ∈ derived,
      a.2.evaluate [Row.write value seed (before names a.1)] = .ok (value a.1)) (row : Row) :
    (Row.write value seed (totals ++ done)).derive [] derived = .ok row ↔
      row = Row.write value seed (totals ++ (done ++ derived.map Prod.fst)) ∧
        ∀ a ∈ derived, ∃ v, a.2.evaluate around = .ok v := by
  induction derived generalizing done with
  | nil =>
    rw [List.map_nil, List.append_nil]
    constructor
    · rintro ⟨⟩
      exact ⟨rfl, nofun⟩
    · rintro ⟨rfl, -⟩
      rfl
  | cons a derived ih =>
    obtain ⟨name, e⟩ := a
    obtain ⟨hvalue, hvalues⟩ := List.forall_mem_cons.1 hvalues
    rw [List.map_cons] at hsublist hmem
    have hdone : totals ++ done ⊆ all := fun n hn => (hmem n).2 <|
      (List.mem_append.1 hn).elim (fun h => List.mem_append_left _ h) fun h =>
        List.mem_append_right _ (List.mem_append_left _ h)
    have hbefore : ∀ n ∈ all, n ∈ before names name → n ∈ totals ++ done := by
      intro n hn hbefore
      obtain hn | hn := List.mem_append.1 ((hmem n).1 hn)
      · exact List.mem_append_left _ hn
      · exact List.mem_append_right _ (mem_of_mem_before htakes.nodup hsublist hn hbefore)
    have hstep := (htakes.holds hall hdone).evaluate_iff htakes hall haround hbefore hvalue
    rw [List.append_cons] at hsublist hmem
    have hrest := ih hsublist hmem hvalues
    have hput : (Row.write value seed (totals ++ done)).put name (value name) =
        Row.write value seed (totals ++ (done ++ [name])) := by
      rw [← List.append_assoc, Row.write_append _ (totals ++ done)]
      rfl
    rw [Row.derive_cons, Except.bind_eq_ok, List.forall_mem_cons, List.map_cons, List.append_cons]
    constructor
    · rintro ⟨v, hv, hderive⟩
      obtain ⟨rfl, hsome⟩ := (hstep v).1 hv
      rw [hput] at hderive
      obtain ⟨hrow, hothers⟩ := hrest.1 hderive
      exact ⟨hrow, hsome, hothers⟩
    · rintro ⟨hrow, hsome, hothers⟩
      refine ⟨value name, (hstep _).2 ⟨rfl, hsome⟩, ?_⟩
      rw [hput]
      exact hrest.2 ⟨hrow, hothers⟩

/-- All queries for datasets succeed if each of them does around all totals and derived values.
They then have the values of their results. -/
theorem run_datasets (htakes : seed.Takes names) (hall : all ⊆ names) {row : Row}
    (hrow : ∀ n, row.get? n = if n ∈ all then some (value n) else seed.get? n)
    (haround : ∀ n, around.lookup? n = if n ∈ all then some (value n) else seed.get? n)
    {entries : List (String × Pattern)}
    (hperformed : ∀ entry ∈ entries,
      (Step.dataset entry.1 entry.2).Performed answer config natives seed value names) :
    ((∃ answers, entries.mapM (fun entry => (entry.2.run config [row]).run answer) =
        .ok answers) ↔
        ∀ entry ∈ entries, ∃ rows, (entry.2.run config around).run answer = .ok rows) ∧
      ∀ answers, entries.mapM (fun entry => (entry.2.run config [row]).run answer) =
        .ok answers → (entries.map Prod.fst).zip (answers.map Value.dataset) =
          (entries.map Prod.fst).map fun n => (n, value n) := by
  have hlookup (n : String) : Scope.lookup? [row] n = around.lookup? n := by
    rw [Scope.lookup?_singleton, hrow, haround]
  have hholds : Scope.Holds [row] seed value names all all := by
    refine ⟨fun n hn => ?_, fun n hn hmem => ?_, fun n v h => ?_⟩
    · rw [hlookup, haround, if_pos hn]
    · rw [hlookup, haround, if_neg hmem, htakes.new n hn]
    · have hn : n ∉ all := fun hn => nomatch (htakes.new n (hall hn)).symm.trans h
      rw [hlookup, haround, if_neg hn, h]
  have hcovers {a b : Scope} (h : ∀ n, a.lookup? n = b.lookup? n) : b.Covers a a :=
    fun n v w hv hw => ⟨Option.some.inj (hv.symm.trans hw), (h n).symm.trans hv⟩
  constructor
  · rw [Except.exists_mapM_eq_ok]
    refine forall₂_congr fun entry _ => ⟨?_, ?_⟩
    · rintro ⟨rows, hrows⟩
      exact ⟨rows, ((Pattern.run_meets (hcovers hlookup) entry.2 config).ok hrows hrows).2⟩
    · rintro ⟨rows, hrows⟩
      exact ⟨rows, ((Pattern.run_meets (hcovers fun n => (hlookup n).symm) entry.2 config).ok
        hrows hrows).2⟩
  · intro answers hanswers
    induction Except.mapM_eq_ok.1 hanswers with
    | nil => rfl
    | @cons entry rows entries answers hrows hrest ih =>
      obtain ⟨⟨-, others, hvalue, hothers⟩, hentries⟩ := List.forall_mem_cons.1 hperformed
      have hcovers : around.Covers [row] [Row.write value seed (before names entry.1)] :=
        (hholds.covers htakes hall haround fun n hn _ => hn).1
      obtain ⟨rfl, -⟩ := (Pattern.run_meets hcovers entry.2 config).ok hrows hothers
      rw [List.map_cons, List.map_cons, List.zip_cons_cons, List.map_cons, hvalue,
        ih hentries (Except.mapM_eq_ok.2 hrest)]

end

/-! ### Whole pipelines -/

/-- The steps of a pipeline succeed if the three phases do, one after the other. -/
theorem Plan.run_runSteps_eq_ok {steps : List Step} {rows : Dataset} :
    (runSteps config seed steps).run answer = .ok rows ↔ ∃ answers row datasets,
      (steps.filterMap Step.totals?).mapM
        (fun pattern => (pattern.run config [seed]).run answer) = .ok answers ∧
      (addTotals seed answers).derive [] (steps.filterMap Step.derived?) = .ok row ∧
      (steps.filterMap Step.dataset?).mapM
        (fun entry => (entry.2.run config [row]).run answer) = .ok datasets ∧
      rows = [row.extend ((datasetNames steps).zip (datasets.map Value.dataset))] := by
  rw [runSteps, Task.together, Task.run_join, List.mapM_map, Except.bind_eq_ok]
  refine exists_congr fun answers => ?_
  simp only [exists_and_left]
  refine and_congr_right fun _ => ?_
  cases (addTotals seed answers).derive [] (steps.filterMap Step.derived?) with
  | error error =>
    constructor
    · rintro ⟨⟩
    · rintro ⟨row, ⟨⟩, -⟩
  | ok row =>
    simp only [Except.ok.injEq, exists_eq_left', Task.together, Task.run_join, List.mapM_map,
      Except.bind_eq_ok, Task.run]
    refine exists_congr fun datasets => and_congr_right fun _ => ?_
    exact eq_comm

theorem mem_totals {steps : List Step} {pattern : Pattern} :
    pattern ∈ steps.filterMap Step.totals? ↔ Step.totals pattern ∈ steps := by
  rw [List.mem_filterMap]
  constructor
  · rintro ⟨_ | _ | _, hstep, ⟨⟩⟩
    exact hstep
  · intro h
    exact ⟨_, h, rfl⟩

theorem mem_derived {steps : List Step} {entry : String × Expression} :
    entry ∈ steps.filterMap Step.derived? ↔ Step.derived entry.1 entry.2 ∈ steps := by
  rw [List.mem_filterMap]
  constructor
  · rintro ⟨_ | _ | _, hstep, ⟨⟩⟩
    exact hstep
  · intro h
    exact ⟨_, h, rfl⟩

theorem mem_datasets {steps : List Step} {entry : String × Pattern} :
    entry ∈ steps.filterMap Step.dataset? ↔ Step.dataset entry.1 entry.2 ∈ steps := by
  rw [List.mem_filterMap]
  constructor
  · rintro ⟨_ | _ | _, hstep, ⟨⟩⟩
    exact hstep
  · intro h
    exact ⟨_, h, rfl⟩

/-- What holds of all steps holds of those of each kind. -/
theorem forall_steps {steps : List Step} {P : Step → Prop} :
    (∀ step ∈ steps, P step) ↔ (∀ pattern ∈ steps.filterMap Step.totals?, P (.totals pattern)) ∧
      (∀ entry ∈ steps.filterMap Step.derived?, P (.derived entry.1 entry.2)) ∧
      ∀ entry ∈ steps.filterMap Step.dataset?, P (.dataset entry.1 entry.2) := by
  constructor
  · intro h
    exact ⟨fun _ hmem => h _ (mem_totals.1 hmem), fun _ hmem => h _ (mem_derived.1 hmem),
      fun _ hmem => h _ (mem_datasets.1 hmem)⟩
  · rintro ⟨htotals, hderived, hdatasets⟩ step hstep
    cases step with
    | totals pattern => exact htotals _ (mem_totals.2 hstep)
    | derived name e => exact hderived (name, e) (mem_derived.2 hstep)
    | dataset name pattern => exact hdatasets (name, pattern) (mem_datasets.2 hstep)

/-- **Whole pipelines.** Steps that compute the results of performed applies yield their row if
each of them sees enough of it, and fail otherwise. -/
theorem Pipeline.Performed.run_eq_ok {p : Pipeline} (htakes : seed.Takes names)
    (hperformed : p.Performed answer config natives seed value names)
    (hdelivers : ∀ pattern, .totals pattern ∈ p.steps →
      pattern.Delivers answer config natives) (rows : Dataset) :
    (runSteps config seed p.steps).run answer = .ok rows ↔
      rows = [Row.write value seed names] ∧ ∀ step ∈ p.steps,
        step.SeesEnough answer config natives seed (Row.write value seed names)
          (datasetNames p.steps) := by
  obtain ⟨hptotals, hpderived, hpdatasets⟩ := forall_steps.1 hperformed.steps
  have hnodup := hperformed.perm.nodup_iff.2 htakes.nodup
  have hmem (n : String) := hperformed.perm.mem_iff (a := n)
  rw [← List.append_assoc] at hnodup hmem
  have hdisjoint := (List.nodup_append.1 hnodup).2.2
  have hall : totalNames p.steps ++ derivedNames p.steps ⊆ names := fun n hn =>
    (hmem n).1 (List.mem_append_left _ hn)
  have haround (n : String) :
      Scope.lookup? [(Row.write value seed names).without (datasetNames p.steps)] n =
        if n ∈ totalNames p.steps ++ derivedNames p.steps then some (value n)
        else seed.get? n := by
    rw [Scope.lookup?_singleton, Row.get?_without, Row.get?_write]
    by_cases hn : n ∈ datasetNames p.steps
    · have hnot : n ∉ totalNames p.steps ++ derivedNames p.steps := fun h => hdisjoint n h n hn rfl
      rw [if_pos hn, if_neg hnot, htakes.new n ((hmem n).1 (List.mem_append_right _ hn))]
    · rw [if_neg hn]
      refine if_congr ⟨fun h => ?_, fun h => hall h⟩ rfl rfl
      exact (List.mem_append.1 ((hmem n).2 h)).resolve_right hn
  -- the three phases
  obtain ⟨htotals, hadd⟩ := run_totals htakes hptotals
    (fun pattern h => hdelivers pattern (mem_totals.1 h)) (datasetNames p.steps)
  have hderive (row : Row) : (Row.write value seed (totalNames p.steps)).derive []
      (p.steps.filterMap Step.derived?) = .ok row ↔
        row = Row.write value seed (totalNames p.steps ++ derivedNames p.steps) ∧
          ∀ entry ∈ p.steps.filterMap Step.derived?, ∃ v, entry.2.evaluate
            [(Row.write value seed names).without (datasetNames p.steps)] = .ok v := by
    -- at first no derived value is done
    conv_lhs => rw [← List.append_nil (totalNames p.steps)]
    exact derive_eq_ok htakes hall haround hperformed.derived (fun n => Iff.rfl)
      (fun a ha => (hpderived a ha).2) row
  have hrow (n : String) :
      (Row.write value seed (totalNames p.steps ++ derivedNames p.steps)).get? n =
        if n ∈ totalNames p.steps ++ derivedNames p.steps then some (value n) else seed.get? n :=
    Row.get?_write ..
  obtain ⟨hdatasets, hzip⟩ := run_datasets htakes hall hrow haround hpdatasets
  have hfinal : (Row.write value seed (totalNames p.steps ++ derivedNames p.steps)).extend
      ((datasetNames p.steps).map fun n => (n, value n)) = Row.write value seed names := by
    rw [Row.extend, List.foldl_map]
    exact (Row.write_append ..).symm.trans (Row.write_congr seed hmem)
  rw [Plan.run_runSteps_eq_ok, forall_steps, ← htotals]
  constructor
  · rintro ⟨answers, row, datasets, hanswers, hrow, hrows, rfl⟩
    rw [hadd answers hanswers] at hrow
    obtain ⟨rfl, hsees⟩ := (hderive row).1 hrow
    refine ⟨?_, ⟨answers, hanswers⟩, hsees, hdatasets.1 ⟨datasets, hrows⟩⟩
    rw [datasetNames, hzip datasets hrows]
    exact congrArg (fun row => [row]) hfinal
  · rintro ⟨rfl, ⟨answers, hanswers⟩, hsees, hsees'⟩
    obtain ⟨datasets, hrows⟩ := hdatasets.2 hsees'
    refine ⟨answers, _, datasets, hanswers, ?_, hrows, ?_⟩
    · rw [hadd answers hanswers]
      exact (hderive _).2 ⟨rfl, hsees⟩
    · rw [datasetNames, hzip datasets hrows]
      exact congrArg (fun row => [row]) hfinal.symm

end FederatedQuery
