import FederatedQuery.Proofs.Totals

/-!
# Applies one after the other

The meaning of a pipeline is that its applies are performed one after the other, each on the row
that holds the seed and the results of all applies before it. A plan has the same results in
steps of three kinds. This file defines the meaning, and relates the steps of a plan to it: each
step computes results that have their values in the rows before them, totals from the source that
their name meant at that place.

## Main definitions

* `Performs`: applies performed one after the other.
* `Pipeline.Performed`: pipelines in the making whose steps compute results of performed applies.

## Main results

* `Pipeline.Performed.addStep`, `Pipeline.Performed.addTotal`: one more apply in the plan.
* `Performs.performed_cons`: the step of one apply.
* `Performs.exists_plan`, `Performs.performed`: the steps of all applies.
-/

namespace FederatedQuery

/-! ### Applies one after the other -/

/-- The values that backends give for the aggregates in results: those of each source and each
result, in order. -/
abbrev Natives := Source → String → List Value

/-- The applies of a pipeline, performed one after the other on a row. A reference with filters
binds its name for the applies after it and leaves the row as it is. Any other apply writes one
cell: the rows of a chain from a source; a value over the aggregates of one source; one over those
of several sources, whichever values they have; or a value without aggregates. It sees the row with
all cells written before. -/
inductive Performs (answer : Request → Reply) (config : Config) (natives : Natives) :
    Bindings → Row → List (String × Expression) → Row → Prop
  | nil {b : Bindings} {row : Row} : Performs answer config natives b row [] row
  | bind {b : Bindings} {row final : Row} {name : String} {e : Expression}
      {rest : List (String × Expression)} {source : Source} (href : e.isFilteredRef = true)
      (hchain : b.isSourceChain e = true) (hsource : b.sourceOf e = .ok source)
      (hrest : Performs answer config natives (b.bind name source) row rest final) :
      Performs answer config natives b row ((name, e) :: rest) final
  | dataset {b : Bindings} {row final : Row} {name : String} {e : Expression}
      {rest : List (String × Expression)} {pattern : Pattern} {rows : Dataset}
      (href : e.isFilteredRef = false) (hchain : b.isSourceChain e = true)
      (hpattern : b.pattern e = .ok pattern)
      (hrows : (pattern.run config [row]).run answer = .ok rows)
      (hrest : Performs answer config natives b (row.put name (.dataset rows)) rest final) :
      Performs answer config natives b row ((name, e) :: rest) final
  | total {b : Bindings} {row final : Row} {name root : String} {e : Expression}
      {rest : List (String × Expression)} {source : Source} {v : Value}
      (hchain : b.isSourceChain e = false) (hroot : e.aggregateRoots = [root])
      (hsource : b.resolve root = .ok source)
      (hvalue : e.value? (natives source name) [row] = some v)
      (hrest : Performs answer config natives b (row.put name v) rest final) :
      Performs answer config natives b row ((name, e) :: rest) final
  | several {b : Bindings} {row final : Row} {name : String} {e : Expression}
      {rest : List (String × Expression)} {aggregates : List Value} {v : Value}
      (hchain : b.isSourceChain e = false) (hroots : 1 < e.aggregateRoots.length)
      (hvalue : e.value? aggregates [row] = some v)
      (hrest : Performs answer config natives b (row.put name v) rest final) :
      Performs answer config natives b row ((name, e) :: rest) final
  | derived {b : Bindings} {row final : Row} {name : String} {e : Expression}
      {rest : List (String × Expression)} {v : Value} (hchain : b.isSourceChain e = false)
      (hroots : e.aggregateRoots = []) (hvalue : e.evaluate [row] = .ok v)
      (hrest : Performs answer config natives b (row.put name v) rest final) :
      Performs answer config natives b row ((name, e) :: rest) final

variable {answer : Request → Reply} {config : Config} {natives : Natives}

/-- Applies leave cells of other names alone. -/
theorem Performs.get?_of_not_mem {b : Bindings} {row final : Row}
    {applies : List (String × Expression)}
    (h : Performs answer config natives b row applies final) {name : String}
    (hname : name ∉ applies.map Prod.fst) : final.get? name = row.get? name := by
  induction h with
  | nil => rfl
  | bind _ _ _ _ ih =>
    rw [List.map_cons, List.mem_cons, not_or] at hname
    exact ih hname.2
  | dataset _ _ _ _ _ ih | total _ _ _ _ _ ih | several _ _ _ _ ih | derived _ _ _ _ ih =>
    rw [List.map_cons, List.mem_cons, not_or] at hname
    rw [ih hname.2, Row.get?_put_of_ne _ _ hname.1]

/-! ### The steps of a pipeline -/

namespace Plan

/-- The names of the totals among the results of steps. -/
def totalNames (steps : List Step) : List String :=
  (steps.filterMap Step.totals?).flatMap fun pattern => pattern.applies.map Prod.fst

/-- The names of the derived values. -/
def derivedNames (steps : List Step) : List String :=
  (steps.filterMap Step.derived?).map Prod.fst

/-- The names of the datasets. -/
def datasetNames (steps : List Step) : List String :=
  (steps.filterMap Step.dataset?).map Prod.fst

end Plan

open Plan

section

variable (answer config natives) (seed : Row) (value : String → Value) (names : List String)

/-- A step computes results of a pipeline that has been performed: each of them has its value in
the row before it. -/
def Step.Performed : Step → Prop
  | .totals pattern => ∃ dataName applies, applies ≠ [] ∧
      pattern = .scalars pattern.source dataName applies ∧
      (applies.map Prod.fst).Sublist names ∧
      ∀ a ∈ applies, a.2.value? (natives pattern.source a.1)
        [Row.write value seed (before names a.1)] = some (value a.1)
  | .derived name e => name ∈ names ∧
      e.evaluate [Row.write value seed (before names name)] = .ok (value name)
  | .dataset name pattern => name ∈ names ∧ ∃ rows, value name = .dataset rows ∧
      (pattern.run config [Row.write value seed (before names name)]).run answer = .ok rows

/-- The steps of a pipeline compute the results called `names`, each once. -/
structure Pipeline.Performed (p : Pipeline) : Prop where
  perm : (totalNames p.steps ++ (derivedNames p.steps ++ datasetNames p.steps)).Perm names
  derived : (derivedNames p.steps).Sublist names
  steps : ∀ step ∈ p.steps, step.Performed answer config natives seed value names
  collecting : ∀ root index, p.collecting.lookup root = some index → ∃ pattern,
    p.steps[index]? = some (.totals pattern) ∧ p.bindings.resolve root = .ok pattern.source

end

variable {seed : Row} {value : String → Value} {names : List String}

/-- More results at the end change nothing for those before. -/
theorem Step.Performed.append {step : Step}
    (h : step.Performed answer config natives seed value names) (others : List String) :
    step.Performed answer config natives seed value (names ++ others) := by
  cases step with
  | totals pattern =>
    obtain ⟨dataName, applies, hne, hpattern, hsublist, hvalues⟩ := h
    refine ⟨dataName, applies, hne, hpattern, hsublist.trans (List.sublist_append_left ..),
      fun a ha => ?_⟩
    rw [before_append (hsublist.subset (List.mem_map_of_mem ha))]
    exact hvalues a ha
  | derived name e =>
    obtain ⟨hname, hvalue⟩ := h
    refine ⟨List.mem_append_left _ hname, ?_⟩
    rw [before_append hname]
    exact hvalue
  | dataset name pattern =>
    obtain ⟨hname, rows, hvalue, hrows⟩ := h
    refine ⟨List.mem_append_left _ hname, rows, hvalue, ?_⟩
    rw [before_append hname]
    exact hrows

theorem Pattern.addScalar_scalars (source : Source) (dataName : String)
    (applies : List (String × Expression)) (name : String) (e : Expression) :
    (scalars source dataName applies).addScalar name e =
      scalars source dataName (applies ++ [(name, e)]) := by
  rw [scalars, scalars, addScalar, List.map_append]
  rfl

/-- A query for totals computes one more of them. -/
theorem Step.Performed.addScalar {pattern : Pattern} {name : String} {e : Expression}
    (h : (Step.totals pattern).Performed answer config natives seed value names)
    (hvalue : e.value? (natives pattern.source name)
      [Row.write value seed (before (names ++ [name]) name)] = some (value name)) :
    (Step.totals (pattern.addScalar name e)).Performed answer config natives seed value
      (names ++ [name]) := by
  obtain ⟨dataName, applies, hne, hpattern, hsublist, hvalues⟩ := h
  refine ⟨dataName, applies ++ [(name, e)], List.append_ne_nil_of_left_ne_nil hne _, ?_, ?_,
    fun a ha => ?_⟩
  · conv_lhs => rw [hpattern, Pattern.addScalar_scalars]
    rfl
  · rw [List.map_append]
    exact hsublist.append (List.Sublist.refl [name])
  · obtain ha | ha := List.mem_append.1 ha
    · rw [before_append (hsublist.subset (List.mem_map_of_mem ha))]
      exact hvalues a ha
    · rw [List.mem_singleton.1 ha]
      exact hvalue

namespace Pipeline.Performed

variable {p : Pipeline}

theorem totalNames_append (steps others : List Step) :
    totalNames (steps ++ others) = totalNames steps ++ totalNames others := by
  rw [totalNames, List.filterMap_append, List.flatMap_append]
  rfl

theorem derivedNames_append (steps others : List Step) :
    derivedNames (steps ++ others) = derivedNames steps ++ derivedNames others := by
  rw [derivedNames, List.filterMap_append, List.map_append]
  rfl

theorem datasetNames_append (steps others : List Step) :
    datasetNames (steps ++ others) = datasetNames steps ++ datasetNames others := by
  rw [datasetNames, List.filterMap_append, List.map_append]
  rfl

theorem lookup_filter_ne {entries : List (String × Nat)} {name root : String} {index : Nat}
    (h : (entries.filter fun entry => entry.1 != name).lookup root = some index) :
    root ≠ name ∧ entries.lookup root = some index := by
  induction entries with
  | nil => exact nomatch h
  | cons entry entries ih =>
    obtain ⟨n, i⟩ := entry
    by_cases hn : n = name
    · rw [List.filter_cons_of_neg (by simp [hn])] at h
      obtain ⟨hne, hlookup⟩ := ih h
      have hroot : root ≠ n := hn ▸ hne
      exact ⟨hne, by rw [List.lookup_cons, beq_false_of_ne hroot, hlookup]⟩
    · rw [List.filter_cons_of_pos (by simp [hn]), List.lookup_cons] at h
      rw [List.lookup_cons]
      split at h
      · next heq => exact ⟨beq_iff_eq.1 heq ▸ hn, h⟩
      · exact ih h

/-- A binding changes no step. -/
theorem rebind (h : p.Performed answer config natives seed value names) (name : String)
    (source : Source) :
    (p.rebind name source).Performed answer config natives seed value names where
  perm := h.perm
  derived := h.derived
  steps := h.steps
  collecting root index hlookup := by
    obtain ⟨hne, hlookup⟩ := lookup_filter_ne hlookup
    obtain ⟨pattern, hpattern, hsource⟩ := h.collecting root index hlookup
    have hresolve : (p.bindings.bind name source).resolve root = p.bindings.resolve root := by
      rw [Bindings.resolve, Bindings.resolve, Bindings.resolve?, Bindings.resolve?, Bindings.bind,
        List.lookup_cons, beq_false_of_ne hne]
    exact ⟨pattern, hpattern, hresolve.trans hsource⟩

/-- One more step that computes one more result. -/
theorem addStep (h : p.Performed answer config natives seed value names) {name : String}
    {step : Step}
    (hstep : step.Performed answer config natives seed value (names ++ [name]))
    (hnames : totalNames [step] ++ (derivedNames [step] ++ datasetNames [step]) = [name]) :
    (p.addStep step).Performed answer config natives seed value (names ++ [name]) where
  perm := by
    rw [Pipeline.addStep, totalNames_append, derivedNames_append, datasetNames_append, ← hnames]
    refine List.Perm.trans ?_ (h.perm.append_right _)
    simp only [List.perm_iff_count, List.count_append]
    omega
  derived := by
    rw [Pipeline.addStep, derivedNames_append]
    refine h.derived.append ?_
    rw [← hnames]
    exact (List.sublist_append_left ..).trans (List.sublist_append_right ..)
  steps other hother := by
    obtain hother | hother := List.mem_append.1 hother
    · exact (h.steps other hother).append _
    · exact List.mem_singleton.1 hother ▸ hstep
  collecting root index hlookup := by
    obtain ⟨pattern, hpattern, hsource⟩ := h.collecting root index hlookup
    refine ⟨pattern, ?_, hsource⟩
    rw [Pipeline.addStep, List.getElem?_append_left (List.getElem?_eq_some_iff.1 hpattern).1]
    exact hpattern

/-- One more total, computed along with others of the same source. -/
theorem addScalar (h : p.Performed answer config natives seed value names) {name : String}
    {e : Expression} {index : Nat} {pattern : Pattern}
    (hpattern : p.steps[index]? = some (.totals pattern))
    (hvalue : e.value? (natives pattern.source name)
      [Row.write value seed (before (names ++ [name]) name)] = some (value name)) :
    Pipeline.Performed answer config natives seed value (names ++ [name])
      { p with steps := p.steps.modify index (Step.addScalar name e) } := by
  obtain ⟨front, step, back, hsteps, hlength, hmodify⟩ :=
    List.exists_of_modify (Step.addScalar name e) (List.getElem?_eq_some_iff.1 hpattern).1
  obtain rfl : step = .totals pattern := by
    rw [hsteps, ← hlength, List.getElem?_append_right le_rfl, Nat.sub_self] at hpattern
    exact Option.some.inj hpattern
  have hnames (q : Pattern) : totalNames (front ++ Step.totals q :: back) =
      totalNames front ++ (q.applies.map Prod.fst ++ totalNames back) := totalNames_append ..
  have hderived (q : Pattern) : derivedNames (front ++ Step.totals q :: back) =
      derivedNames front ++ derivedNames back := derivedNames_append ..
  have hdatasets (q : Pattern) : datasetNames (front ++ Step.totals q :: back) =
      datasetNames front ++ datasetNames back := datasetNames_append ..
  have hperm := h.perm
  have hsublist := h.derived
  have hperformed := h.steps
  simp only [hsteps, hnames, hderived, hdatasets] at hperm hsublist hperformed
  have hadded : (Step.addScalar name e (.totals pattern)).Performed answer config natives seed value
      (names ++ [name]) := by
    have htotals := hperformed _ (List.mem_append_right _ List.mem_cons_self)
    exact htotals.addScalar hvalue
  refine ⟨?_, ?_, fun other hother => ?_, fun root i hlookup => ?_⟩
  · simp only [hmodify, Step.addScalar, hnames, hderived, hdatasets]
    refine List.Perm.trans ?_ (hperm.append_right [name])
    rw [Pattern.addScalar, List.map_append]
    simp only [List.perm_iff_count, List.count_append, List.map_cons, List.map_nil]
    omega
  · simp only [hmodify, Step.addScalar, hderived]
    exact hsublist.trans (List.sublist_append_left ..)
  · simp only [hmodify] at hother
    obtain hother | hother := List.mem_append.1 hother
    · exact (hperformed other (List.mem_append_left _ hother)).append _
    · obtain rfl | hother := List.mem_cons.1 hother
      · exact hadded
      · exact (hperformed other (List.mem_append_right _ (List.mem_cons_of_mem _ hother))).append _
  · obtain ⟨collector, hcollector, hsource⟩ := h.collecting root i hlookup
    simp only [List.getElem?_modify, hcollector]
    split
    · exact ⟨collector.addScalar name e, rfl, hsource⟩
    · exact ⟨collector, rfl, hsource⟩

/-- One more total, into the query that collects those of its source. -/
theorem addTotal {p' : Pipeline} (h : p.Performed answer config natives seed value names)
    {root name : String} {e : Expression} {source : Source}
    (hsource : p.bindings.resolve root = .ok source)
    (hvalue : e.value? (natives source name)
      [Row.write value seed (before (names ++ [name]) name)] = some (value name))
    (hadd : p.addTotal root name e = .ok p') :
    p'.Performed answer config natives seed value (names ++ [name]) ∧ p'.bindings = p.bindings := by
  unfold Pipeline.addTotal at hadd
  split at hadd
  · next index hlookup =>
    obtain ⟨pattern, hpattern, hresolve⟩ := h.collecting root index hlookup
    obtain rfl := Except.ok.inj hadd
    obtain rfl : source = pattern.source := Except.ok.inj (hsource.symm.trans hresolve)
    exact ⟨h.addScalar hpattern hvalue, rfl⟩
  · obtain ⟨found, hfound, hadd⟩ := Except.bind_eq_ok.1 hadd
    obtain rfl := Except.ok.inj hadd
    obtain rfl : source = found := Except.ok.inj (hsource.symm.trans hfound)
    have hstep : (Step.totals ((Pattern.totals source root).addScalar name e)).Performed answer
        config natives seed value (names ++ [name]) := by
      refine ⟨root, [(name, e)], List.cons_ne_nil _ _, rfl, List.sublist_append_right names _,
        fun a ha => ?_⟩
      rw [List.mem_singleton.1 ha]
      exact hvalue
    have hadded := h.addStep hstep rfl
    refine ⟨⟨hadded.perm, hadded.derived, hadded.steps, fun other index hlookup => ?_⟩, rfl⟩
    rw [List.lookup_cons] at hlookup
    split at hlookup
    · next heq =>
      obtain rfl := Option.some.inj hlookup
      refine ⟨(Pattern.totals source root).addScalar name e, ?_, ?_⟩
      · rw [Pipeline.addStep, List.getElem?_append_right le_rfl, Nat.sub_self]
        rfl
      · rw [beq_iff_eq.1 heq]
        exact hsource
    · exact hadded.collecting other index hlookup

end Pipeline.Performed

/-- A chain from a source that is more than a reference becomes a dataset. -/
theorem Pipeline.addApply_of_pattern {p : Pipeline} {e : Expression} {pattern : Pattern}
    (name : String) (href : e.isFilteredRef = false)
    (hchain : p.bindings.isSourceChain e = true) (hpattern : p.bindings.pattern e = .ok pattern) :
    p.addApply name e = .ok (p.addStep (.dataset name pattern)) := by
  rw [addApply, href, hchain, hpattern]
  rfl

/-- A cell that is written has the value that its name has in the end, and is written after those of
all names before it. -/
theorem Performs.written {b : Bindings} {row final : Row} {name : String} {v : Value}
    {rest : List (String × Expression)}
    (h : Performs answer config natives b (row.put name v) rest final)
    (hvalue : ∀ n v, final.get? n = some v → value n = v)
    (hrow : row = Row.write value seed names)
    (hnodup : (names ++ name :: rest.map Prod.fst).Nodup) :
    value name = v ∧ Row.write value seed (before (names ++ [name]) name) = row ∧
      row.put name v = Row.write value seed (names ++ [name]) := by
  obtain ⟨-, hrest, hdisjoint⟩ := List.nodup_append.1 hnodup
  have hname : name ∉ names := fun hmem => hdisjoint name hmem name List.mem_cons_self rfl
  have hv : value name = v := by
    refine hvalue name v ?_
    rw [h.get?_of_not_mem (List.nodup_cons.1 hrest).1, Row.get?_put]
  refine ⟨hv, ?_, ?_⟩
  · rw [before_append_singleton hname, hrow]
  · rw [Row.write_append, ← hrow, Row.write_cons, hv]
    rfl

/-- A value over the rows of a source finds its step. -/
theorem Pipeline.exists_addTotal {p : Pipeline} {root : String} {source : Source}
    (hsource : p.bindings.resolve root = .ok source) (name : String) (e : Expression) :
    ∃ next, p.addTotal root name e = .ok next ∧ next.bindings = p.bindings := by
  unfold addTotal
  split
  · exact ⟨_, rfl, rfl⟩
  · rw [hsource]
    exact ⟨_, rfl, rfl⟩

/-- Applies that can be performed become steps, unless there are aggregates over several sources in
one of them. -/
theorem Performs.exists_plan {b : Bindings} {row final : Row}
    {applies : List (String × Expression)}
    (h : Performs answer config natives b row applies final)
    (hone : ∀ a ∈ applies, a.2.aggregateRoots.length ≤ 1) {p : Pipeline}
    (hbindings : p.bindings = b) :
    ∃ p', applies.foldlM (fun p (name, body) => p.addApply name body) p = .ok p' := by
  have hstep {p next : Pipeline} {name : String} {e : Expression}
      {rest : List (String × Expression)} (hnext : p.addApply name e = .ok next)
      (hrest : ∃ p', rest.foldlM (fun p (name, body) => p.addApply name body) next = .ok p') :
      ∃ p', ((name, e) :: rest).foldlM (fun p (name, body) => p.addApply name body) p =
        .ok p' := by
    obtain ⟨p', hp'⟩ := hrest
    exact ⟨p', Except.bind_eq_ok.2 ⟨next, hnext, hp'⟩⟩
  induction h generalizing p with
  | nil => exact ⟨p, rfl⟩
  | @bind _ _ _ name _ _ source href hchain hsource _ ih =>
    obtain ⟨-, hone⟩ := List.forall_mem_cons.1 hone
    refine hstep ?_ (ih hone (p := p.rebind name source) (by rw [Pipeline.rebind, hbindings]))
    rw [Pipeline.addApply, hbindings, href, hchain, hsource]
    rfl
  | @dataset _ _ _ name _ _ pattern _ href hchain hpattern _ _ ih =>
    obtain ⟨-, hone⟩ := List.forall_mem_cons.1 hone
    subst hbindings
    exact hstep (Pipeline.addApply_of_pattern name href hchain hpattern)
      (ih hone (p := p.addStep (.dataset name pattern)) rfl)
  | @total _ _ _ name _ e _ _ _ hchain hroot hsource _ _ ih =>
    obtain ⟨-, hone⟩ := List.forall_mem_cons.1 hone
    obtain ⟨next, hnext, hsame⟩ := Pipeline.exists_addTotal (hbindings ▸ hsource) name e
    refine hstep ?_ (ih hone (p := next) (hsame.trans hbindings))
    rw [Pipeline.addApply, hbindings, hchain, Bool.and_false, hroot]
    exact hnext
  | several _ hroots _ _ _ =>
    obtain ⟨hfirst, -⟩ := List.forall_mem_cons.1 hone
    exact absurd hroots (Nat.not_lt.2 hfirst)
  | @derived _ _ _ name e _ _ hchain hroots _ _ ih =>
    obtain ⟨-, hone⟩ := List.forall_mem_cons.1 hone
    refine hstep ?_ (ih hone (p := p.addStep (.derived name e)) hbindings)
    rw [Pipeline.addApply, hbindings, hchain, Bool.and_false, hroots]
    rfl

/-- **One apply.** An apply that is performed writes one cell at most, and the plan computes it in
one more step or one more total. The applies after it are performed on the row with that cell. -/
theorem Performs.performed_cons {p next : Pipeline} {row final : Row} {name : String}
    {e : Expression} {rest : List (String × Expression)}
    (h : Performs answer config natives p.bindings row ((name, e) :: rest) final)
    (hvalue : ∀ n v, final.get? n = some v → value n = v)
    (hrow : row = Row.write value seed names)
    (hnodup : (names ++ name :: rest.map Prod.fst).Nodup)
    (hperformed : p.Performed answer config natives seed value names)
    (hnext : p.addApply name e = .ok next) :
    ∃ written, written.Sublist [name] ∧
      next.Performed answer config natives seed value (names ++ written) ∧
      Performs answer config natives next.bindings (Row.write value seed (names ++ written)) rest
        final := by
  cases h with
  | bind href hchain hsource hrest =>
    rw [Pipeline.addApply, href, hchain, hsource] at hnext
    obtain rfl := Except.ok.inj hnext
    refine ⟨[], List.nil_sublist _, ?_, ?_⟩
    · rw [List.append_nil]
      exact hperformed.rebind _ _
    · rw [List.append_nil, ← hrow]
      exact hrest
  | @dataset _ _ _ _ _ _ pattern rows href hchain hpattern hrows hrest =>
    obtain ⟨hname, hbefore, hput⟩ := hrest.written hvalue hrow hnodup
    rw [Pipeline.addApply_of_pattern name href hchain hpattern] at hnext
    obtain rfl := Except.ok.inj hnext
    have hstep : (Step.dataset name pattern).Performed answer config natives seed value
        (names ++ [name]) := by
      refine ⟨List.mem_append_right _ List.mem_cons_self, rows, hname, ?_⟩
      rw [hbefore]
      exact hrows
    exact ⟨[name], .refl _, hperformed.addStep hstep rfl, hput ▸ hrest⟩
  | @total _ _ _ _ root _ _ source v hchain hroot hsource hv hrest =>
    obtain ⟨hname, hbefore, hput⟩ := hrest.written hvalue hrow hnodup
    rw [Pipeline.addApply, hchain, Bool.and_false, hroot] at hnext
    have htotal : e.value? (natives source name)
        [Row.write value seed (before (names ++ [name]) name)] = some (value name) := by
      rw [hbefore, hname]
      exact hv
    obtain ⟨hadded, hsame⟩ := hperformed.addTotal hsource htotal hnext
    exact ⟨[name], .refl _, hadded, hsame ▸ hput ▸ hrest⟩
  | several hchain hroots hv hrest =>
    rw [Pipeline.addApply, hchain, Bool.and_false] at hnext
    rcases heq : e.aggregateRoots with _ | ⟨root, _ | ⟨other, roots⟩⟩
    · rw [heq, List.length_nil] at hroots
      omega
    · rw [heq, List.length_singleton] at hroots
      omega
    · rw [heq] at hnext
      exact nomatch hnext
  | derived hchain hroots hv hrest =>
    obtain ⟨hname, hbefore, hput⟩ := hrest.written hvalue hrow hnodup
    rw [Pipeline.addApply, hchain, Bool.and_false, hroots] at hnext
    obtain rfl := Except.ok.inj hnext
    have hstep : (Step.derived name e).Performed answer config natives seed value
        (names ++ [name]) := by
      refine ⟨List.mem_append_right _ List.mem_cons_self, ?_⟩
      rw [hbefore, hname]
      exact hv
    exact ⟨[name], .refl _, hperformed.addStep hstep rfl, hput ▸ hrest⟩

/-- **The plan of performed applies.** If applies can be performed one after the other, the steps
of their plan compute the same results. -/
theorem Performs.performed {b : Bindings} {row final : Row}
    {applies : List (String × Expression)}
    (h : Performs answer config natives b row applies final)
    (hvalue : ∀ n v, final.get? n = some v → value n = v) {p p' : Pipeline}
    (hbindings : p.bindings = b) (hrow : row = Row.write value seed names)
    (hnodup : (names ++ applies.map Prod.fst).Nodup)
    (hperformed : p.Performed answer config natives seed value names)
    (hplan : applies.foldlM (fun p (name, body) => p.addApply name body) p = .ok p') :
    ∃ more, more.Sublist (applies.map Prod.fst) ∧ final = Row.write value seed (names ++ more) ∧
      p'.Performed answer config natives seed value (names ++ more) := by
  induction applies generalizing b row p names with
  | nil =>
    obtain rfl := Except.ok.inj hplan
    obtain ⟨⟩ := h
    exact ⟨[], .refl _, by rw [List.append_nil]; exact hrow, by rwa [List.append_nil]⟩
  | cons apply rest ih =>
    obtain ⟨name, e⟩ := apply
    obtain ⟨next, hnext, hplan⟩ := Except.bind_eq_ok.1 hplan
    obtain ⟨written, hwritten, hone, hrest⟩ :=
      (hbindings ▸ h).performed_cons hvalue hrow hnodup hperformed hnext
    have hsublist (more : List String) (hmore : more.Sublist (rest.map Prod.fst)) :
        (written ++ more).Sublist (name :: rest.map Prod.fst) := hwritten.append hmore
    have hnodup : ((names ++ written) ++ rest.map Prod.fst).Nodup := by
      rw [List.append_assoc]
      exact hnodup.sublist ((hsublist _ (.refl _)).append_left names)
    obtain ⟨more, hmore, hfinal, hdone⟩ := ih hrest rfl rfl hnodup hone hplan
    rw [List.append_assoc] at hfinal hdone
    exact ⟨written ++ more, hsublist more hmore, hfinal, hdone⟩

end FederatedQuery
