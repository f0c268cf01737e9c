import FederatedQuery.Proofs.Filling
import FederatedQuery.Proofs.Outcomes
import FederatedQuery.Proofs.Surroundings

/-!
# Queries for totals

The results of a query for totals are computed from the native columns of one row, one after the
other, with nothing around them but the seed of the pipeline. This file compares that with the
results of a pipeline one after the other, where each result is computed in the row that holds
the seed and *all* results before it. The two agree whenever the former can be computed, and it
can if each result can be computed with only the results of the same query around it.

## Main definitions

* `Outputs.Made`: what the results of a query are made of.
* `Row.Holds`, `Row.Awaits`: a row in the making, and what it has for the results to come.
* `Pattern.scalars`, `Pattern.Fetches`: queries for totals, and the rows that they fetch.

## Main results

* `evaluate_derived_iff`: one derived value.
* `Outputs.Made.derive`: all derived values of a query.
* `Pattern.run_scalars`: the outcome of a query for totals.
-/

namespace FederatedQuery

/-! ### What results are made of -/

namespace Outputs

/-- The native columns, hidden ones included, and the derived values that results are made of. -/
inductive Made : List (String × Expression) → List String → List (String × Expression) → Prop
  | nil : Made [] [] []
  | native {name : String} {e : Expression} {applies : List (String × Expression)}
      {columns : List String} {derived : List (String × Expression)} (hnative : isNative e)
      (hrest : Made applies columns derived) :
      Made ((name, e) :: applies) (name :: columns) derived
  | derived {name : String} {e e' : Expression} {applies : List (String × Expression)}
      {hidden columns : List String} {derived : List (String × Expression)}
      (hfill : e.fill (hidden.map .ref) = some (e', []))
      (hhidden : ∀ n ∈ hidden, IsHiddenName n) (hrest : Made applies columns derived) :
      Made ((name, e) :: applies) (hidden ++ columns) ((name, e') :: derived)

theorem made_of_foldlM {x : External} {dataName : String} {applies : List (String × Expression)}
    {o o' : Outputs}
    (h : applies.foldlM (fun o a => o.addApply x dataName a.1 a.2) o = .ok o') :
    ∃ columns derived, Made applies columns derived ∧ o'.columns = o.columns ++ columns ∧
      o'.derived = o.derived ++ derived := by
  induction applies generalizing o with
  | nil =>
    obtain rfl : o = o' := Except.ok.inj h
    exact ⟨[], [], .nil, (List.append_nil _).symm, (List.append_nil _).symm⟩
  | cons a applies ih =>
    rw [List.foldlM_cons] at h
    obtain ⟨next, hnext, h⟩ := Except.bind_eq_ok.1 h
    obtain ⟨columns, derived, hmade, hcolumns, hderived⟩ := ih h
    obtain ⟨hnative, hadded, -, hsame⟩ | ⟨hidden, e', hhides, hfill, hadded⟩ :=
      addApply_eq_ok hnext
    · refine ⟨a.1 :: columns, derived, hmade.native hnative, ?_, ?_⟩
      · rw [hcolumns, hadded, List.append_assoc, List.singleton_append]
      · rw [hderived, hsame]
    · have hnew : next.columns = o.columns ++ hidden := hhides.columns
      refine ⟨hidden ++ columns, (a.1, e') :: derived,
        hmade.derived hfill hhides.isHiddenName, ?_, ?_⟩
      · rw [hcolumns, hnew, List.append_assoc]
      · rw [hderived, hadded, List.append_assoc, List.singleton_append]

namespace Made

variable {applies derived : List (String × Expression)} {columns : List String}

/-- The native columns have names of results and hidden names. -/
theorem columns_subset (h : Made applies columns derived) {name : String} (hname : name ∈ columns) :
    IsHiddenName name ∨ name ∈ applies.map Prod.fst := by
  induction h with
  | nil => exact absurd hname List.not_mem_nil
  | native _ _ ih =>
    obtain rfl | hname := List.mem_cons.1 hname
    · exact .inr List.mem_cons_self
    · exact (ih hname).imp_right (List.mem_cons_of_mem _)
  | derived _ hhidden _ ih =>
    obtain hname | hname := List.mem_append.1 hname
    · exact .inl (hhidden _ hname)
    · exact (ih hname).imp_right (List.mem_cons_of_mem _)

end Made

end Outputs

/-! ### Values derived from native columns -/

/-- A row in the making holds the values of some of its results; names other than those of its
results and of hidden columns do not occur. -/
structure Row.Holds (w : Row) (value : String → Value) (all done : List String) : Prop where
  done : ∀ n ∈ done, w.get? n = some (value n)
  others : ∀ n, ¬IsHiddenName n → n ∉ all → w.get? n = none

section

variable {seed w : Row} {names all done : List String} {value cell : String → Value}
  {native : String → List Value} {around : Scope}

/-- A row in the making, inside of the seed. -/
theorem Row.Holds.scope (hholds : w.Holds value all done) (htakes : seed.Takes names)
    (hall : all ⊆ names) : Scope.Holds [w, seed] seed value names all done where
  done n hn := by rw [Scope.lookup?_pair, hholds.done n hn, Option.some_or]
  missing n hn hmem := by
    rw [Scope.lookup?_pair, hholds.others n (htakes.visible n hn) hmem, htakes.new n hn,
      Option.or_none]
  seed n v h := by
    have hvisible : ¬IsHiddenName n := fun hidden =>
      nomatch (htakes.seed_visible n hidden).symm.trans h
    have hmem : n ∉ all := fun hmem => nomatch (htakes.new n (hall hmem)).symm.trans h
    rw [Scope.lookup?_pair, hholds.others n hvisible hmem, Option.none_or, h]

/-- **One derived value.** A value that is derived from hidden columns can be computed in the row
in the making if it can be computed around the results of the query. -/
theorem evaluate_derived_iff (hholds : Scope.Holds [w, seed] seed value names all done)
    (htakes : seed.Takes names) (hall : all ⊆ names)
    (haround : ∀ n, around.lookup? n = if n ∈ all then some (value n) else seed.get? n)
    {name : String} (hbefore : ∀ n ∈ all, n ∈ before names name → n ∈ done)
    {e e' : Expression} {hidden : List String}
    (hvalue : e.value? (native name) [Row.write value seed (before names name)] =
      some (value name))
    (hfill : e.fill (hidden.map .ref) = some (e', []))
    (hhidden : List.Forall₂ (fun n v => w.get? n = some v) hidden (native name)) (v : Value) :
    e'.evaluate [w, seed] = .ok v ↔
      v = value name ∧ (e.value? (native name) around).isSome := by
  obtain ⟨filled, hfilled, hvalue⟩ := Expression.value?_eq_some.1 hvalue
  have hlookup : List.Forall₂ (fun n v => Scope.lookup? [w, seed] n = some v) hidden
      (native name) := by
    refine hhidden.imp fun n v h => ?_
    rw [Scope.lookup?_pair, h, Option.some_or]
  have hsome : (e.value? (native name) around).isSome ↔ ∃ u, filled.evaluate around = .ok u := by
    rw [Option.isSome_iff_exists]
    simp only [Expression.value?_eq_some, hfilled, Option.some.injEq, Prod.mk.injEq, and_true,
      exists_eq_left']
  rw [Expression.evaluate_of_fill hfilled hfill hlookup v, hsome]
  exact hholds.evaluate_iff htakes hall haround hbefore hvalue v

/-- A row in the making awaits results. It holds the values of the results before them, and the
native columns that they are made of. -/
structure Row.Awaits (w : Row) (value cell : String → Value) (native : String → List Value)
    (all done : List String) (applies : List (String × Expression)) (columns : List String) :
    Prop where
  names : all = done ++ applies.map Prod.fst
  holds : w.Holds value all done
  cells : columns.map cell = applies.flatMap fun a => native a.1
  columns : ∀ n ∈ columns, w.get? n = some (cell n)

namespace Row.Awaits

variable {applies : List (String × Expression)} {columns hidden : List String} {name : String}
  {e : Expression}

/-- A name is in its place behind the names of the results before it. -/
theorem names_append (h : w.Awaits value cell native all done ((name, e) :: applies) columns) :
    all = (done ++ [name]) ++ applies.map Prod.fst := by
  rw [h.names, List.map_cons, List.append_assoc, List.singleton_append]

/-- The hidden columns of a result hold the values of its aggregates. -/
theorem forall₂_hidden
    (h : w.Awaits value cell native all done ((name, e) :: applies) (hidden ++ columns))
    (hlength : hidden.length = (native name).length) :
    List.Forall₂ (fun n v => w.get? n = some v) hidden (native name) ∧
      columns.map cell = applies.flatMap fun a => native a.1 := by
  have hcells := h.cells
  rw [List.map_append, List.flatMap_cons] at hcells
  obtain ⟨hnative, hcells⟩ := List.append_inj hcells ((List.length_map ..).trans hlength)
  refine ⟨?_, hcells⟩
  rw [← hnative, List.forall₂_map_right_iff, List.forall₂_same]
  exact fun n hn => h.columns n (List.mem_append_left _ hn)

/-- A native column is the value of its result. -/
theorem native_cons
    (h : w.Awaits value cell native all done ((name, e) :: applies) (name :: columns))
    (hone : native name = [value name]) :
    w.Awaits value cell native all (done ++ [name]) applies columns := by
  have hcells := h.cells
  rw [List.map_cons, List.flatMap_cons, hone, List.singleton_append, List.cons.injEq] at hcells
  obtain ⟨hcolumn, hcolumns⟩ := List.forall_mem_cons.1 h.columns
  refine ⟨h.names_append, ⟨fun n hn => ?_, h.holds.others⟩, hcells.2, hcolumns⟩
  obtain hn | hn := List.mem_append.1 hn
  · exact h.holds.done n hn
  · obtain rfl := List.mem_singleton.1 hn
    rw [hcolumn, hcells.1]

/-- A derived value is put into the row under a name that no column for later results has. -/
theorem put_cons
    (h : w.Awaits value cell native all done ((name, e) :: applies) (hidden ++ columns))
    (hlength : hidden.length = (native name).length) (hname : name ∉ columns) :
    (w.put name (value name)).Awaits value cell native all (done ++ [name]) applies columns := by
  have hmem : name ∈ all := h.names ▸ List.mem_append_right _ List.mem_cons_self
  refine ⟨h.names_append, ⟨fun n hn => ?_, fun n hvisible hn => ?_⟩, (h.forall₂_hidden hlength).2,
    fun n hn => ?_⟩
  · rw [Row.get?_put_eq]
    split
    · next heq => rw [heq]
    · next hne =>
      obtain hn | hn := List.mem_append.1 hn
      · exact h.holds.done n hn
      · exact absurd (List.mem_singleton.1 hn) hne
  · rw [Row.get?_put_of_ne _ _ (ne_of_mem_of_not_mem hmem hn).symm]
    exact h.holds.others n hvisible hn
  · rw [Row.get?_put_of_ne _ _ (ne_of_mem_of_not_mem hn hname)]
    exact h.columns n (List.mem_append_right _ hn)

end Row.Awaits

/-- The first derived value is put into the row before the others are derived. -/
theorem Row.derive_cons_eq_ok {name : String} {e : Expression}
    {derived : List (String × Expression)} {value : Value} {P : Prop}
    (h : ∀ v, e.evaluate [w, seed] = .ok v ↔ v = value ∧ P) (d : Row) :
    w.derive [seed] ((name, e) :: derived) = .ok d ↔
      P ∧ (w.put name value).derive [seed] derived = .ok d := by
  simp only [Row.derive_cons, Except.bind_eq_ok, h, and_assoc, exists_eq_left]

/-- **The derived values of a query.** They can be computed if each result can be with only the
results of the query around it. The row then holds the values of all of them. -/
theorem Outputs.Made.derive (htakes : seed.Takes names) (hall : all.Sublist names)
    (haround : ∀ n, around.lookup? n = if n ∈ all then some (value n) else seed.get? n)
    {applies derived : List (String × Expression)} {columns : List String}
    (hmade : Outputs.Made applies columns derived)
    (hawaits : w.Awaits value cell native all done applies columns)
    (hvalues : ∀ a ∈ applies, a.2.value? (native a.1)
      [Row.write value seed (before names a.1)] = some (value a.1)) :
    ((∃ d, w.derive [seed] derived = .ok d) ↔
        ∀ a ∈ applies, (a.2.value? (native a.1) around).isSome) ∧
      ∀ d, w.derive [seed] derived = .ok d → d.Holds value all all := by
  induction hmade generalizing done w with
  | nil =>
    have hdone : all = done := hawaits.names.trans (List.append_nil done)
    refine ⟨⟨fun _ => nofun, fun _ => ⟨w, rfl⟩⟩, ?_⟩
    rintro d ⟨⟩
    exact hdone ▸ hawaits.holds
  | @native name e applies columns derived hnative hmade ih =>
    obtain ⟨hvalue, hvalues⟩ := List.forall_mem_cons.1 hvalues
    have hone := (Expression.value?_of_isNative hnative).1 hvalue
    have hsome : (e.value? (native name) around).isSome :=
      Option.isSome_iff_exists.2 ⟨value name, (Expression.value?_of_isNative hnative).2 hone⟩
    rw [List.forall_mem_cons, and_iff_right hsome]
    exact ih (hawaits.native_cons hone) hvalues
  | @derived name e e' applies hidden columns derived hfill hhidden hmade ih =>
    obtain ⟨hvalue, hvalues⟩ := List.forall_mem_cons.1 hvalues
    obtain ⟨filled, hfilled, -⟩ := Expression.value?_eq_some.1 hvalue
    have hlength : hidden.length = (native name).length := by
      have hhoisted := Expression.length_of_fill hfill
      have hnatives := Expression.length_of_fill hfilled
      rw [List.length_map] at hhoisted hnatives
      rw [hhoisted, hnatives]
    have hnodup := hawaits.names ▸ htakes.nodup.sublist hall
    have hname : name ∉ columns := by
      intro hmem
      have hvisible := htakes.visible name (hall.subset
        (hawaits.names ▸ List.mem_append_right _ List.mem_cons_self))
      obtain hhidden | hlater := hmade.columns_subset hmem
      · exact hvisible hhidden
      · exact (List.nodup_cons.1 (List.nodup_append.1 hnodup).2.1).1 hlater
    have hbefore : ∀ n ∈ all, n ∈ before names name → n ∈ done := fun n hn =>
      mem_of_mem_before htakes.nodup (hawaits.names ▸ hall) (hawaits.names ▸ hn)
    have hevaluate := evaluate_derived_iff (hawaits.holds.scope htakes hall.subset) htakes
      hall.subset haround hbefore hvalue hfill (hawaits.forall₂_hidden hlength).1
    have hstep (d : Row) : w.derive [seed] ((name, e') :: derived) = .ok d ↔
        (e.value? (native name) around).isSome ∧
          (w.put name (value name)).derive [seed] derived = .ok d :=
      Row.derive_cons_eq_ok hevaluate d
    obtain ⟨hiff, hend⟩ := ih (hawaits.put_cons hlength hname) hvalues
    rw [List.forall_mem_cons, ← hiff]
    simp only [hstep, exists_and_left, true_and]
    exact fun d hd => hend d hd.2

end

/-! ### Queries for totals -/

namespace Compiled

/-- A query without groups fetches rows that hold its native columns. -/
theorem eq_row_of_rows {c : Compiled} (hgrouping : c.grouping = none) {aggregators}
    (hshape : c.query.shape = .totals aggregators) {items : List Json} {rows : List Row}
    (h : c.rows items = .ok rows) {row : Row} (hrow : row ∈ rows) :
    ∃ record, row = c.row record := by
  have hseries (entry : Json) (row : Row) (h : c.seriesRow entry = .ok row) :
      ∃ record, row = c.row record := by
    unfold seriesRow at h
    split at h
    · cases h
    · next record _ =>
      rw [hgrouping] at h
      exact ⟨record, (Except.ok.inj h).symm⟩
  unfold Compiled.rows at h
  rw [hshape] at h
  obtain ⟨read, hread, h⟩ := Except.bind_eq_ok.1 h
  obtain rfl := Except.ok.inj h
  obtain ⟨g, hg, rfl⟩ := Except.exists_of_mapM_eq_ok hread
  split at hrow
  · exact ⟨[], List.mem_singleton.1 hrow⟩
  · obtain ⟨entry, hentry, rfl⟩ := List.mem_map.1 hrow
    exact hseries entry _ (hg entry hentry)

/-- The outcome of fetching all rows at once. -/
theorem outcome_fetch {answer : Request → Reply} {c : Compiled} (h : c.paging = none)
    (config : Config) (x : External) :
    (c.fetch config x).outcome answer =
      match (answer (x.request c.query.toJson)).items with
      | .error message => .error (.requester message)
      | .ok items => c.rows items := by
  rw [fetch, h]
  simp only [Exchange.outcome_bind]
  cases hitems : (answer (x.request c.query.toJson)).items with
  | error message =>
    rw [Exchange.items, Exchange.outcome, Exchange.outcome, hitems]
    rfl
  | ok items =>
    rw [Exchange.items, Exchange.outcome, Exchange.outcome, hitems]
    exact Exchange.outcome_ofExcept _

end Compiled

namespace Pattern

/-- The pattern of results over all rows of a source. -/
def scalars (source : Source) (dataName : String) (applies : List (String × Expression)) :
    Pattern :=
  ⟨source, dataName, none, applies.map fun a => (a.1, .scalar a.2), none, none⟩

/-- A pattern compiles, and the backend answers with the given rows, which are not too many. -/
structure Fetches (answer : Request → Reply) (config : Config) (p : Pattern) (c : Compiled)
    (rows : List Row) : Prop where
  compiled : p.compile config.limits = .ok c
  fetched : (c.fetch config p.source.external).outcome answer = .ok rows
  fits : rows.length ≤ config.maxRows

variable {answer : Request → Reply} {config : Config} {source : Source} {dataName : String}
  {applies : List (String × Expression)} {c : Compiled}

/-- Results over all rows of a source compile to a query for totals. -/
theorem compile_scalars (hne : applies ≠ [])
    (h : (scalars source dataName applies).compile config.limits = .ok c) :
    ∃ o : Outputs, Outputs.Made applies o.columns o.derived ∧
      ((applies.map Prod.fst).Nodup → o.Named (applies.map Prod.fst)) ∧
        c.columns = o.columns ∧ c.finish = ⟨o.derived, o.hidden, none, none⟩ ∧
          c.grouping = none ∧ c.paging = none ∧ c.query.shape = .totals o.aggregators := by
  have hnames : (scalars source dataName applies).applies.map Prod.fst =
      applies.map Prod.fst := by
    rw [scalars, List.map_map]
    rfl
  obtain ⟨r, -, ⟨-, hnone, -⟩ | ⟨o, -, ho, h⟩ | ⟨o, split, hsplit, -⟩⟩ := compile_eq_ok h
  · exact absurd (List.map_eq_nil_iff.1 hnone) hne
  · obtain ⟨-, span, -, rfl⟩ := compileTotals_eq_ok h
    have hadded := ho
    rw [outputs_eq, scalars, List.foldlM_map] at hadded
    obtain ⟨columns, derived, hmade, hcolumns, hderived⟩ := Outputs.made_of_foldlM hadded
    have hmade : Outputs.Made applies o.columns o.derived := by
      rw [hcolumns, hderived]
      exact hmade
    refine ⟨o, hmade, fun hnodup => ?_, rfl, rfl, rfl, rfl, rfl⟩
    rw [← hnames] at hnodup ⊢
    exact named_outputs ho hnodup
  · exact nomatch hsplit

section

variable {seed first : Row} {others : List Row} {names : List String} {value : String → Value}
  {native : String → List Value} {around : Scope}

theorem run_scalars_eq_ok (hne : applies ≠ []) {fetched : List Row}
    (hfetches : (scalars source dataName applies).Fetches answer config c fetched)
    {rows : Dataset} :
    ((scalars source dataName applies).run config [seed]).run answer = .ok rows ↔
      ∃ derived, fetched.mapM (fun row => row.derive [seed] c.finish.derived) = .ok derived ∧
        rows = derived.map c.finish.dropHidden := by
  obtain ⟨o, -, -, -, hfinish, hgrouping, -, -⟩ := compile_scalars hne hfetches.compiled
  have happly (derived : List Row) : c.finish.limited (c.finish.sorted
      (derived.map c.finish.dropHidden)) = derived.map c.finish.dropHidden := by
    rw [hfinish]
    rfl
  rw [run_run, hfetches.compiled]
  simp only [Compiled.outcome_finished, Except.bind_eq_ok, Except.mapError_eq_ok, Except.ok.injEq,
    exists_eq_left', hfetches.fetched, hfetches.fits.not_gt, if_false, hgrouping, attachNested,
    Finish.apply, happly]
  constructor
  · rintro ⟨_, ⟨derived, hderived, rfl⟩, rfl⟩
    exact ⟨derived, hderived, rfl⟩
  · rintro ⟨derived, hderived, rfl⟩
    exact ⟨_, ⟨derived, hderived, rfl⟩, rfl⟩

/-- The fetched rows of a query for totals hold the native columns. -/
theorem eq_write_of_fetches (hne : applies ≠ []) {fetched : List Row}
    (hfetches : (scalars source dataName applies).Fetches answer config c fetched) {row : Row}
    (hrow : row ∈ fetched) : ∃ cell, row = Row.write cell [] c.columns := by
  obtain ⟨o, -, -, -, -, hgrouping, hpaging, hshape⟩ := compile_scalars hne hfetches.compiled
  have hfetched := hfetches.fetched
  rw [Compiled.outcome_fetch hpaging] at hfetched
  split at hfetched
  · cases hfetched
  · obtain ⟨record, rfl⟩ := Compiled.eq_row_of_rows hgrouping hshape hfetched hrow
    refine ⟨recordCell record, ?_⟩
    rw [Compiled.row, hgrouping]
    rfl

/-- **A query for totals.** It succeeds if each result can be computed with only the results of the
query around it and if the rows after the first one can be finished. The first row of the answer
then has the values of the results, and no other cells. -/
theorem run_scalars (htakes : seed.Takes names)
    (hall : (applies.map Prod.fst).Sublist names)
    (haround : ∀ n, around.lookup? n =
      if n ∈ applies.map Prod.fst then some (value n) else seed.get? n)
    (hne : applies ≠ [])
    (hfetches : (scalars source dataName applies).Fetches answer config c (first :: others))
    (hnatives : c.columns.map first.get? = (applies.flatMap fun a => native a.1).map some)
    (hvalues : ∀ a ∈ applies, a.2.value? (native a.1)
      [Row.write value seed (before names a.1)] = some (value a.1)) :
    ((∃ rows, ((scalars source dataName applies).run config [seed]).run answer = .ok rows) ↔
        (∀ a ∈ applies, (a.2.value? (native a.1) around).isSome) ∧
          ∀ other ∈ others, ∃ d, other.derive [seed] c.finish.derived = .ok d) ∧
      ∀ rows, ((scalars source dataName applies).run config [seed]).run answer = .ok rows →
        ∃ head tail, rows = head :: tail ∧ head.IsSorted ∧
          ∀ n, head.get? n = if n ∈ applies.map Prod.fst then some (value n) else none := by
  obtain ⟨o, hmade, hnamed, hcolumns, hfinish, -⟩ := compile_scalars hne hfetches.compiled
  obtain ⟨cell, hfirst⟩ := eq_write_of_fetches hne hfetches List.mem_cons_self
  have hget (n : String) : first.get? n = if n ∈ o.columns then some (cell n) else none := by
    rw [hfirst, Row.get?_write, hcolumns]
    rfl
  have hcells : o.columns.map cell = applies.flatMap fun a => native a.1 := by
    have hinjective : Function.Injective (some : Value → Option Value) := fun _ _ => Option.some.inj
    refine List.map_injective_iff.2 hinjective ?_
    rw [← hnatives, hcolumns, List.map_map]
    refine List.map_congr_left fun n hn => ?_
    rw [hget, if_pos hn]
    rfl
  have hnamed := hnamed (htakes.nodup.sublist hall)
  have hholds : first.Holds value (applies.map Prod.fst) [] := by
    refine ⟨nofun, fun n hvisible hn => ?_⟩
    rw [hget, if_neg]
    intro hmem
    exact (hmade.columns_subset hmem).elim hvisible hn
  have hawaits : first.Awaits value cell native (applies.map Prod.fst) [] applies o.columns :=
    ⟨rfl, hholds, hcells, fun n hn => (hget n).trans (if_pos hn)⟩
  obtain ⟨hiff, hend⟩ := hmade.derive htakes hall haround hawaits hvalues
  simp only [run_scalars_eq_ok hne hfetches, List.mapM_cons, Except.bind_eq_ok, hfinish]
  rw [← hiff, ← Except.exists_mapM_eq_ok]
  constructor
  · constructor
    · rintro ⟨_, _, ⟨d, hd, ds, hds, -⟩, -⟩
      exact ⟨⟨d, hd⟩, ds, hds⟩
    · rintro ⟨⟨d, hd⟩, ds, hds⟩
      exact ⟨_, _, ⟨d, hd, ds, hds, rfl⟩, rfl⟩
  · rintro rows ⟨_, ⟨d, hd, ds, hds, ⟨⟩⟩, rfl⟩
    refine ⟨_, _, rfl, ?_, fun n => ?_⟩
    · have hsorted : first.IsSorted := by
        rw [hfirst]
        exact Row.IsSorted.write List.Pairwise.nil _
      exact (hsorted.derive hd).foldl_erase _
    · rw [Finish.get?_dropHidden]
      by_cases hn : n ∈ applies.map Prod.fst
      · have hvisible := htakes.visible n (hall.subset hn)
        rw [if_neg fun hmem => hvisible (hnamed.hidden n hmem), if_pos hn]
        exact (hend d hd).done n hn
      · rw [if_neg hn]
        split
        · rfl
        · next hhidden =>
          rw [Row.get?_derive hd fun hmem => hn (hnamed.derived n hmem), hget, if_neg]
          intro hmem
          exact (hnamed.columns n hmem).elim hhidden fun h => hn h.1

end

end Pattern

end FederatedQuery
