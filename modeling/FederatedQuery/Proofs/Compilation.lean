import FederatedQuery.Compile.Basic
import FederatedQuery.Proofs.Success

/-!
# What compiled patterns consist of

A pattern that compiles is a selection of rows, a query for totals or a query for groups. This
file says for each of the three what the compiled pattern consists of, so that nothing else has
to look into compilation, and which fields the native document of a query has.

## Main results

* `Aggregate.eq_of_toNative`: the parts of an aggregator.
* `Pattern.compile_eq_ok`: the three kinds of compiled patterns.
* `Pattern.compileRows_eq_ok`, `Pattern.compileTotals_eq_ok`, `Pattern.compileGroups_eq_ok`:
  their parts.
* `Pattern.compileRows_of_paging`: the patterns whose pages are read.
* `Native.Query.get?_toJson`, `External.get?_request`: the fields of native documents.
-/

namespace FederatedQuery

open Native

/-! ### Aggregates -/

/-- An aggregator is made of its name, what it computes, and the restriction that the filters
on its rows stand for. -/
theorem Aggregate.eq_of_toNative {x : External} {dataName name : String} {e rows : Expression}
    {a : Aggregator} (hrows : e.operand? = some rows)
    (h : toNative x dataName name e = .ok a) :
    ∃ computed r, aggregation x e = .ok computed ∧
      Restriction.ofCondition x (Expression.conjunction rows.unfilter.2) = .ok r ∧
      a = ⟨name, computed, r.toFilter⟩ := by
  unfold toNative at h
  simp only [hrows] at h
  split at h
  · exact nomatch h
  · obtain ⟨computed, hcomputed, h⟩ := Except.bind_eq_ok.1 h
    obtain ⟨r, hr, h⟩ := Except.bind_eq_ok.1 h
    exact ⟨computed, r, hcomputed, hr, (Except.ok.inj h).symm⟩

/-- An aggregator has the name that it was given. -/
theorem Aggregate.name_of_toNative {x : External} {dataName name : String} {e : Expression}
    {a : Aggregator} (h : toNative x dataName name e = .ok a) : a.name = name := by
  cases hrows : e.operand? with
  | none =>
    unfold toNative at h
    simp only [hrows] at h
    exact nomatch h
  | some rows =>
    obtain ⟨computed, r, -, -, rfl⟩ := eq_of_toNative hrows h
    rfl

/-! ### Patterns -/

namespace Pattern

/-- A pattern that compiles selects rows, asks for totals, or asks for groups. -/
theorem compile_eq_ok {p : Pattern} {limits : Limits} {c : Compiled}
    (h : p.compile limits = .ok c) :
    ∃ r, Restriction.ofCondition p.source.external p.source.filter = .ok r ∧
      ((p.split = none ∧ p.applies = [] ∧ p.compileRows limits r = .ok c) ∨
        (∃ outputs, p.split = none ∧ p.outputs = .ok outputs ∧
          p.compileTotals r outputs = .ok c) ∨
        ∃ outputs split, p.split = some split ∧ p.outputs = .ok outputs ∧
          p.compileGroups limits r outputs split = .ok c) := by
  unfold compile at h
  obtain ⟨r, hr, h⟩ := Except.bind_eq_ok.1 h
  refine ⟨r, hr, ?_⟩
  split at h
  · next hrows =>
    rw [Bool.and_eq_true, Option.isNone_iff_eq_none, List.isEmpty_iff] at hrows
    exact .inl ⟨hrows.1, hrows.2, h⟩
  · obtain ⟨outputs, houtputs, h⟩ := Except.bind_eq_ok.1 h
    split at h
    · next hsplit => exact .inr (.inl ⟨outputs, hsplit, houtputs, h⟩)
    · next split hsplit => exact .inr (.inr ⟨outputs, split, hsplit, houtputs, h⟩)

/-- A compiled selection of rows. -/
theorem compileRows_eq_ok {p : Pattern} {limits : Limits} {r : Restriction} {c : Compiled}
    (h : p.compileRows limits r = .ok c) :
    ∃ span, r.span p.source.external = .ok span ∧
      c =
        { query := ⟨p.source.external.source, span, r.filter,
            .select (rowDimensions p.source.external) (rowMetrics p.source.external)
              (p.paging limits).threshold (p.paging limits).fromNext []⟩
          grouping := none
          columns := []
          finish := ⟨[], [], p.sort, if p.sort.isSome then p.limit else none⟩
          nested := []
          paging := some (p.paging limits) } := by
  unfold compileRows at h
  simp only at h
  split at h
  · exact nomatch h
  · obtain ⟨-, -, h⟩ := Except.bind_eq_ok.1 h
    obtain ⟨span, hspan, h⟩ := Except.bind_eq_ok.1 h
    exact ⟨span, hspan, (Except.ok.inj h).symm⟩

/-- The sort of a compiled selection has been accepted. -/
theorem checkRowSort_of_compileRows {p : Pattern} {limits : Limits} {r : Restriction}
    {c : Compiled} (h : p.compileRows limits r = .ok c) : p.checkRowSort = .ok () := by
  unfold compileRows at h
  simp only at h
  split at h
  · exact nomatch h
  · obtain ⟨⟨⟩, hsort, -⟩ := Except.bind_eq_ok.1 h
    exact hsort

/-- A compiled query for totals. -/
theorem compileTotals_eq_ok {p : Pattern} {r : Restriction} {outputs : Outputs} {c : Compiled}
    (h : p.compileTotals r outputs = .ok c) :
    p.nestedPatterns = [] ∧ ∃ span, r.span p.source.external = .ok span ∧
      c =
        { query := ⟨p.source.external.source, span, r.filter, .totals outputs.aggregators⟩
          grouping := none
          columns := outputs.columns
          finish := ⟨outputs.derived, outputs.hidden, none, none⟩
          nested := []
          paging := none } := by
  unfold compileTotals at h
  simp only at h
  split at h
  · exact nomatch h
  · next hnested =>
    obtain ⟨span, hspan, h⟩ := Except.bind_eq_ok.1 h
    refine ⟨?_, span, hspan, (Except.ok.inj h).symm⟩
    simpa using hnested

/-- A compiled query for groups. -/
theorem compileGroups_eq_ok {p : Pattern} {limits : Limits} {r : Restriction}
    {outputs : Outputs} {split : SplitKey} {c : Compiled}
    (h : p.compileGroups limits r outputs split = .ok c) :
    ∃ grouping span, Grouping.ofSplit p.source.external split = .ok grouping ∧
      p.checkGroupSort split = .ok () ∧ r.span p.source.external = .ok span ∧
      c =
        { query := ⟨p.source.external.source, span, r.filter,
            (p.groupShape limits outputs grouping).shape⟩
          grouping := some grouping
          columns := outputs.columns
          finish := ⟨outputs.derived, outputs.hidden,
            (p.groupShape limits outputs grouping).sort,
            (p.groupShape limits outputs grouping).limit⟩
          nested := p.nestedPatterns
          paging := none } := by
  unfold compileGroups at h
  obtain ⟨grouping, hgrouping, h⟩ := Except.bind_eq_ok.1 h
  obtain ⟨⟨⟩, hsort, h⟩ := Except.bind_eq_ok.1 h
  obtain ⟨span, hspan, h⟩ := Except.bind_eq_ok.1 h
  exact ⟨grouping, span, hgrouping, hsort, hspan, (Except.ok.inj h).symm⟩

/-- Pages are read for selections of rows only. -/
theorem compileRows_of_paging {p : Pattern} {limits : Limits} {c : Compiled} {paging : Paging}
    (h : p.compile limits = .ok c) (hpaging : c.paging = some paging) :
    ∃ r, p.compileRows limits r = .ok c := by
  obtain ⟨r, -, ⟨-, -, h⟩ | ⟨o, -, -, h⟩ | ⟨o, split, -, -, h⟩⟩ := compile_eq_ok h
  · exact ⟨r, h⟩
  · obtain ⟨-, span, -, rfl⟩ := compileTotals_eq_ok h
    exact nomatch hpaging
  · obtain ⟨grouping, span, -, -, -, rfl⟩ := compileGroups_eq_ok h
    exact nomatch hpaging

/-- Pages are read as the pattern says. -/
theorem eq_paging {p : Pattern} {limits : Limits} {c : Compiled} {paging : Paging}
    (h : p.compile limits = .ok c) (hpaging : c.paging = some paging) :
    paging = p.paging limits := by
  obtain ⟨r, hrows⟩ := compileRows_of_paging h hpaging
  obtain ⟨span, -, rfl⟩ := compileRows_eq_ok hrows
  exact (Option.some.inj hpaging).symm

end Pattern

/-! ### Documents -/

/-- The settings of a datasource leave all fields of a document alone but the `context`. -/
theorem External.get?_request (x : External) (query : Json) {key : String}
    (h : key ≠ "context") : (x.request query).query.get? key = query.get? key := by
  unfold External.request
  split
  · exact Json.Fields.lookup_put_of_ne _ _ h
  · rfl

/-- So the texts in its fields are left alone. -/
theorem External.textAt?_request (x : External) (query : Json) {key : String}
    (h : key ≠ "context") : (x.request query).query.textAt? key = query.textAt? key := by
  rw [Json.textAt?, x.get?_request query h, Json.textAt?]

/-- A field that not all kinds of queries have comes from the shape of the query. -/
theorem Native.Query.get?_toJson (q : Query) {key : String}
    (h : key ∉ ["queryType", "dataSource", "intervals", "granularity", "filter"]) :
    q.toJson.get? key = q.shape.fieldsToJson.lookup key := by
  simp only [List.mem_cons, List.not_mem_nil, or_false, not_or] at h
  obtain ⟨htype, hsource, hspan, hgranularity, hfilter⟩ := h
  unfold toJson
  cases q.filter <;>
    simp only [Json.get?, Json.field?, Option.map_none, Option.map_some, List.cons_append,
      List.nil_append, List.append_nil, List.lookup_cons, beq_false_of_ne htype,
      beq_false_of_ne hsource, beq_false_of_ne hspan, beq_false_of_ne hgranularity,
      beq_false_of_ne hfilter]

end FederatedQuery
