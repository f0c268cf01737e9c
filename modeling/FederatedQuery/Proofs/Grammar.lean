import FederatedQuery.Plan.Chain
import FederatedQuery.Proofs.Success
import Mathlib.Data.List.Induction

/-!
# The grammar of patterns

A chain has a pattern if its operations come in one order: a reference to a datasource, filters, a
split, results, a sort by a name and a limit, of which each but the reference may be missing, and
the results without a split. A result that is itself a chain from a datasource must start at the
same name and have a pattern of its own. This file states the grammar from the reference outwards,
and compares it with the planner, which takes chains apart from their end.

## Main definitions

* `Expression.chain`: the chain with given parts.
* `Source.within`: a source on which more conditions hold.
* `Bindings.Describes`: the grammar, with the pattern of each chain.

## Main results

* `Chain.unwind_chain`, `Chain.eq_chain`: taking chains apart and putting them together.
* `Bindings.pattern_eq_ok`: what patterns of chains consist of.
* `Bindings.pattern_iff_describes`: the planner accepts the grammar.
-/

namespace FederatedQuery

/-! ### Chains put together -/

namespace Expression

/-- The rows of the datasource called `root` on which the conditions hold. -/
def rowsOf (root : String) (conditions : List Expression) : Expression :=
  conditions.foldl .filter (.ref root)

/-- Rows in groups, if there is a split. -/
def grouped (e : Expression) (split : Option SplitKey) : Expression :=
  split.elim e fun split => .split e split.key split.name

/-- Rows with results, in order. -/
def withResults (e : Expression) (applies : List (String × Expression)) : Expression :=
  applies.foldl (fun e result => .apply e result.2 result.1) e

/-- Rows sorted by a name, if there is a sort. -/
def sortedBy (e : Expression) (sort : Option SortKey) : Expression :=
  sort.elim e fun sort => .sort e (.ref sort.name) sort.direction

/-- The first rows, if there is a limit. -/
def limitedTo (e : Expression) (limit : Option UInt64) : Expression :=
  limit.elim e (.limit e)

/-- The chain with the given parts, in the order of operations that patterns have. -/
def chain (root : String) (conditions : List Expression) (split : Option SplitKey)
    (applies : List (String × Expression)) (sort : Option SortKey) (limit : Option UInt64) :
    Expression :=
  ((((rowsOf root conditions).grouped split).withResults applies).sortedBy sort).limitedTo limit

theorem rowsOf_append_singleton (root : String) (conditions : List Expression)
    (condition : Expression) :
    rowsOf root (conditions ++ [condition]) = .filter (rowsOf root conditions) condition :=
  List.foldl_concat ..

theorem withResults_append_singleton (e : Expression) (applies : List (String × Expression))
    (result : String × Expression) :
    e.withResults (applies ++ [result]) = .apply (e.withResults applies) result.2 result.1 :=
  List.foldl_concat ..

/-- A reference with filters consists of a name and conditions. -/
theorem isFilteredRef_iff {e : Expression} :
    e.isFilteredRef ↔ ∃ root conditions, e = rowsOf root conditions := by
  constructor
  · intro h
    induction e with
    | ref name => exact ⟨name, [], rfl⟩
    | filter operand condition ih =>
      obtain ⟨root, conditions, rfl⟩ := ih h
      exact ⟨root, conditions ++ [condition], (rowsOf_append_singleton ..).symm⟩
    | _ => exact nomatch h
  · rintro ⟨root, conditions, rfl⟩
    induction conditions using List.reverseRecOn with
    | nil => rfl
    | append_singleton conditions condition ih =>
      rw [rowsOf_append_singleton]
      exact ih

theorem chainRoot?_rowsOf (root : String) (conditions : List Expression) :
    (rowsOf root conditions).chainRoot? = some root := by
  induction conditions using List.reverseRecOn with
  | nil => rfl
  | append_singleton conditions condition ih =>
    rw [rowsOf_append_singleton]
    exact ih

end Expression

namespace Chain

open Expression

/-! ### Chains taken apart -/

theorem takeLimit_limitedTo {e : Expression} (h : takeLimit e = (none, e))
    (limit : Option UInt64) : takeLimit (e.limitedTo limit) = (limit.map UInt64.toNat, e) := by
  cases limit with
  | none => exact h
  | some rows => rfl

theorem takeSort_sortedBy {e : Expression} (h : takeSort e = (none, e)) (sort : Option SortKey) :
    takeSort (e.sortedBy sort) =
      (sort.map fun sort => (.ref sort.name, sort.direction), e) := by
  cases sort with
  | none => exact h
  | some sort => rfl

theorem takeApplies_withResults {e : Expression} (h : takeApplies e = ([], e))
    (applies : List (String × Expression)) :
    takeApplies (e.withResults applies) = (applies, e) := by
  induction applies using List.reverseRecOn with
  | nil => exact h
  | append_singleton applies result ih =>
    rw [withResults_append_singleton, takeApplies, ih]

theorem takeSplit_grouped {e : Expression} (h : takeSplit e = (none, e))
    (split : Option SplitKey) : takeSplit (e.grouped split) = (split, e) := by
  cases split with
  | none => exact h
  | some split => rfl

/-- **Taking a chain apart** yields the parts that it was put together from. -/
theorem unwind_chain (root : String) (conditions : List Expression) (split : Option SplitKey)
    (applies : List (String × Expression)) (sort : Option SortKey) (limit : Option UInt64) :
    unwind (chain root conditions split applies sort limit) =
      ⟨rowsOf root conditions, split, applies,
        sort.map fun sort => (.ref sort.name, sort.direction), limit.map UInt64.toNat⟩ := by
  -- none of the operations that come later is at the end of what comes before it
  have hrows : takeLimit (rowsOf root conditions) = (none, rowsOf root conditions) ∧
      takeSort (rowsOf root conditions) = (none, rowsOf root conditions) ∧
      takeApplies (rowsOf root conditions) = ([], rowsOf root conditions) ∧
      takeSplit (rowsOf root conditions) = (none, rowsOf root conditions) := by
    cases conditions using List.reverseRecOn with
    | nil => exact ⟨rfl, rfl, rfl, rfl⟩
    | append_singleton conditions condition =>
      rw [rowsOf_append_singleton]
      exact ⟨rfl, rfl, rfl, rfl⟩
  obtain ⟨hlimit, hsort, happlies, hsplit⟩ := hrows
  rw [chain]
  generalize rowsOf root conditions = rows at *
  have hgroups : takeLimit (rows.grouped split) = (none, rows.grouped split) ∧
      takeSort (rows.grouped split) = (none, rows.grouped split) ∧
      takeApplies (rows.grouped split) = ([], rows.grouped split) := by
    cases split with
    | none => exact ⟨hlimit, hsort, happlies⟩
    | some split => exact ⟨rfl, rfl, rfl⟩
  obtain ⟨hlimit, hsort, happlies⟩ := hgroups
  have hresults : takeLimit ((rows.grouped split).withResults applies) =
        (none, (rows.grouped split).withResults applies) ∧
      takeSort ((rows.grouped split).withResults applies) =
        (none, (rows.grouped split).withResults applies) := by
    cases applies using List.reverseRecOn with
    | nil => exact ⟨hlimit, hsort⟩
    | append_singleton applies result =>
      rw [withResults_append_singleton]
      exact ⟨rfl, rfl⟩
  obtain ⟨hlimit, hsort⟩ := hresults
  have hsorted : takeLimit (((rows.grouped split).withResults applies).sortedBy sort) =
      (none, ((rows.grouped split).withResults applies).sortedBy sort) := by
    cases sort with
    | none => exact hlimit
    | some sort => rfl
  simp only [unwind, takeLimit_limitedTo hsorted, takeSort_sortedBy hsort,
    takeApplies_withResults happlies, takeSplit_grouped hsplit]

theorem limitedTo_takeLimit (e : Expression) :
    ∃ limit : Option UInt64, (takeLimit e).1 = limit.map UInt64.toNat ∧
      (takeLimit e).2.limitedTo limit = e := by
  cases e with
  | limit operand rows => exact ⟨some rows, rfl, rfl⟩
  | _ => exact ⟨none, rfl, rfl⟩

theorem sortedBy_takeSort {e : Expression} {sort : Option SortKey}
    (h : Bindings.sortOf (takeSort e).1 = .ok sort) : (takeSort e).2.sortedBy sort = e := by
  cases e with
  | sort operand key direction =>
    cases key with
    | ref name =>
      obtain rfl := Except.ok.inj h
      rfl
    | _ => exact nomatch h
  | _ =>
    obtain rfl := Except.ok.inj h
    rfl

theorem withResults_takeApplies (e : Expression) :
    (takeApplies e).2.withResults (takeApplies e).1 = e := by
  induction e with
  | apply operand body name ih _ =>
    rw [takeApplies, withResults_append_singleton, ih]
  | _ => rfl

theorem grouped_takeSplit (e : Expression) : (takeSplit e).2.grouped (takeSplit e).1 = e := by
  cases e <;> rfl

/-- **Putting a chain together** again from its parts, if these are those of a pattern. -/
theorem eq_chain {e : Expression} {root : String} {conditions : List Expression}
    {sort : Option SortKey} (hbase : (unwind e).base = rowsOf root conditions)
    (hsort : Bindings.sortOf (unwind e).sort = .ok sort) :
    ∃ limit : Option UInt64, (unwind e).limit = limit.map UInt64.toNat ∧
      e = chain root conditions (unwind e).split (unwind e).applies sort limit := by
  obtain ⟨limit, hlimit, he⟩ := limitedTo_takeLimit e
  refine ⟨limit, hlimit, ?_⟩
  have hsorted : (takeSort (takeLimit e).2).2.sortedBy sort = (takeLimit e).2 :=
    sortedBy_takeSort hsort
  have hresults : (takeApplies (takeSort (takeLimit e).2).2).2.withResults (unwind e).applies =
      (takeSort (takeLimit e).2).2 := withResults_takeApplies _
  have hgroups : (unwind e).base.grouped (unwind e).split =
      (takeApplies (takeSort (takeLimit e).2).2).2 := grouped_takeSplit _
  rw [chain, ← hbase, hgroups, hresults, hsorted, he]

end Chain

/-! ### Sources of chains -/

namespace Source

/-- The conjunction of conditions, in order; there is none without a condition. -/
def conjunction : List Expression → Option Expression
  | [] => none
  | condition :: conditions => some (conditions.foldl .conj condition)

/-- A source on which the conditions hold as well, in addition to its own filter. -/
def within (s : Source) (conditions : List Expression) : Source :=
  ⟨s.external, conjunction (s.filter.toList ++ conditions)⟩

theorem within_nil (s : Source) : s.within [] = s := by
  obtain ⟨x, _ | filter⟩ := s <;> rfl

theorem within_append_singleton (s : Source) (conditions : List Expression)
    (condition : Expression) :
    s.within (conditions ++ [condition]) = (s.within conditions).narrow condition := by
  rw [within, ← List.append_assoc]
  cases hall : s.filter.toList ++ conditions with
  | nil => rw [within, hall]; rfl
  | cons first others =>
    rw [within, hall, narrow, List.cons_append, conjunction, conjunction, List.foldl_concat]

end Source

namespace Bindings

/-- A reference with filters describes the source that its name means, on which the filters hold as
well. -/
theorem sourceOf_rowsOf (b : Bindings) (root : String) (conditions : List Expression) :
    b.sourceOf (.rowsOf root conditions) =
      (b.resolve root).map fun source => source.within conditions := by
  induction conditions using List.reverseRecOn with
  | nil =>
    rw [Expression.rowsOf, List.foldl_nil, sourceOf]
    cases b.resolve root with
    | error => rfl
    | ok source => exact congrArg Except.ok source.within_nil.symm
  | append_singleton conditions condition ih =>
    rw [Expression.rowsOf_append_singleton, sourceOf, ih]
    cases b.resolve root with
    | error => rfl
    | ok source =>
      exact congrArg Except.ok (source.within_append_singleton conditions condition).symm

theorem resolve_eq_ok {b : Bindings} {name : String} {source : Source} :
    b.resolve name = .ok source ↔ b.resolve? name = some source := by
  rw [resolve]
  cases b.resolve? name with
  | none => exact ⟨nofun, nofun⟩
  | some found => rw [Except.ok.injEq, Option.some.injEq]

/-! ### Patterns of chains -/

/-- The result of a pattern that an apply in a chain stands for; datasets are built from the rows
called `root`. -/
def resultOf (b : Bindings) (root : String) (apply : String × Expression) :
    Except CompileError (String × Body Pattern) :=
  if b.isSourceChain apply.2 then
    if apply.2.chainRoot? = some root then (b.pattern apply.2).map fun q => (apply.1, .nested q)
    else .error (.unsupportedShape (.foreignNested apply.2))
  else .ok (apply.1, .scalar apply.2)

/-- The pattern of a chain, with its results one by one. -/
theorem pattern_eq (b : Bindings) (e : Expression) :
    b.pattern e = (do
      let chain := Chain.unwind e
      let sort ← sortOf chain.sort
      if !chain.base.isFilteredRef then throw (.unsupportedShape (.operatorOrder e))
      let source ← b.sourceOf chain.base
      let root := chain.base.chainRoot?.getD ""
      if chain.split.isNone && !chain.applies.isEmpty then
        throw (.unsupportedShape (.applyOnRows e))
      let results ← chain.applies.mapM (b.resultOf root)
      .ok ⟨source, root, chain.split, results, sort, chain.limit⟩) := by
  have hresult (root : String) (apply : String × Expression) :
      (do
        if b.isSourceChain apply.2 then
          if apply.2.chainRoot? = some root then
            let nested ← b.pattern apply.2
            .ok (apply.1, Body.nested nested)
          else throw (.unsupportedShape (.foreignNested apply.2))
        else .ok (apply.1, Body.scalar apply.2)) = b.resultOf root apply := by
    rw [resultOf]
    cases b.pattern apply.2 <;> rfl
  have hresults (root : String) :
      (Chain.unwind e).applies.mapM (b.resultOf root) =
        (Chain.unwind e).applies.attach.mapM fun apply => b.resultOf root apply.1 := by
    conv_lhs => rw [← List.attach_map_subtype_val (Chain.unwind e).applies, List.mapM_map]
    rfl
  rw [pattern]
  simp only [hresults, ← hresult]

/-- **What patterns of chains consist of.** -/
theorem pattern_eq_ok {b : Bindings} {e : Expression} {p : Pattern} :
    b.pattern e = .ok p ↔ ∃ root conditions sort source results,
      (Chain.unwind e).base = .rowsOf root conditions ∧ sortOf (Chain.unwind e).sort = .ok sort ∧
      b.resolve? root = some source ∧
      ((Chain.unwind e).split = none → (Chain.unwind e).applies = []) ∧
      (Chain.unwind e).applies.mapM (b.resultOf root) = .ok results ∧
      p = ⟨source.within conditions, root, (Chain.unwind e).split, results, sort,
        (Chain.unwind e).limit⟩ := by
  rw [pattern_eq]
  constructor
  · intro h
    obtain ⟨sort, hsort, h⟩ := Except.bind_eq_ok.1 h
    dsimp only at h
    split at h
    · cases h
    next href =>
    obtain ⟨source, hsource, h⟩ := Except.bind_eq_ok.1 h
    split at h
    · cases h
    next hrows =>
    obtain ⟨results, hresults, h⟩ := Except.bind_eq_ok.1 h
    rw [Bool.not_eq_true', Bool.not_eq_false] at href
    obtain ⟨root, conditions, hbase⟩ := Expression.isFilteredRef_iff.1 href
    rw [hbase, sourceOf_rowsOf] at hsource
    obtain ⟨named, hnamed, rfl⟩ := Except.map_eq_ok.1 hsource
    rw [hbase, Expression.chainRoot?_rowsOf] at hresults h
    refine ⟨root, conditions, sort, named, results, hbase, hsort, resolve_eq_ok.1 hnamed,
      fun hsplit => ?_, hresults, (Except.ok.inj h).symm⟩
    simpa [hsplit] using hrows
  · rintro ⟨root, conditions, sort, source, results, hbase, hsort, hsource, hsplit, hresults, rfl⟩
    have href : (Chain.unwind e).base.isFilteredRef :=
      Expression.isFilteredRef_iff.2 ⟨root, conditions, hbase⟩
    have hnamed : b.sourceOf (.rowsOf root conditions) = .ok (source.within conditions) := by
      rw [sourceOf_rowsOf, resolve_eq_ok.2 hsource]
      rfl
    refine Except.bind_eq_ok.2 ⟨sort, hsort, ?_⟩
    rw [href, hbase, Expression.chainRoot?_rowsOf]
    refine Except.bind_eq_ok.2 ⟨_, hnamed, ?_⟩
    rw [if_neg (by simpa using hsplit)]
    exact Except.bind_eq_ok.2 ⟨results, hresults, rfl⟩

/-! ### The grammar -/

mutual

/-- The grammar of chains that have a pattern, each with its pattern: all parts of the chain are in
it, the filters of the chain together with that of the source. -/
inductive Describes (b : Bindings) : Expression → Pattern → Prop
  | chain {root : String} {source : Source} {split : Option SplitKey}
      {applies : List (String × Expression)} {results : List (String × Body Pattern)}
      (hsource : b.resolve? root = some source) (conditions : List Expression)
      (hsplit : split = none → applies = []) (hresults : DescribesAll b root applies results)
      (sort : Option SortKey) (limit : Option UInt64) :
      Describes b (.chain root conditions split applies sort limit)
        ⟨source.within conditions, root, split, results, sort, limit.map UInt64.toNat⟩

/-- The grammar of the results in a chain that starts at `root`. A chain from a datasource must
start at `root` as well and becomes a nested pattern; any other expression stays as it is. -/
inductive DescribesAll (b : Bindings) :
    String → List (String × Expression) → List (String × Body Pattern) → Prop
  | nil {root : String} : DescribesAll b root [] []
  | nested {root name : String} {body : Expression} {pattern : Pattern}
      {applies : List (String × Expression)} {results : List (String × Body Pattern)}
      (hchain : b.isSourceChain body = true) (hroot : body.chainRoot? = some root)
      (hbody : Describes b body pattern) (hrest : DescribesAll b root applies results) :
      DescribesAll b root ((name, body) :: applies) ((name, .nested pattern) :: results)
  | scalar {root name : String} {body : Expression} {applies : List (String × Expression)}
      {results : List (String × Body Pattern)} (hvalue : b.isSourceChain body = false)
      (hrest : DescribesAll b root applies results) :
      DescribesAll b root ((name, body) :: applies) ((name, .scalar body) :: results)

end

theorem resultOf_nested {b : Bindings} {root name : String} {body : Expression} {pattern : Pattern}
    (hchain : b.isSourceChain body = true) (hroot : body.chainRoot? = some root)
    (hbody : b.pattern body = .ok pattern) :
    b.resultOf root (name, body) = .ok (name, .nested pattern) := by
  rw [resultOf, if_pos hchain, if_pos hroot, hbody]
  rfl

theorem resultOf_scalar {b : Bindings} {root name : String} {body : Expression}
    (hvalue : b.isSourceChain body = false) :
    b.resultOf root (name, body) = .ok (name, .scalar body) := by
  rw [resultOf, hvalue, if_neg Bool.false_ne_true]

/-- The planner accepts what the grammar describes. -/
theorem Describes.pattern_eq {b : Bindings} {e : Expression} {p : Pattern} (h : b.Describes e p) :
    b.pattern e = .ok p := by
  induction h using Describes.rec
    (motive_2 := fun root applies results _ => applies.mapM (b.resultOf root) = .ok results) with
  | @chain root source split applies results hsource conditions hsplit _ sort limit ih =>
    rw [pattern_eq_ok, Chain.unwind_chain]
    refine ⟨root, conditions, sort, source, results, rfl, ?_, hsource, hsplit, ih, rfl⟩
    cases sort <;> rfl
  | nil => rfl
  | nested hchain hroot _ _ hbody hrest =>
    rw [List.mapM_cons, resultOf_nested hchain hroot hbody, hrest]
    rfl
  | scalar hvalue _ hrest =>
    rw [List.mapM_cons, resultOf_scalar hvalue, hrest]
    rfl

/-- The grammar describes results if it describes each chain among them. -/
theorem describesAll_of_mapM {b : Bindings} {root : String} {applies : List (String × Expression)}
    {results : List (String × Body Pattern)}
    (hbodies : ∀ apply ∈ applies, ∀ q, b.pattern apply.2 = .ok q → b.Describes apply.2 q)
    (h : applies.mapM (b.resultOf root) = .ok results) : b.DescribesAll root applies results := by
  induction Except.mapM_eq_ok.1 h with
  | nil => exact .nil
  | @cons apply result applies results hresult hrest ih =>
    obtain ⟨hbody, hbodies⟩ := List.forall_mem_cons.1 hbodies
    have hrest := ih hbodies (Except.mapM_eq_ok.2 hrest)
    obtain ⟨name, body⟩ := apply
    rw [resultOf] at hresult
    split at hresult
    · next hchain =>
      split at hresult
      · next hroot =>
        obtain ⟨q, hq, rfl⟩ := Except.map_eq_ok.1 hresult
        exact .nested hchain hroot (hbody q hq) hrest
      · cases hresult
    · next hchain =>
      cases hresult
      rw [Bool.not_eq_true] at hchain
      exact .scalar hchain hrest

/-- The grammar describes what the planner accepts. -/
theorem describes_of_pattern {b : Bindings} {e : Expression} {p : Pattern}
    (h : b.pattern e = .ok p) : b.Describes e p := by
  induction hsize : sizeOf e using Nat.strongRecOn generalizing e p with
  | ind size ih =>
    obtain ⟨root, conditions, sort, source, results, hbase, hsort, hsource, hsplit, hresults,
      rfl⟩ :=
      pattern_eq_ok.1 h
    obtain ⟨limit, hlimit, he⟩ := Chain.eq_chain hbase hsort
    have hall : b.DescribesAll root (Chain.unwind e).applies results :=
      describesAll_of_mapM (fun apply happly q hq =>
        ih _ (hsize ▸ Chain.sizeOf_lt_of_mem_applies happly) hq rfl) hresults
    have hdescribes := Describes.chain hsource conditions hsplit hall sort limit
    rwa [← he, ← hlimit] at hdescribes

/-- **The grammar of patterns.** A chain has a pattern if and only if the grammar describes it, and
the pattern is the one that the grammar gives. -/
theorem pattern_iff_describes (b : Bindings) (e : Expression) (p : Pattern) :
    b.pattern e = .ok p ↔ b.Describes e p :=
  ⟨describes_of_pattern, Describes.pattern_eq⟩

end Bindings

end FederatedQuery
