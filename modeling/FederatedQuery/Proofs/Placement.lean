import FederatedQuery.Proofs.Grammar
import FederatedQuery.Proofs.Pipelines

/-!
# The places of applies in a plan

Each apply of a pipeline has one place in its plan. A reference to a datasource with filters binds
its name and computes nothing; a dataset and a derived value have a step of their own; a value over
the aggregates of one source is among the results of one query for totals, in the order of the
applies. What a query reads from is what its name means at the place of the apply: what the last
apply of this name before it binds it to, and the datasource of the context if there is none.

Queries for totals are filled while names are bound anew. A query collects further totals only as
long as its name still means the source that it had when the query was begun.

## Main definitions

* `Expression.conditions`: the filters of a chain.
* `Bindings.sourceAfter`, `Bindings.sourceAt`: what a name means behind some applies.
* `Bindings.computedPlaces`: the applies that bind no names.
* `Step.Computes`: the applies that a step computes.
* `Pipeline.Placed`: pipelines in the making.

## Main results

* `Pipeline.placed_addApply`: one more apply has a place.
* `Plan.places_of_ofExpression`: the places of all applies.
-/

namespace FederatedQuery

/-! ### The filters of a chain -/

namespace Expression

/-- The filters of a chain, in order. -/
def conditions : Expression → List Expression
  | .filter operand condition => operand.conditions ++ [condition]
  | .split operand _ _ => operand.conditions
  | .apply operand _ _ => operand.conditions
  | .sort operand _ _ => operand.conditions
  | .limit operand _ => operand.conditions
  | _ => []

theorem conditions_rowsOf (root : String) (conditions : List Expression) :
    (rowsOf root conditions).conditions = conditions := by
  induction conditions using List.reverseRecOn with
  | nil => rfl
  | append_singleton conditions condition ih =>
    rw [rowsOf_append_singleton, Expression.conditions, ih]

/-- The operations after the filters change neither the name at which a chain starts nor its
filters. -/
theorem chainRoot?_chain (root : String) (conditions : List Expression) (split : Option SplitKey)
    (applies : List (String × Expression)) (sort : Option SortKey) (limit : Option UInt64) :
    (chain root conditions split applies sort limit).chainRoot? = some root ∧
      (chain root conditions split applies sort limit).conditions = conditions := by
  have hrows := And.intro (chainRoot?_rowsOf root conditions) (conditions_rowsOf root conditions)
  have hgroups : ((rowsOf root conditions).grouped split).chainRoot? = some root ∧
      ((rowsOf root conditions).grouped split).conditions = conditions := by
    cases split <;> exact hrows
  have hresults : (((rowsOf root conditions).grouped split).withResults applies).chainRoot? =
        some root ∧
      (((rowsOf root conditions).grouped split).withResults applies).conditions = conditions := by
    induction applies using List.reverseRecOn with
    | nil => exact hgroups
    | append_singleton applies result ih =>
      rw [withResults_append_singleton]
      exact ih
  rw [chain]
  cases limit <;> cases sort <;> exact hresults

end Expression

/-! ### What names mean behind applies -/

namespace Bindings

/-- What a name means behind some applies, of which the last one comes first: what the last apply of
this name binds it to, if there is a reference to a datasource with filters among them. Its filters
are added to what its own name meant before. -/
def sourceAfter (b : Bindings) : List (String × Expression) → String → Option Source
  | [], root => b.resolve? root
  | (name, e) :: earlier, root =>
    let bound :=
      if name = root ∧ e.isFilteredRef then
        (e.chainRoot?.bind (b.sourceAfter earlier)).map (·.within e.conditions)
      else none
    bound.or (b.sourceAfter earlier root)

/-- What a name means at the place of an apply, behind all applies before it. -/
def sourceAt (b : Bindings) (applies : List (String × Expression)) (place : Nat) :
    String → Option Source :=
  b.sourceAfter (applies.take place).reverse

/-- The source from which a chain reads at the place of an apply. -/
def chainSourceAt (b : Bindings) (applies : List (String × Expression)) (place : Nat)
    (e : Expression) : Option Source :=
  e.chainRoot?.bind (b.sourceAt applies place)

/-- A chain starts at a datasource if the name at its start means one. -/
theorem isSourceChain_eq_isSome (b : Bindings) (e : Expression) :
    b.isSourceChain e = (e.chainRoot?.bind b.resolve?).isSome := by
  rw [isSourceChain]
  cases e.chainRoot? <;> rfl

theorem resolve?_bind (b : Bindings) (name : String) (source : Source) (root : String) :
    (b.bind name source).resolve? root =
      if root = name then some source else b.resolve? root := by
  rw [resolve?, bind, List.lookup_cons]
  by_cases h : root = name
  · rw [h, beq_self_eq_true, if_pos rfl]
  · rw [beq_false_of_ne h, if_neg h]
    rfl

/-- Whether an apply binds its name: it is a reference to a datasource with filters. -/
def isBinding (b : Bindings) (applies : List (String × Expression)) (place : Nat) : Bool :=
  applies[place]?.any fun apply =>
    apply.2.isFilteredRef && (b.chainSourceAt applies place apply.2).isSome

end Bindings

/-! ### The applies that a step computes -/

/-- A step computes the applies at some places: a dataset, the pattern of a chain in which names
mean what they mean at its place; a derived value; or totals of one source, in order, that are not
empty and whose name means this source at all of their places. -/
inductive Step.Computes (b : Bindings) (applies : List (String × Expression)) :
    Step → List Nat → Prop
  | dataset {place : Nat} {name root : String} {e : Expression} {pattern : Pattern}
      {source : Source} {meaning : Bindings} (happly : applies[place]? = some (name, e))
      (href : e.isFilteredRef = false) (hroot : e.chainRoot? = some root)
      (hsource : b.sourceAt applies place root = some source)
      (hmeaning : meaning.resolve? = b.sourceAt applies place)
      (hpattern : meaning.pattern e = .ok pattern) (hname : pattern.dataName = root)
      (hreads : pattern.source = source.within e.conditions) :
      Computes b applies (.dataset name pattern) [place]
  | derived {place : Nat} {name : String} {e : Expression}
      (happly : applies[place]? = some (name, e))
      (hchain : b.chainSourceAt applies place e = none) (hroots : e.aggregateRoots = []) :
      Computes b applies (.derived name e) [place]
  | totals {places : List Nat} {root : String} {source : Source} (hne : places ≠ [])
      (hordered : places.Pairwise (· < ·))
      (happlies : ∀ place ∈ places, ∃ name e, applies[place]? = some (name, e) ∧
        b.chainSourceAt applies place e = none ∧ e.aggregateRoots = [root] ∧
        b.sourceAt applies place root = some source) :
      Computes b applies (.totals (.scalars source root (places.filterMap (applies[·]?)))) places

/-- A query for a single total. -/
theorem Step.Computes.total {b : Bindings} {applies : List (String × Expression)} {place : Nat}
    {name root : String} {e : Expression} {source : Source}
    (happly : applies[place]? = some (name, e)) (hchain : b.chainSourceAt applies place e = none)
    (hroots : e.aggregateRoots = [root]) (hsource : b.sourceAt applies place root = some source) :
    (Step.totals (.scalars source root [(name, e)])).Computes b applies [place] := by
  have hone : [place].filterMap (applies[·]?) = [(name, e)] := by
    rw [List.filterMap_cons_some happly, List.filterMap_nil]
  rw [← hone]
  exact .totals (List.cons_ne_nil _ _) (List.pairwise_singleton _ _)
    (List.forall_mem_singleton.2 ⟨name, e, happly, hchain, hroots, hsource⟩)

/-! ### More applies at the end -/

section

variable {b : Bindings} {applies : List (String × Expression)} {place : Nat}

/-- What names mean does not depend on the applies from there on. -/
theorem Bindings.sourceAt_append (h : place ≤ applies.length) (more : List (String × Expression)) :
    b.sourceAt (applies ++ more) place = b.sourceAt applies place := by
  rw [sourceAt, List.take_append_of_le_length h, sourceAt]

theorem Bindings.sourceAt_length (b : Bindings) (applies : List (String × Expression)) :
    b.sourceAt applies applies.length = b.sourceAfter applies.reverse := by
  rw [sourceAt, List.take_length]

theorem Bindings.chainSourceAt_append (h : place ≤ applies.length)
    (more : List (String × Expression)) (e : Expression) :
    b.chainSourceAt (applies ++ more) place e = b.chainSourceAt applies place e := by
  rw [chainSourceAt, sourceAt_append h, chainSourceAt]

theorem Bindings.isBinding_append (h : place < applies.length)
    (more : List (String × Expression)) :
    b.isBinding (applies ++ more) place = b.isBinding applies place := by
  rw [isBinding, List.getElem?_append_left h]
  simp only [chainSourceAt_append h.le]
  rfl

/-- A step computes applies that there are. -/
theorem Step.Computes.lt_length {step : Step} {places : List Nat}
    (h : step.Computes b applies places) : ∀ place ∈ places, place < applies.length := by
  intro place hplace
  cases h with
  | dataset happly | derived happly =>
    rw [List.mem_singleton.1 hplace]
    exact (List.getElem?_eq_some_iff.1 happly).1
  | totals _ _ happlies =>
    obtain ⟨name, e, happly, -⟩ := happlies place hplace
    exact (List.getElem?_eq_some_iff.1 happly).1

/-- A step still computes the same with more applies at the end. -/
theorem Step.Computes.append {step : Step} {places : List Nat}
    (h : step.Computes b applies places) (more : List (String × Expression)) :
    step.Computes b (applies ++ more) places := by
  have hlt := h.lt_length
  have happly {place : Nat} (hplace : place ∈ places) :
      (applies ++ more)[place]? = applies[place]? := List.getElem?_append_left (hlt place hplace)
  cases h with
  | dataset h href hroot hsource hmeaning hpattern hname hreads =>
    have hle := (hlt _ (List.mem_singleton_self _)).le
    refine .dataset ((happly (List.mem_singleton_self _)).trans h) href hroot ?_ ?_ hpattern hname
      hreads
    · rwa [Bindings.sourceAt_append hle]
    · rwa [Bindings.sourceAt_append hle]
  | derived h hchain hroots =>
    have hle := (hlt _ (List.mem_singleton_self _)).le
    refine .derived ((happly (List.mem_singleton_self _)).trans h) ?_ hroots
    rwa [Bindings.chainSourceAt_append hle]
  | @totals places root source hne hordered happlies =>
    have hsame : places.filterMap (applies[·]?) = places.filterMap ((applies ++ more)[·]?) :=
      List.filterMap_congr fun place hplace => (happly hplace).symm
    rw [hsame]
    refine .totals hne hordered fun place hplace => ?_
    obtain ⟨name, e, h, hchain, hroots, hsource⟩ := happlies place hplace
    refine ⟨name, e, (happly hplace).trans h, ?_, hroots, ?_⟩
    · rwa [Bindings.chainSourceAt_append (hlt place hplace).le]
    · rwa [Bindings.sourceAt_append (hlt place hplace).le]

/-- A query for totals computes the last apply as well, if its name still means the same source. -/
theorem Step.Computes.addScalar {pattern : Pattern} {places : List Nat} {name : String}
    {e : Expression} (h : (Step.totals pattern).Computes b applies places)
    (hchain : b.chainSourceAt (applies ++ [(name, e)]) applies.length e = none)
    (hroots : e.aggregateRoots = [pattern.dataName])
    (hsource : b.sourceAt (applies ++ [(name, e)]) applies.length pattern.dataName =
      some pattern.source) :
    (Step.totals (pattern.addScalar name e)).Computes b (applies ++ [(name, e)])
      (places ++ [applies.length]) := by
  have hlt := h.lt_length
  cases h.append [(name, e)] with
  | totals hne hordered happlies =>
    have hall : (places ++ [applies.length]).filterMap ((applies ++ [(name, e)])[·]?) =
        places.filterMap ((applies ++ [(name, e)])[·]?) ++ [(name, e)] := by
      rw [List.filterMap_append]
      simp
    rw [Pattern.addScalar_scalars, ← hall]
    refine .totals (List.append_ne_nil_of_left_ne_nil hne _) ?_ ?_
    · refine List.pairwise_append.2 ⟨hordered, List.pairwise_singleton _ _, ?_⟩
      intro place hplace last hlast
      rw [List.mem_singleton.1 hlast]
      exact hlt place hplace
    · intro place hplace
      obtain hold | hlast := List.mem_append.1 hplace
      · exact happlies place hold
      · rw [List.mem_singleton.1 hlast]
        exact ⟨name, e, List.getElem?_concat_length, hchain, hroots, hsource⟩

/-- The places of the applies that bind no names. -/
def Bindings.computedPlaces (b : Bindings) (applies : List (String × Expression)) : List Nat :=
  (List.range applies.length).filter fun place => !b.isBinding applies place

theorem Bindings.computedPlaces_append_singleton (b : Bindings)
    (applies : List (String × Expression)) (apply : String × Expression) :
    b.computedPlaces (applies ++ [apply]) = b.computedPlaces applies ++
      if b.isBinding (applies ++ [apply]) applies.length then [] else [applies.length] := by
  rw [computedPlaces, List.length_append, List.length_singleton, List.range_succ,
    List.filter_append]
  congr 1
  · refine List.filter_congr fun place hplace => ?_
    rw [isBinding_append (List.mem_range.1 hplace)]
  · rw [List.filter_singleton]
    cases b.isBinding (applies ++ [apply]) applies.length <;> rfl

end

/-! ### One of several lists changed -/

section

variable {α β : Type} {R S : α → β → Prop} {f : α → α} {g : β → β}

/-- Two lists are related entry by entry after two entries that belong together have changed. -/
theorem forall₂_modify {as : List α} {bs : List β} (h : List.Forall₂ R as bs) {index : Nat} {a : α}
    (ha : as[index]? = some a) (hkept : ∀ a b, R a b → S a b)
    (hchanged : ∀ b, R a b → S (f a) (g b)) :
    List.Forall₂ S (as.modify index f) (bs.modify index g) := by
  induction h generalizing index with
  | nil => exact nomatch ha
  | @cons first _ _ _ hfirst hrest ih =>
    cases index with
    | zero =>
      obtain rfl : first = a := Option.some.inj ha
      exact .cons (hchanged _ hfirst) (hrest.imp hkept)
    | succ index => exact .cons (hkept _ _ hfirst) (ih ha)

/-- One more entry at the end of one of several lists. -/
theorem flatten_modify_perm {lists : List (List α)} {index : Nat} (h : index < lists.length)
    (a : α) : (lists.modify index (· ++ [a])).flatten.Perm (lists.flatten ++ [a]) := by
  induction lists generalizing index with
  | nil => exact absurd h (Nat.not_lt_zero _)
  | cons list lists ih =>
    cases index with
    | zero =>
      rw [List.modify_zero_cons, List.flatten_cons, List.flatten_cons, List.append_assoc,
        List.append_assoc]
      exact List.perm_append_comm.append_left list
    | succ index =>
      rw [List.modify_succ_cons, List.flatten_cons, List.flatten_cons, List.append_assoc]
      exact (ih (Nat.lt_of_succ_lt_succ h)).append_left list

end

/-! ### Pipelines in the making -/

/-- The steps of a pipeline compute the applies gone through that bind no names, each of them once.
Names mean what they mean behind these applies, and so do the names of totals that are still being
collected. -/
structure Pipeline.Placed (b : Bindings) (applies : List (String × Expression)) (p : Pipeline) :
    Prop where
  resolve : p.bindings.resolve? = b.sourceAfter applies.reverse
  collecting : ∀ root index, p.collecting.lookup root = some index → ∃ pattern,
    p.steps[index]? = some (.totals pattern) ∧ pattern.dataName = root ∧
      p.bindings.resolve? root = some pattern.source
  places : ∃ places, List.Forall₂ (Step.Computes b applies) p.steps places ∧
    places.flatten.Perm (b.computedPlaces applies)

namespace Pipeline.Placed

variable {b : Bindings} {applies : List (String × Expression)} {p p' : Pipeline} {name : String}
  {e : Expression}

/-- What names mean at the place of the next apply. -/
theorem sourceAt_eq (h : p.Placed b applies) (name : String) (e : Expression) :
    b.sourceAt (applies ++ [(name, e)]) applies.length = p.bindings.resolve? := by
  rw [Bindings.sourceAt_append le_rfl, Bindings.sourceAt_length, h.resolve]

/-- The source of a chain is what the name at its start means. -/
theorem chainSourceAt_eq (h : p.Placed b applies) (name : String) (e : Expression) :
    b.chainSourceAt (applies ++ [(name, e)]) applies.length e =
      e.chainRoot?.bind p.bindings.resolve? := by
  rw [Bindings.chainSourceAt, h.sourceAt_eq]

theorem chainSourceAt_eq_none (h : p.Placed b applies) (hchain : p.bindings.isSourceChain e = false)
    (name : String) : b.chainSourceAt (applies ++ [(name, e)]) applies.length e = none := by
  rw [h.chainSourceAt_eq, ← Option.isNone_iff_eq_none, ← Option.isSome_eq_false_iff,
    ← Bindings.isSourceChain_eq_isSome, hchain]

theorem isBinding_eq (h : p.Placed b applies) (name : String) (e : Expression) :
    b.isBinding (applies ++ [(name, e)]) applies.length =
      (e.isFilteredRef && p.bindings.isSourceChain e) := by
  rw [Bindings.isBinding, List.getElem?_concat_length, Option.any_some, h.chainSourceAt_eq,
    Bindings.isSourceChain_eq_isSome]

/-- What names mean behind one more apply. -/
theorem sourceAfter_eq (h : p.Placed b applies) (name : String) (e : Expression) (root : String) :
    b.sourceAfter (applies ++ [(name, e)]).reverse root =
      (if name = root ∧ e.isFilteredRef then
        (e.chainRoot?.bind p.bindings.resolve?).map (·.within e.conditions)
      else none).or (p.bindings.resolve? root) := by
  rw [List.reverse_append, List.reverse_singleton, List.singleton_append, Bindings.sourceAfter,
    ← h.resolve]

/-- The names behind one more apply mean what they meant before, if it is no binding. -/
theorem sourceAfter_of_not_binding (h : p.Placed b applies)
    (hbinding : (e.isFilteredRef && p.bindings.isSourceChain e) = false) (name : String) :
    p.bindings.resolve? = b.sourceAfter (applies ++ [(name, e)]).reverse := by
  funext root
  rw [h.sourceAfter_eq]
  split
  · next hname =>
    rw [hname.2, Bool.true_and, Bindings.isSourceChain_eq_isSome, Option.isSome_eq_false_iff,
      Option.isNone_iff_eq_none] at hbinding
    rw [hbinding]
    rfl
  · rfl

/-- An apply that binds its name has no place. -/
theorem rebind (h : p.Placed b applies) {source : Source} (href : e.isFilteredRef = true)
    (hchain : p.bindings.isSourceChain e = true) (hsource : p.bindings.sourceOf e = .ok source)
    (name : String) : (p.rebind name source).Placed b (applies ++ [(name, e)]) := by
  obtain ⟨start, conditions, rfl⟩ := Expression.isFilteredRef_iff.1 href
  rw [Bindings.sourceOf_rowsOf] at hsource
  obtain ⟨named, hnamed, rfl⟩ := Except.map_eq_ok.1 hsource
  refine ⟨funext fun root => ?_, fun root index hlookup => ?_, ?_⟩
  · rw [h.sourceAfter_eq, Expression.chainRoot?_rowsOf, Option.bind_some,
      Bindings.resolve_eq_ok.1 hnamed, Expression.conditions_rowsOf, href]
    refine (p.bindings.resolve?_bind name _ root).trans ?_
    by_cases hname : root = name
    · rw [if_pos hname, if_pos ⟨hname.symm, rfl⟩]
      rfl
    · rw [if_neg hname, if_neg fun hsame => hname hsame.1.symm, Option.none_or]
  · obtain ⟨hne, hlookup⟩ := Pipeline.Performed.lookup_filter_ne hlookup
    obtain ⟨pattern, hpattern, hdata, hreads⟩ := h.collecting root index hlookup
    refine ⟨pattern, hpattern, hdata, ?_⟩
    rw [Pipeline.rebind, Bindings.resolve?_bind, if_neg hne, hreads]
  · obtain ⟨places, hsteps, hperm⟩ := h.places
    refine ⟨places, hsteps.imp fun _ _ hstep => hstep.append _, ?_⟩
    rw [Bindings.computedPlaces_append_singleton, h.isBinding_eq, href, hchain]
    simpa using hperm

/-- One more step computes the apply. -/
theorem addStep (h : p.Placed b applies) {step : Step}
    (hstep : step.Computes b (applies ++ [(name, e)]) [applies.length])
    (hbinding : (e.isFilteredRef && p.bindings.isSourceChain e) = false) :
    (p.addStep step).Placed b (applies ++ [(name, e)]) where
  resolve := h.sourceAfter_of_not_binding hbinding name
  collecting root index hlookup := by
    obtain ⟨pattern, hpattern, hdata, hreads⟩ := h.collecting root index hlookup
    refine ⟨pattern, ?_, hdata, hreads⟩
    rw [Pipeline.addStep, List.getElem?_append_left (List.getElem?_eq_some_iff.1 hpattern).1]
    exact hpattern
  places := by
    obtain ⟨places, hsteps, hperm⟩ := h.places
    refine ⟨places ++ [[applies.length]], ?_, ?_⟩
    · exact List.rel_append (hsteps.imp fun _ _ hold => hold.append _) (.cons hstep .nil)
    · rw [Bindings.computedPlaces_append_singleton, h.isBinding_eq, hbinding]
      simpa using hperm.append_right [applies.length]

/-- A query that collects totals of the source computes the apply as well. -/
theorem addScalar (h : p.Placed b applies) {root : String} {index : Nat}
    (hlookup : p.collecting.lookup root = some index)
    (hchain : p.bindings.isSourceChain e = false) (hroots : e.aggregateRoots = [root])
    (name : String) :
    Pipeline.Placed b (applies ++ [(name, e)])
      { p with steps := p.steps.modify index (Step.addScalar name e) } := by
  have hbinding : (e.isFilteredRef && p.bindings.isSourceChain e) = false := by
    rw [hchain, Bool.and_false]
  obtain ⟨pattern, hpattern, hdata, hreads⟩ := h.collecting root index hlookup
  refine ⟨h.sourceAfter_of_not_binding hbinding name, fun other i hother => ?_, ?_⟩
  · obtain ⟨collector, hcollector, hname, hsource⟩ := h.collecting other i hother
    rw [List.getElem?_modify, hcollector]
    split
    · exact ⟨collector.addScalar name e, rfl, hname, hsource⟩
    · exact ⟨collector, rfl, hname, hsource⟩
  · obtain ⟨places, hsteps, hperm⟩ := h.places
    refine ⟨places.modify index (· ++ [applies.length]), ?_, ?_⟩
    · refine forall₂_modify hsteps hpattern (fun _ _ hstep => hstep.append _) fun found hfound => ?_
      refine hfound.addScalar ?_ (hdata.symm ▸ hroots) ?_
      · exact h.chainSourceAt_eq_none hchain name
      · rw [h.sourceAt_eq, hdata, hreads]
    · rw [Bindings.computedPlaces_append_singleton, h.isBinding_eq, hbinding]
      refine (flatten_modify_perm ?_ _).trans (hperm.append_right _)
      rw [← hsteps.length_eq]
      exact (List.getElem?_eq_some_iff.1 hpattern).1

/-- A value over the aggregates of one source is among the results of one query. -/
theorem addTotal (h : p.Placed b applies) {root : String}
    (hchain : p.bindings.isSourceChain e = false) (hroots : e.aggregateRoots = [root])
    (htotal : p.addTotal root name e = .ok p') : p'.Placed b (applies ++ [(name, e)]) := by
  rw [Pipeline.addTotal] at htotal
  cases hlookup : p.collecting.lookup root with
  | some index =>
    rw [hlookup] at htotal
    obtain rfl := Except.ok.inj htotal
    exact h.addScalar hlookup hchain hroots name
  | none =>
    rw [hlookup] at htotal
    obtain ⟨source, hsource, htotal⟩ := Except.bind_eq_ok.1 htotal
    rw [Bindings.resolve_eq_ok] at hsource
    obtain rfl := Except.ok.inj htotal
    have hstep : (Step.totals (.scalars source root [(name, e)])).Computes b
        (applies ++ [(name, e)]) [applies.length] := by
      refine .total List.getElem?_concat_length (h.chainSourceAt_eq_none hchain name) hroots ?_
      rw [h.sourceAt_eq, hsource]
    have hplaced := h.addStep hstep (by rw [hchain, Bool.and_false])
    refine ⟨hplaced.resolve, fun other index hother => ?_, hplaced.places⟩
    rw [List.lookup_cons] at hother
    split at hother
    · next hsame =>
      obtain rfl := eq_of_beq hsame
      obtain rfl := Option.some.inj hother
      exact ⟨_, List.getElem?_concat_length, rfl, hsource⟩
    · exact hplaced.collecting other index hother

end Pipeline.Placed

/-- **One more apply has a place**, unless it binds its name. -/
theorem Pipeline.placed_addApply {b : Bindings} {applies : List (String × Expression)}
    {p p' : Pipeline} {name : String} {e : Expression} (h : p.Placed b applies)
    (happly : p.addApply name e = .ok p') : p'.Placed b (applies ++ [(name, e)]) := by
  have hlast : (applies ++ [(name, e)])[applies.length]? = some (name, e) :=
    List.getElem?_concat_length
  rw [Pipeline.addApply] at happly
  split at happly
  · next hbinding =>
    obtain ⟨href, hchain⟩ := Bool.and_eq_true_iff.1 hbinding
    obtain ⟨source, hsource, happly⟩ := Except.bind_eq_ok.1 happly
    obtain rfl := Except.ok.inj happly
    exact h.rebind href hchain hsource name
  next hbinding =>
  rw [Bool.not_eq_true] at hbinding
  split at happly
  · next hchain =>
    obtain ⟨pattern, hpattern, happly⟩ := Except.bind_eq_ok.1 happly
    obtain rfl := Except.ok.inj happly
    refine h.addStep ?_ hbinding
    obtain ⟨root, conditions, sort, source, results, hbase, hsort, hsource, -, -, rfl⟩ :=
      Bindings.pattern_eq_ok.1 hpattern
    obtain ⟨limit, -, heq⟩ := Chain.eq_chain hbase hsort
    obtain ⟨hroot, hconditions⟩ := Expression.chainRoot?_chain root conditions
      (Chain.unwind e).split (Chain.unwind e).applies sort limit
    rw [← heq] at hroot hconditions
    rw [hchain, Bool.and_true] at hbinding
    rw [← h.sourceAt_eq name e] at hsource
    refine .dataset hlast hbinding hroot hsource (h.sourceAt_eq name e).symm hpattern rfl ?_
    rw [hconditions]
  next hchain =>
  rw [Bool.not_eq_true] at hchain
  split at happly
  · next hroots =>
    obtain rfl := Except.ok.inj happly
    exact h.addStep (.derived hlast (h.chainSourceAt_eq_none hchain name) hroots) hbinding
  · next root hroots => exact h.addTotal hchain hroots happly
  · cases happly

/-! ### Plans of pipelines -/

/-- **The places of all applies.** Each apply of a pipeline that has a plan either binds its name or
is computed by one step of the plan, and by this one only once. A step is a dataset, a derived value
or totals in the order of their applies, and reads the source that its name means at the places of
its applies. -/
theorem Plan.places_of_ofExpression {context : Context} {e : Expression} {seed : Row}
    {applies : List (String × Expression)} {plan : Plan}
    (hunwind : Pipeline.unwind? e = some (seed, applies))
    (hplan : Plan.ofExpression context e = .ok plan) :
    ∃ steps places, plan = .pipeline seed steps ∧
      List.Forall₂ (Step.Computes (.ofContext context) applies) steps places ∧
      places.flatten.Perm (Bindings.computedPlaces (.ofContext context) applies) := by
  obtain ⟨p, hp, rfl⟩ := (Plan.ofExpression_eq_ok hunwind).1 hplan
  have hplaced : p.Placed (.ofContext context) applies := by
    refine Except.foldlM_induction (motive := fun done p =>
      Pipeline.Placed (.ofContext context) done p) hp ?_ fun _ _ _ _ h happly =>
        Pipeline.placed_addApply h happly
    exact ⟨rfl, nofun, [], .nil, List.Perm.nil⟩
  obtain ⟨places, hsteps, hperm⟩ := hplaced.places
  exact ⟨p.steps, places, rfl, hsteps, hperm⟩

namespace Sample

/-- The edits of one page. -/
def edited : Expression :=
  .filter (.ref "edits") (.eqTo (.ref "page") (.literal (.string "Main")))

/-- Totals of all edits and of those of one page, by the same name. -/
def narrowedEdits : List (String × Expression) :=
  [("Edits", .count (.ref "edits")), ("edits", edited), ("Main", .count (.ref "edits")),
    ("Share", .binary (.arithmetic .divide) (.ref "Main") (.ref "Edits")),
    ("Added", .binary (.measure .sum) (.ref "edits") (.ref "added"))]

end Sample

open Sample in
/-- Totals of edits are collected anew once their name is bound. -/
theorem Plan.places_of_narrowedEdits :
    Pipeline.unwind? (editsJob narrowedEdits).expression = some ([], narrowedEdits) ∧
      ∃ all main share places,
        ofExpression [("edits", edits)] (editsJob narrowedEdits).expression =
          .ok (.pipeline [] [.totals all, .totals main, share]) ∧
        List.Forall₂ (Step.Computes (.ofContext [("edits", edits)]) narrowedEdits)
          [.totals all, .totals main, share] places ∧
        places.flatten.Perm [0, 2, 3, 4] := by
  obtain ⟨all, main, share, hplan⟩ : ∃ all main share,
      ofExpression [("edits", edits)] (editsJob narrowedEdits).expression =
        .ok (.pipeline [] [.totals all, .totals main, share]) := ⟨_, _, _, rfl⟩
  have hunwind : Pipeline.unwind? (editsJob narrowedEdits).expression =
      some ([], narrowedEdits) := rfl
  obtain ⟨steps, places, hpipeline, hsteps, hperm⟩ := Plan.places_of_ofExpression hunwind hplan
  obtain rfl := (Plan.pipeline.inj hpipeline).2
  exact ⟨hunwind, all, main, share, places, hplan, hsteps, hperm⟩

end FederatedQuery
