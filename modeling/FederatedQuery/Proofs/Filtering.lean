import FederatedQuery.Proofs.Sample
import FederatedQuery.Proofs.Translation

/-!
# What can be filtered by

A native filter is made of tests, at any depth of conjunctions, disjunctions and negations. Every
test is one of the time of a row, or one that suits the column that it reads. On the other hand
there are predicates of which no test can decide: those on columns that are not known and on
metrics, those that look into sets of values, and those that ask of the time of a row whether it is
or compares with an instant. A condition with such a predicate is refused, wherever the predicate
stands in it; the predicate is not left out.

## Main definitions

* `Native.Filter.leaves`, `Native.Filter.IsOffered`: what a filter is made of.
* `Expression.IsUndecidable`: predicates of which no test can decide.

## Main results

* `Native.Translates.isOffered`, `Native.Translates.not_isUndecidable`: what the rules lead to.
* `Native.Restriction.tests_offered`: filters test columns that can be tested, and other predicates
  are refused.
-/

namespace FederatedQuery

open Native

namespace Native

/-! ### What filters are made of -/

namespace Filter

mutual

/-- The tests that a filter is made of, at any depth. -/
def leaves : Filter → List Filter
  | .and fields => listLeaves fields
  | .or fields => listLeaves fields
  | .not field => field.leaves
  | filter => [filter]

/-- The tests that the filters of a list are made of. -/
def listLeaves : List Filter → List Filter
  | [] => []
  | filter :: rest => filter.leaves ++ listLeaves rest

end

theorem listLeaves_eq : (fs : List Filter) → listLeaves fs = fs.flatMap leaves
  | [] => rfl
  | f :: fs => by rw [listLeaves, List.flatMap_cons, listLeaves_eq fs]

@[simp] theorem leaves_and (fs : List Filter) : (Filter.and fs).leaves = fs.flatMap leaves := by
  rw [leaves, listLeaves_eq]

@[simp] theorem leaves_or (fs : List Filter) : (Filter.or fs).leaves = fs.flatMap leaves := by
  rw [leaves, listLeaves_eq]

theorem flatMap_leaves_conjuncts (f : Filter) : f.conjuncts.flatMap leaves = f.leaves := by
  cases f with
  | and fs => exact (leaves_and fs).symm
  | _ => exact List.flatMap_singleton leaves _

theorem flatMap_leaves_disjuncts (f : Filter) : f.disjuncts.flatMap leaves = f.leaves := by
  cases f with
  | or fs => exact (leaves_or fs).symm
  | _ => exact List.flatMap_singleton leaves _

/-- The column that a test reads. -/
def dimension? : Filter → Option String
  | .selector name _ | .oneOf name _ | .regex name _ | .search name _ | .bound name .. => some name
  | .interval _ | .and _ | .or _ | .not _ => none

/-- The kinds of the columns that a test suits. -/
def kinds : Filter → List Kind
  | .selector .. | .oneOf .. => [.string, .stringSet, .number]
  | .regex .. | .search .. => [.string]
  | .bound .. => [.string, .number]
  | .interval _ | .and _ | .or _ | .not _ => []

/-- A filter asks for the time of a row, or it tests a column that suits the test. -/
inductive IsOffered (x : External) : Filter → Prop
  | interval (range : TimeRange) : IsOffered x (.interval range)
  | test {f : Filter} {column : Attribute} (hdimension : f.dimension? = some column.name)
      (hoffers : x.Offers f.kinds column) : IsOffered x f

end Filter

end Native

theorem External.Offers.mono {x : External} {kinds kinds' : List Kind} {column : Attribute}
    (h : x.Offers kinds column) (hsub : kinds ⊆ kinds') : x.Offers kinds' column :=
  ⟨h.known, h.splitable, h.kind.imp_left fun hmem => hsub hmem⟩

namespace Native

variable {x : External}

/-- A test of equality suits the columns that equality is asked of. -/
theorem isOffered_of_equalityTest? {column : Attribute} {value : Value} {test : Filter}
    (hoffers : x.Offers [.string, .stringSet, .number] column)
    (htest : equalityTest? column.name value = some test) :
    ∀ leaf ∈ test.leaves, leaf.IsOffered x := by
  unfold equalityTest? at htest
  split at htest
  · cases htest
    exact List.forall_mem_singleton.2 (.test rfl hoffers)
  · obtain ⟨text, -, rfl⟩ := Option.map_eq_some_iff.1 htest
    exact List.forall_mem_singleton.2 (.test rfl hoffers)

/-- A filter by the rules tests columns that suit its tests. -/
theorem Translates.isOffered {e : Expression} {f : Filter} (h : Translates x e f) :
    ∀ leaf ∈ f.leaves, leaf.IsOffered x := by
  induction h with
  | equal hoffers _ htest | equalTo hoffers _ htest =>
    exact isOffered_of_equalityTest? hoffers htest
  | during range => exact List.forall_mem_singleton.2 (.interval range)
  | among values hoffers =>
    have hkinds : [Kind.string, .stringSet] ⊆ [.string, .stringSet, .number] := by decide
    exact List.forall_mem_singleton.2 (.test rfl (hoffers.mono hkinds))
  | within range hoffers =>
    have hkinds : [Kind.number] ⊆ [.string, .number] := by decide
    exact List.forall_mem_singleton.2 (.test rfl (hoffers.mono hkinds))
  | contains text hoffers | regex pattern hoffers =>
    exact List.forall_mem_singleton.2 (.test rfl hoffers)
  | compare c hoffers =>
    cases c <;> exact List.forall_mem_singleton.2 (.test rfl hoffers)
  | and _ _ iha ihb =>
    rw [Filter.leaves_and, List.flatMap_append, Filter.flatMap_leaves_conjuncts,
      Filter.flatMap_leaves_conjuncts]
    exact List.forall_mem_append.2 ⟨iha, ihb⟩
  | or _ _ iha ihb =>
    rw [Filter.leaves_or, List.flatMap_append, Filter.flatMap_leaves_disjuncts,
      Filter.flatMap_leaves_disjuncts]
    exact List.forall_mem_append.2 ⟨iha, ihb⟩
  | not _ ih =>
    rw [Filter.leaves]
    exact ih

end Native

/-! ### Predicates that no test decides -/

/-- Whether an operation looks into single values, as sets of values cannot be looked into. -/
def Op.isSingular : Op → Bool
  | .regex | .binary (.relation .contains) | .binary (.comparison _) => true
  | _ => false

/-- Whether an operation tells values apart that are close to each other, as instants are. -/
def Op.isExact : Op → Bool
  | .binary (.relation .is) | .binary (.comparison _) => true
  | _ => false

namespace Expression

/-- Whether an expression is a literal or a reference. -/
def isLeaf : Expression → Bool
  | .literal _ | .ref _ => true
  | _ => false

/-- The parts that a predicate compares, or matches. -/
def tested : Expression → List Expression
  | .binary (.relation _) a b | .binary (.comparison _) a b => [a, b]
  | .regex a _ => [a]
  | _ => []

/-- A predicate that cannot be decided by testing columns. It refers to a column that is not known,
or that is a metric; it looks into a set of values; or it asks more of the time attribute than
whether it overlaps a range. -/
inductive IsUndecidable (x : External) (e : Expression) : Prop
  | unavailable {name : String} (htested : .ref name ∈ e.tested) (htime : name ≠ x.timeAttribute)
      (hcolumn : ∀ column, x.attribute? name = some column → column.unsplitable)
  | set {name : String} {column : Attribute} (htested : .ref name ∈ e.tested)
      (hop : e.op.isSingular) (hcolumn : x.attribute? name = some column)
      (hkind : column.kind = .stringSet)
  | time (htested : .ref x.timeAttribute ∈ e.tested) (hop : e.op.isExact)

variable {x : External} {e a b : Expression}

theorem IsUndecidable.tested_ne_nil (h : e.IsUndecidable x) : e.tested ≠ [] := by
  cases h with
  | unavailable h | set h | time h => exact List.ne_nil_of_mem h

theorem not_isUndecidable_of_tested (h : e.tested = []) : ¬e.IsUndecidable x :=
  fun hundecidable => hundecidable.tested_ne_nil h

/-- The nodes of a predicate on leaves can be decided if the predicate can. -/
theorem forall_nodes_of_leaves (h : ¬e.IsUndecidable x) (hleaves : e.children.all isLeaf) :
    ∀ n ∈ e.nodes, ¬n.IsUndecidable x := by
  have leaf (c : Expression) (hc : c.isLeaf) : c.nodes = [c] ∧ c.tested = [] := by
    cases c <;> first | exact ⟨rfl, rfl⟩ | exact absurd hc Bool.false_ne_true
  rw [nodes_eq]
  refine List.forall_mem_cons.2 ⟨h, fun n hn => ?_⟩
  obtain ⟨c, hc, hn⟩ := List.mem_flatMap.1 hn
  obtain ⟨hnodes, htested⟩ := leaf c (List.all_eq_true.1 hleaves c hc)
  obtain rfl : n = c := List.mem_singleton.1 (hnodes ▸ hn)
  exact not_isUndecidable_of_tested htested

/-- A predicate on a column that can be tested in its way can be decided. -/
theorem forall_nodes_of_offers {kinds : List Kind} {column : Attribute}
    (hoffers : x.Offers kinds column) (hleaves : e.children.all isLeaf)
    (htested : ∀ name, .ref name ∈ e.tested → name = column.name)
    (hset : e.op.isSingular → .stringSet ∉ kinds)
    (htime : e.op.isExact → column.name ≠ x.timeAttribute) :
    ∀ n ∈ e.nodes, ¬n.IsUndecidable x := by
  refine forall_nodes_of_leaves (fun h => ?_) hleaves
  cases h with
  | unavailable hmem _ hmetric =>
    have hunsplitable := hmetric column (htested _ hmem ▸ hoffers.known)
    exact Bool.false_ne_true (hoffers.splitable.symm.trans hunsplitable)
  | @set name found hmem hop hfound hkind =>
    obtain rfl : column = found :=
      Option.some.inj (hoffers.known.symm.trans (htested _ hmem ▸ hfound))
    obtain hkinds | hnull := hoffers.kind
    · exact hset hop (hkind ▸ hkinds)
    · exact absurd (hkind.symm.trans hnull) (by decide)
  | time hmem hop => exact htime hop (htested _ hmem).symm

/-- A predicate within a condition stands in one of its conjuncts. -/
theorem exists_conjunct_of_mem_nodes {n : Expression} (hn : n ∈ e.nodes) (htested : n.tested ≠ []) :
    ∃ part ∈ e.conjuncts, n ∈ part.nodes := by
  induction e with
  | binary op a b iha ihb =>
    unfold conjuncts
    split
    · next heq =>
      cases heq
      rw [nodes] at hn
      obtain rfl | hn := List.mem_cons.1 hn
      · exact absurd rfl htested
      obtain hn | hn := List.mem_append.1 hn
      · obtain ⟨part, hpart, hmem⟩ := iha hn
        exact ⟨part, List.mem_append_left _ hpart, hmem⟩
      · obtain ⟨part, hpart, hmem⟩ := ihb hn
        exact ⟨part, List.mem_append_right _ hpart, hmem⟩
    · exact ⟨_, List.mem_singleton_self _, hn⟩
  | _ => exact ⟨_, List.mem_singleton_self _, hn⟩

end Expression

open Expression in
/-- What a filter by the rules is made for can be decided, at any depth. -/
theorem Native.Translates.not_isUndecidable {x : External} {e : Expression} {f : Filter}
    (h : Translates x e f) : ∀ n ∈ e.nodes, ¬n.IsUndecidable x := by
  induction h with
  | equal hoffers htime | equalTo hoffers htime =>
    exact forall_nodes_of_offers hoffers rfl (by simp [tested]) nofun fun _ => htime
  | during range =>
    refine forall_nodes_of_leaves (fun h => ?_) rfl
    cases h with
    | unavailable hmem htime => exact htime (by simpa [tested] using hmem)
    | set _ hop | time _ hop => exact nomatch hop
  | among values hoffers | within range hoffers =>
    exact forall_nodes_of_offers hoffers rfl (by simp [tested]) nofun nofun
  | contains text hoffers | regex pattern hoffers =>
    exact forall_nodes_of_offers hoffers rfl (by simp [tested]) (fun _ => by decide) nofun
  | compare c hoffers htime =>
    exact forall_nodes_of_offers hoffers rfl (by simp [tested]) (fun _ => by decide) fun _ => htime
  | and _ _ iha ihb | or _ _ iha ihb =>
    exact List.forall_mem_cons.2
      ⟨not_isUndecidable_of_tested rfl, List.forall_mem_append.2 ⟨iha, ihb⟩⟩
  | not _ ih => exact List.forall_mem_cons.2 ⟨not_isUndecidable_of_tested rfl, ih⟩

/-! ### Restrictions -/

namespace Native.Restriction

variable {x : External}

theorem leaves_of_mem_conjunction {fs : List Filter} :
    ∀ f ∈ conjunction fs, f.leaves = fs.flatMap Filter.leaves := by
  match fs with
  | [] => exact nofun
  | [f] =>
    rintro _ ⟨⟩
    exact (List.flatMap_singleton ..).symm
  | f :: g :: rest =>
    rintro _ ⟨⟩
    exact Filter.leaves_and _

/-- A restriction tests what can be tested. -/
theorem isOffered_of_ofCondition {e : Expression} {r : Restriction}
    (h : ofCondition x (some e) = .ok r) :
    ∀ f ∈ r.filter, ∀ leaf ∈ f.leaves, leaf.IsOffered x := by
  obtain ⟨state, hstate, hr⟩ := Except.bind_eq_ok.1 h
  obtain rfl : ⟨state.1, conjunction state.2⟩ = r := Except.ok.inj hr
  have htests : ∀ f ∈ state.2, ∀ leaf ∈ f.leaves, leaf.IsOffered x := by
    refine Except.foldlM_induction (motive := fun _ state =>
      ∀ f ∈ state.2, ∀ leaf ∈ f.leaves, leaf.IsOffered x) hstate nofun ?_
    intro _ part state state' hstate hpart
    obtain ⟨-, added, hadded, htranslates⟩ := addConjunct_eq_ok hpart
    rw [hadded]
    exact List.forall_mem_append.2 ⟨hstate, fun f hf => (htranslates f hf).isOffered⟩
  intro f hf leaf hleaf
  rw [leaves_of_mem_conjunction f hf] at hleaf
  obtain ⟨test, htest, hleaf⟩ := List.mem_flatMap.1 hleaf
  exact htests test htest leaf hleaf

/-- **What is filtered by.** The filter of a restriction asks for the time of a row or tests columns
that can be tested, at any depth. A condition with a predicate that cannot be decided, at any depth,
is refused. -/
theorem tests_offered (x : External) (e : Expression) :
    (∀ r, ofCondition x (some e) = .ok r →
      ∀ f ∈ r.filter, ∀ leaf ∈ f.leaves, leaf.IsOffered x) ∧
    ((∃ n ∈ e.nodes, n.IsUndecidable x) → ∃ error, ofCondition x (some e) = .error error) := by
  refine ⟨fun r h => isOffered_of_ofCondition h, ?_⟩
  rintro ⟨n, hn, hundecidable⟩
  obtain ⟨part, hpart, hmem⟩ :=
    Expression.exists_conjunct_of_mem_nodes hn hundecidable.tested_ne_nil
  cases h : ofCondition x (some e) with
  | error error => exact ⟨error, rfl⟩
  | ok r =>
    obtain rfl | ⟨f, hf⟩ := exists_ofCondition_iff.1 ⟨r, h⟩ part hpart
    · obtain rfl := List.mem_singleton.1 hmem
      exact absurd hundecidable (Expression.not_isUndecidable_of_tested rfl)
    · exact absurd hundecidable (hf.not_isUndecidable n hmem)

end Native.Restriction

namespace Sample

/-- The edits in English or in German of pages outside of the index. -/
def indexedEdits : Expression :=
  let languages := (Expression.ref "language").overlapWith (.literal (.stringSet ["en", "de"]))
  languages.conj (.not (.regex (.ref "page") "^Index"))

/-- The edits of the front page and those that removed nothing; how much an edit has removed is not
known. -/
def untouchedEdits : Expression :=
  let front := (Expression.ref "page").eqTo (.literal (.string "Front"))
  let removed := (Expression.ref "removed").eqTo (.literal (.number 0))
  .binary (.connective .or) front (.not (.not removed))

end Sample

open Sample in
/-- Edits are filtered by their pages and languages, but not by what is not known of them. -/
theorem Native.Restriction.tests_offered_edits :
    (∃ r f, ofCondition edits (some indexedEdits) = .ok r ∧ r.filter = some f ∧
      ∀ leaf ∈ f.leaves, leaf.IsOffered edits) ∧
    (∃ n ∈ untouchedEdits.nodes, n.IsUndecidable edits) ∧
      ∃ error, ofCondition edits (some untouchedEdits) = .error error := by
  have hundecidable : ∃ n ∈ untouchedEdits.nodes, n.IsUndecidable edits := by
    refine ⟨(Expression.ref "removed").eqTo (.literal (.number 0)), ?_, ?_⟩
    · simp [untouchedEdits, Expression.eqTo, Expression.nodes]
    · have hunknown : edits.attribute? "removed" = none := rfl
      exact .unavailable List.mem_cons_self (by decide) fun column hcolumn =>
        absurd (hunknown.symm.trans hcolumn) (Option.some_ne_none column).symm
  refine ⟨⟨_, _, rfl, rfl, ?_⟩, hundecidable, (tests_offered edits untouchedEdits).2 hundecidable⟩
  exact (tests_offered edits indexedEdits).1 _ rfl _ rfl

end FederatedQuery
