import FederatedQuery.Proofs.Cancelling
import FederatedQuery.Proofs.Sources

/-!
# Datasources that are not read from

Datasources, attributes and earlier results are referred to in one way. Only some positions of a
name have to do with datasources: a name in a predicate, in the key of a split or a sort, or in the
argument of an aggregate is that of an attribute. Plans are made with no regard to the datasources
that have the names of attributes, with two exceptions: an aggregate names its data wherever it is,
and an expression that is no dataset and has no aggregates may not name any datasource.

Introspection does regard them. A datasource whose columns are not known is asked for them if its
name occurs anywhere, and the computation fails if it does not tell them. Apart from that, the
computation is the one without that datasource.

## Main definitions

* `Expression.dataNames`: the names that are not in the position of an attribute.
* `Context.without`, `Job.without`: a datasource taken away.
* `Plan.Refuses`: expressions that are refused for a datasource from which they do not read.

## Main results

* `Plan.ofExpression_without`, `Plan.planWith_without`: plans without a datasource.
* `World.compute_without`: computations without a datasource.
* `World.compute_fails_unread`: a computation that fails because of a datasource from which it does
  not read.
-/

/-- The first result for the members of a list is the same if results only change that are those of
another one. -/
theorem List.findSome?_eq_of_ne {α β : Type} {f g : α → Option β} {as : List α} {b : β}
    (hfg : ∀ a ∈ as, g a = f a ∨ f a = some b) (h : as.findSome? f ≠ some b) :
    as.findSome? g = as.findSome? f := by
  induction as with
  | nil => rfl
  | cons a as ih =>
    obtain ⟨ha, has⟩ := List.forall_mem_cons.1 hfg
    rw [List.findSome?_cons] at h
    rw [List.findSome?_cons, List.findSome?_cons]
    obtain ha | ha := ha
    · rw [ha]
      cases hfa : f a with
      | none =>
        rw [hfa] at h
        exact ih has h
      | some c => rfl
    · rw [ha] at h
      exact absurd rfl h

namespace FederatedQuery

/-! ### Names in the position of data -/

/-- The names that are not in the position of an attribute, which is in a predicate, in the key of
a split or of a sort, or in the argument of an aggregate. -/
def Expression.dataNames : Expression → List String
  | .literal _ => []
  | .ref name => [name]
  | .filter operand _ | .split operand _ _ | .sort operand _ _ | .limit operand _
  | .count operand | .not operand | .regex operand _ | .timeBucket operand _
  | .binary (.measure _) operand _ => operand.dataNames
  | .apply operand other _ | .binary _ operand other => operand.dataNames ++ other.dataNames

namespace Expression

variable {e : Expression} {name root : String}

/-- A chain starts at a name in the position of data. -/
theorem mem_dataNames_of_chainRoot? (h : e.chainRoot? = some root) : root ∈ e.dataNames := by
  induction e with
  | ref other =>
    obtain rfl := Option.some.inj h
    exact List.mem_cons_self
  | filter _ _ ih | split _ _ _ ih | sort _ _ _ ih | limit _ _ ih => exact ih h
  | apply _ _ _ ih => exact List.mem_append_left _ (ih h)
  | _ => cases h

/-- The names at which the data of the aggregates start are those of the aggregates among the
nodes. -/
theorem mem_aggregateRoots : root ∈ e.aggregateRoots ↔
    ∃ node ∈ e.nodes, node.isAggregate = true ∧ node.operand?.bind chainRoot? = some root := by
  rw [aggregateRoots, List.mem_eraseDups, List.mem_filterMap]
  refine exists_congr fun node => and_congr_right fun _ => ?_
  split <;> simp_all

end Expression

/-! ### Chains -/

namespace Chain

variable {e : Expression} {apply : String × Expression}

theorem dataNames_takeLimit (e : Expression) : (takeLimit e).2.dataNames = e.dataNames := by
  cases e <;> rfl

theorem dataNames_takeSort (e : Expression) : (takeSort e).2.dataNames = e.dataNames := by
  cases e <;> rfl

theorem dataNames_takeSplit (e : Expression) : (takeSplit e).2.dataNames = e.dataNames := by
  cases e <;> rfl

theorem dataNames_takeApplies (e : Expression) :
    (takeApplies e).2.dataNames ⊆ e.dataNames ∧
      ∀ apply ∈ (takeApplies e).1, apply.2.dataNames ⊆ e.dataNames := by
  induction e with
  | apply operand body name ih _ =>
    obtain ⟨hbase, happlies⟩ := ih
    refine ⟨List.subset_append_of_subset_left _ hbase, ?_⟩
    rw [takeApplies, List.forall_mem_append, List.forall_mem_singleton]
    exact ⟨fun apply happly => List.subset_append_of_subset_left _ (happlies apply happly),
      List.subset_append_right _ _⟩
  | _ => exact ⟨List.Subset.refl _, List.forall_mem_nil _⟩

/-- The names of data in the parts of a chain are those of the chain. -/
theorem dataNames_unwind (e : Expression) :
    (unwind e).base.dataNames ⊆ e.dataNames ∧
      ∀ apply ∈ (unwind e).applies, apply.2.dataNames ⊆ e.dataNames := by
  have h := dataNames_takeApplies (takeSort (takeLimit e).2).2
  rw [dataNames_takeSort, dataNames_takeLimit] at h
  refine ⟨?_, h.2⟩
  change (takeSplit (takeApplies (takeSort (takeLimit e).2).2).2).2.dataNames ⊆ _
  rw [dataNames_takeSplit]
  exact h.1

theorem nodes_takeApplies (h : apply ∈ (takeApplies e).1) : apply.2.nodes ⊆ e.nodes := by
  induction e with
  | apply operand body name ih _ =>
    rw [takeApplies, List.mem_append, List.mem_singleton] at h
    rw [Expression.nodes]
    refine List.subset_cons_of_subset _ ?_
    obtain h | rfl := h
    · exact List.subset_append_of_subset_left _ (ih h)
    · exact List.subset_append_right _ _
  | _ => cases h

/-- The aggregates of an apply are aggregates of the chain. -/
theorem aggregateRoots_takeApplies (h : apply ∈ (takeApplies e).1) :
    apply.2.aggregateRoots ⊆ e.aggregateRoots := by
  intro root hroot
  rw [Expression.mem_aggregateRoots] at hroot ⊢
  obtain ⟨node, hnode, haggregate⟩ := hroot
  exact ⟨node, nodes_takeApplies h hnode, haggregate⟩

end Chain

/-! ### Datasources taken away -/

/-- The datasources without the one of a name. -/
def Context.without (context : Context) (name : String) : Context :=
  context.filter fun entry => entry.1 != name

namespace Context

variable {context : Context} {name other : String} {e : Expression}

theorem lookup_without (h : other ≠ name) :
    (context.without name).lookup other = context.lookup other := by
  induction context with
  | nil => rfl
  | cons entry rest ih =>
    obtain ⟨n, x⟩ := entry
    rw [without] at ih ⊢
    by_cases hn : n = name
    · have hother : (other == n) = false := beq_false_of_ne (hn ▸ h)
      rw [List.filter_cons_of_neg (by simp [hn]), List.lookup_cons, hother, ih]
    · rw [List.filter_cons_of_pos (by simp [hn]), List.lookup_cons, List.lookup_cons, ih]

theorem lookup_without_self (context : Context) (name : String) :
    (context.without name).lookup name = none := by
  rw [List.lookup_eq_none_iff]
  intro entry hentry
  simpa [bne_comm] using (List.mem_filter.1 hentry).2

/-- Datasources that are known better now are taken away just as before. -/
theorem update_without (context known : Context) (name : String) :
    (context.without name).update known = (context.update known).without name := by
  rw [without, without, update, update, List.filter_map]
  rfl

theorem isSome_lookup_update (context known : Context) (name : String) :
    ((context.update known).lookup name).isSome = (context.lookup name).isSome := by
  induction context with
  | nil => rfl
  | cons entry rest ih =>
    rw [update] at ih ⊢
    rw [List.map_cons, List.lookup_cons, List.lookup_cons]
    cases name == entry.1 with
    | true => rfl
    | false => exact ih

/-- A datasource whose columns are known is not introspected. -/
theorem unknown_without (h : ∀ x, (name, x) ∈ context → x.isIntrospected = true) :
    (context.without name).unknown e = context.unknown e := by
  rw [unknown, unknown, without, List.filter_filter]
  refine List.filter_congr fun (n, x) hentry => ?_
  by_cases hn : n = name
  · subst hn
    simp [h x hentry]
  · simp [hn]

end Context

/-! ### Plans -/

namespace Bindings

variable {b : Bindings} {name root : String} {e : Expression}

/-- The bindings without the datasource of a name. What is bound stays bound. -/
def without (b : Bindings) (name : String) : Bindings :=
  { b with context := b.context.without name }

theorem resolve?_without (h : root ≠ name) : (b.without name).resolve? root = b.resolve? root := by
  rw [resolve?, resolve?, without, Context.lookup_without h]

theorem isSource_without (h : root ≠ name) : (b.without name).isSource root = b.isSource root := by
  rw [isSource, isSource, resolve?_without h]

theorem isSource_without_of_eq_false (h : b.isSource root = false) :
    (b.without name).isSource root = false := by
  by_cases hroot : root = name
  · subst hroot
    rw [isSource, resolve?] at h ⊢
    cases hbound : b.bound.lookup root with
    | some source =>
      rw [hbound] at h
      cases h
    | none =>
      have hnone : (b.without root).bound.lookup root = none := hbound
      have hmissing : (b.without root).context.lookup root = none :=
        b.context.lookup_without_self root
      rw [hnone, hmissing]
      rfl
  · rw [isSource_without hroot, h]

theorem resolve_without (h : root ≠ name) : (b.without name).resolve root = b.resolve root := by
  rw [resolve, resolve, resolve?_without h]

theorem isSourceChain_without (h : name ∉ e.dataNames) :
    (b.without name).isSourceChain e = b.isSourceChain e := by
  rw [isSourceChain, isSourceChain]
  cases hroot : e.chainRoot? with
  | none => rfl
  | some root =>
    have hmem := Expression.mem_dataNames_of_chainRoot? hroot
    exact isSource_without fun heq => h (heq ▸ hmem)

theorem sourceOf_without (h : name ∉ e.dataNames) :
    (b.without name).sourceOf e = b.sourceOf e := by
  induction e with
  | ref root =>
    have hroot : root ≠ name := fun heq => h (heq ▸ List.mem_cons_self)
    rw [sourceOf, sourceOf, resolve_without hroot]
  | filter operand condition ih =>
    rw [sourceOf, sourceOf, ih h]
  | _ => rfl

/-- The pattern of a chain has to do with the names of its data only. -/
theorem pattern_without (b : Bindings) (name : String) (e : Expression)
    (h : name ∉ e.dataNames) : (b.without name).pattern e = b.pattern e := by
  obtain ⟨hbase, happlies⟩ := Chain.dataNames_unwind e
  have hbody (apply : String × Expression) (happly : apply ∈ (Chain.unwind e).applies) :
      name ∉ apply.2.dataNames := fun hmem => h (happlies apply happly hmem)
  rw [pattern, pattern, sourceOf_without fun hmem => h (hbase hmem)]
  refine bind_congr fun sort => ?_
  dsimp only
  split
  · rfl
  refine bind_congr fun source => ?_
  split
  · rfl
  refine congrArg (fun f => (Chain.unwind e).applies.attach.mapM f >>= _) (funext fun apply => ?_)
  obtain ⟨⟨n, body⟩, happly⟩ := apply
  dsimp only
  rw [isSourceChain_without (hbody _ happly), pattern_without b name body (hbody _ happly)]
termination_by sizeOf e
decreasing_by exact Chain.sizeOf_lt_of_mem_applies happly

end Bindings

namespace Pipeline

variable {p : Pipeline} {name root : String} {e : Expression}

/-- The pipeline without the datasource of a name. -/
def without (p : Pipeline) (name : String) : Pipeline :=
  { p with bindings := p.bindings.without name }

theorem addTotal_without (h : root ≠ name) (n : String) (e : Expression) :
    (p.without name).addTotal root n e = (p.addTotal root n e).map (·.without name) := by
  have hresolve := Bindings.resolve_without (b := p.bindings) h
  have hcollecting : (p.without name).collecting = p.collecting := rfl
  have hbindings : (p.without name).bindings = p.bindings.without name := rfl
  rw [addTotal, addTotal, hcollecting, hbindings, hresolve]
  cases p.collecting.lookup root with
  | some index => rfl
  | none => cases p.bindings.resolve root <;> rfl

/-- A step has to do with the names of its data only. -/
theorem addApply_without (hdata : name ∉ e.dataNames) (hroots : name ∉ e.aggregateRoots)
    (n : String) :
    (p.without name).addApply n e = (p.addApply n e).map (·.without name) := by
  rw [addApply, addApply]
  change (if e.isFilteredRef && (p.bindings.without name).isSourceChain e then
      (p.bindings.without name).sourceOf e >>= _
    else if (p.bindings.without name).isSourceChain e then
      (p.bindings.without name).pattern e >>= _
    else _) = _
  rw [Bindings.isSourceChain_without hdata, Bindings.sourceOf_without hdata,
    Bindings.pattern_without p.bindings name e hdata]
  split
  · cases p.bindings.sourceOf e <;> rfl
  split
  · cases p.bindings.pattern e <;> rfl
  rcases hall : e.aggregateRoots with _ | ⟨root, _ | _⟩
  · rfl
  · rw [hall, List.mem_singleton] at hroots
    exact addTotal_without (Ne.symm hroots) n e
  · rfl

/-- Steps have to do with the names of their data only. -/
theorem foldlM_addApply_without {applies : List (String × Expression)}
    (hdata : ∀ apply ∈ applies, name ∉ apply.2.dataNames)
    (hroots : ∀ apply ∈ applies, name ∉ apply.2.aggregateRoots) (p : Pipeline) :
    applies.foldlM (fun (p : Pipeline) (n, body) => p.addApply n body) (p.without name) =
      (applies.foldlM (fun (p : Pipeline) (n, body) => p.addApply n body) p).map
        (Pipeline.without · name) := by
  induction applies generalizing p with
  | nil => rfl
  | cons apply applies ih =>
    obtain ⟨happly, hdata⟩ := List.forall_mem_cons.1 hdata
    obtain ⟨happly', hroots⟩ := List.forall_mem_cons.1 hroots
    rw [List.foldlM_cons, List.foldlM_cons]
    change (p.without name).addApply apply.1 apply.2 >>= _ =
      Except.map _ (p.addApply apply.1 apply.2 >>= _)
    rw [addApply_without happly happly']
    cases p.addApply apply.1 apply.2 with
    | error error => rfl
    | ok next => exact ih hdata hroots next

/-- The applies of a pipeline are those at its end. -/
theorem applies_of_unwind? {seed : Row} {applies : List (String × Expression)}
    (h : unwind? e = some (seed, applies)) : (Chain.takeApplies e).1 = applies := by
  rw [unwind?] at h
  split at h
  · next htake =>
    rw [htake]
    exact (Prod.mk.inj (Option.some.inj h)).2
  · cases h

end Pipeline

namespace Plan

variable {b : Bindings} {name : String} {e : Expression}

/-- Without the datasource of a name, the first reference to a datasource is the same, unless it is
the reference to that one. -/
theorem firstSourceRef?_without (h : firstSourceRef? b e ≠ some name) :
    firstSourceRef? (b.without name) e = firstSourceRef? b e := by
  refine List.findSome?_eq_of_ne (fun node _ => ?_) h
  cases node with
  | ref other =>
    dsimp only
    by_cases hother : other = name
    · subst hother
      cases hsource : b.isSource other with
      | true => exact .inr rfl
      | false => exact .inl (by rw [Bindings.isSource_without_of_eq_false hsource])
    · exact .inl (by rw [Bindings.isSource_without hother])
  | _ => exact .inl rfl

/-- The value of an expression with an aggregate has to do with the names of its data only. -/
theorem scalarBody_without (hdata : name ∉ e.dataNames) {root : String} (hroot : root ≠ name) :
    scalarBody (b.without name) e root = scalarBody b e root := by
  have hresolve := Bindings.resolve_without (b := b) hroot
  rw [scalarBody, scalarBody, hresolve]
  split
  · next operand body hoperand hbody =>
    have hnames : operand.dataNames ⊆ e.dataNames := by
      cases e with
      | count => obtain rfl := Option.some.inj hoperand; exact List.Subset.refl _
      | binary op =>
        cases op with
        | measure => obtain rfl := Option.some.inj hoperand; exact List.Subset.refl _
        | _ => cases hbody
      | _ => cases hbody
    rw [Bindings.sourceOf_without fun hmem => hdata (hnames hmem)]
  · rfl

/-- The expression is refused for the reference to a datasource: it has neither a dataset nor an
aggregate, and this reference to a datasource is its first one. -/
structure Refuses (context : Context) (e : Expression) (name : String) : Prop where
  pipeline : Pipeline.unwind? e = none
  chain : e.isChain = false
  aggregates : e.aggregateRoots = []
  first : firstSourceRef? (.ofContext context) e = some name

theorem Refuses.ofExpression_eq {context : Context} (h : Refuses context e name) :
    ofExpression context e = .error (.unsupportedShape (.outsideAggregate name e)) := by
  rw [ofExpression, h.pipeline]
  dsimp only
  rw [h.chain, ofScalar, h.aggregates]
  dsimp only
  rw [h.first]
  rfl

/-- What is known better of datasources has nothing to do with the names of datasources. -/
theorem Refuses.of_update {context known : Context} (h : Refuses (context.update known) e name) :
    Refuses context e name where
  pipeline := h.pipeline
  chain := h.chain
  aggregates := h.aggregates
  first := by
    rw [← h.first, firstSourceRef?, firstSourceRef?]
    have hsource (other : String) : (Bindings.ofContext (context.update known)).isSource other =
        (Bindings.ofContext context).isSource other := by
      change ((context.update known).lookup other |>.map Source.ofExternal).isSome =
        ((context.lookup other).map Source.ofExternal).isSome
      rw [Option.isSome_map, Option.isSome_map, Context.isSome_lookup_update]
    simp only [hsource]

/-- **Plans without a datasource.** If a name is only that of an attribute, and not that of the data
of an aggregate, a plan is made without regard to the datasource of that name, unless the expression
is refused for it. -/
theorem ofExpression_without (hdata : name ∉ e.dataNames) (hroots : name ∉ e.aggregateRoots)
    {context : Context} (hrefuses : ¬Refuses context e name) :
    ofExpression (context.without name) e = ofExpression context e := by
  have hwithout : Bindings.ofContext (context.without name) =
    (Bindings.ofContext context).without name := rfl
  rw [ofExpression, ofExpression, hwithout]
  cases hunwind : Pipeline.unwind? e with
  | some pipeline =>
    obtain ⟨seed, applies⟩ := pipeline
    have happlies := Pipeline.applies_of_unwind? hunwind
    have hdata' : ∀ apply ∈ applies, name ∉ apply.2.dataNames := fun apply happly hmem =>
      hdata ((Chain.dataNames_takeApplies e).2 apply (happlies ▸ happly) hmem)
    have hroots' : ∀ apply ∈ applies, name ∉ apply.2.aggregateRoots := fun apply happly hmem =>
      hroots (Chain.aggregateRoots_takeApplies (happlies ▸ happly) hmem)
    have hfold := Pipeline.foldlM_addApply_without hdata' hroots'
      (Pipeline.mk (Bindings.ofContext context) [] [])
    dsimp only
    rw [show Pipeline.mk ((Bindings.ofContext context).without name) [] [] =
      (Pipeline.mk (Bindings.ofContext context) [] []).without name from rfl, hfold]
    cases applies.foldlM (fun p (n, body) => Pipeline.addApply p n body)
      (Pipeline.mk (Bindings.ofContext context) [] []) <;> rfl
  | none =>
    dsimp only
    rw [Bindings.pattern_without _ name e hdata]
    split
    · rfl
    next hchain =>
    rw [ofScalar, ofScalar]
    rcases hall : e.aggregateRoots with _ | ⟨root, _ | _⟩
    · have hfirst : firstSourceRef? (.ofContext context) e ≠ some name := fun hfirst =>
        hrefuses ⟨hunwind, Bool.eq_false_of_not_eq_true hchain, hall, hfirst⟩
      dsimp only
      rw [firstSourceRef?_without hfirst]
    · rw [hall, List.mem_singleton] at hroots
      dsimp only
      rw [scalarBody_without hdata (Ne.symm hroots)]
    · rfl

/-- A number with a predicate is refused if an attribute in the predicate is called like a
datasource. -/
example (x : External) : ofExpression [("page", x)]
    (.filter (.literal (.number 3)) (.eqTo (.ref "page") (.literal .null))) =
      .error (.unsupportedShape (.outsideAggregate "page"
        (.filter (.literal (.number 3)) (.eqTo (.ref "page") (.literal .null))))) := rfl

/-- An aggregate names its data in a predicate too. -/
example : ofExpression []
    (.filter (.literal (.number 3)) (.eqTo (.count (.ref "page")) (.literal .null))) =
      .error (.unknownDatasource "page") := rfl

/-- The plan of an expression over datasources of which some are known better now. -/
theorem planWith_without (hdata : name ∉ e.dataNames) (hroots : name ∉ e.aggregateRoots)
    {context : Context} (hrefuses : ¬Refuses context e name) (known : Context) :
    e.planWith (context.without name) known = e.planWith context known := by
  rw [Expression.planWith, Expression.planWith, Context.update_without,
    ofExpression_without hdata hroots fun h => hrefuses h.of_update]

end Plan

/-! ### Computations -/

namespace Simulation

/-- The job without the datasource of a name. -/
def Job.without (job : Job) (name : String) : Job :=
  { job with context := job.context.without name }

variable {job : Job} {name : String} {w : World}

/-- Two jobs that are alike but for their datasources and have the same plans go on in the same
way. -/
structure Job.PlansLike (job other : Job) : Prop where
  config : job.config = other.config
  token : job.token = other.token
  cancelAt : job.cancelAt = other.cancelAt
  plan : ∀ known, job.expression.planWith job.context known =
    other.expression.planWith other.context known

namespace Job.PlansLike

variable {other : Job} (h : job.PlansLike other)

include h

theorem ofIntrospection (now : Nat) (x : Running Context × World) :
    Stage.ofIntrospection job now x = Stage.ofIntrospection other now x := by
  unfold Stage.ofIntrospection
  rw [h.config, h.token]
  split
  · rfl
  · rw [h.plan]
  · rfl

theorem resume (now : Nat) (stage : Stage) (w : World) :
    stage.resume job now w = stage.resume other now w := by
  cases stage with
  | introspecting task => rw [Stage.resume, Stage.resume, h.ofIntrospection, h.token]
  | running plan task => rw [Stage.resume, Stage.resume, h.token]
  | settled outcome => rfl

theorem settle (now : Nat) (stage : Stage) (w : World) :
    stage.settle job now w = stage.settle other now w := by
  have houtside (moment : Nat) (w : World) :
      job.cancelFromOutside moment w = other.cancelFromOutside moment w := by
    rw [cancelFromOutside, cancelFromOutside, h.token, h.cancelAt]
  have hmoment (now : Nat) (stage : Stage) :
      job.nextMoment now stage = other.nextMoment now stage := by
    rw [nextMoment, nextMoment, h.cancelAt, h.config]
  unfold Stage.settle
  split
  · rfl
  rw [h.config, h.token]
  split
  · rfl
  simp only [houtside, hmoment, h.resume]
  split
  · rfl
  split
  · split
    · rfl
    · exact settle _ _ _
  · rfl
termination_by other.config.timeout - now
decreasing_by
  have : other.nextMoment now stage ≤ other.config.timeout := Nat.min_le_left ..
  omega

end Job.PlansLike

/-- If the columns of a datasource are known, a job goes on in the same way without it. -/
theorem Job.plansLike_without (hdata : name ∉ job.expression.dataNames)
    (hroots : name ∉ job.expression.aggregateRoots)
    (hrefuses : ¬Plan.Refuses job.context job.expression name) :
    (job.without name).PlansLike job where
  config := rfl
  token := rfl
  cancelAt := rfl
  plan := Plan.planWith_without hdata hroots hrefuses

end Simulation

/-! ### The page of edits -/

namespace Sample

open Simulation

/-- A datasource of pages before its columns are known. -/
def unknownPages : External := { unknownEdits with backend := "pages" }

/-- The job of the groups of edits by page, where there is a datasource of pages. -/
def pagesJobWith (pages : External) : Job :=
  { pagesJob edits with context := [("edits", edits), ("page", pages)] }

theorem pagesJobWith_without (pages : External) :
    (pagesJobWith pages).without "page" = pagesJob edits := rfl

/-- The groups of edits by page, of which there are none. -/
theorem compute_pages_empty : (emptyWorld.compute (pagesJob edits)).1 = .ok (.dataset []) := by
  have hstart : ∃ w, Running.start (some "stop") 0 ((patternBy "page" []).run .standard [])
      emptyWorld = (.settled (.ok []), w) := by
    rw [Pattern.run]
    exact ⟨_, rfl⟩
  obtain ⟨w, hstart⟩ := hstart
  rw [compute_pagesJob rfl, hstart]
  exact congrArg Prod.fst (Stage.settle_ofRun_settled _ _ 0)

/-- The datasource of pages is asked for its version, and does not tell it. -/
theorem compute_pages_unknown : ∃ w, emptyWorld.compute (pagesJobWith unknownPages) =
    (.error (.external (.requester "unexpected query")), w) ∧
      w.requests = [unknownPages.request External.statusQuery] := by
  have hstart : ∃ w, Running.start (some "stop") 0
      ((pagesJobWith unknownPages).context.introspect (pagesJobWith unknownPages).expression)
      emptyWorld = (.settled (.error (.external (.requester "unexpected query"))), w) ∧
      w.requests = [unknownPages.request External.statusQuery] := by
    change ∃ w, Running.start (some "stop") 0
      (Task.together [unknownPages.introspect.andThen _ _] _) _ = _ ∧ _
    exact ⟨_, rfl, rfl⟩
  obtain ⟨w, hstart, hrequests⟩ := hstart
  refine ⟨w, ?_, hrequests⟩
  have hadmit : Expression.admit (pagesJobWith unknownPages).expression
      (emptyWorld.isCancelled (pagesJobWith unknownPages).token) = .ok () := rfl
  rw [World.compute, hadmit]
  simp only [Stage.initial]
  rw [show Running.start (pagesJobWith unknownPages).token 0 _ _ = _ from hstart,
    Stage.ofIntrospection, Stage.settle]

end Sample

/-! ### Computations without a datasource -/

namespace Simulation

variable {job : Job} {name : String}

/-- **Computations without a datasource.** Take a name that is only that of an attribute, and not
that of the data of an aggregate, and an expression that is not refused for it. Whatever is learned
of the datasources, the plan is the one without the datasource of that name. If the columns of that
datasource are known, the whole computation is the one without it: the value or error, the requests
and all that they bring about; and each request goes to the backend of another datasource. -/
theorem World.compute_without (hdata : name ∉ job.expression.dataNames)
    (hroots : name ∉ job.expression.aggregateRoots)
    (hrefuses : ¬Plan.Refuses job.context job.expression name) (w : World) :
    (∀ known, job.expression.planWith (job.context.without name) known =
        job.expression.planWith job.context known) ∧
      ((∀ x, (name, x) ∈ job.context → x.isIntrospected = true) →
        w.compute (job.without name) = w.compute job ∧
          w.Asked (fun request => ∃ entry ∈ job.context, entry.1 ≠ name ∧
            request.backend = entry.2.backend) (w.compute job).2) := by
  have hlike := Job.plansLike_without hdata hroots hrefuses
  refine ⟨hlike.plan, fun hknown => ?_⟩
  have hsame : w.compute (job.without name) = w.compute job := by
    have hintrospect : (job.without name).context.introspect (job.without name).expression =
        job.context.introspect job.expression := by
      rw [Context.introspect, Context.introspect, Job.without, Context.unknown_without hknown]
    have hadmit : Expression.admit (job.without name).expression
        (w.isCancelled (job.without name).token) =
      Expression.admit job.expression (w.isCancelled job.token) := rfl
    have hinitial : Stage.initial (job.without name) w = Stage.initial job w := by
      rw [Stage.initial, Stage.initial, hlike.ofIntrospection, hlike.token, hintrospect]
    rw [compute, compute, hadmit, hinitial]
    split
    · rfl
    · exact hlike.settle 0 _ _
  refine ⟨hsame, ?_⟩
  rw [← hsame]
  obtain ⟨requests, heq, hrequests⟩ := w.asked_compute (job.without name)
  refine ⟨requests, heq, fun request hrequest => ?_⟩
  obtain ⟨entry, hentry, hbackend⟩ := hrequests request hrequest
  obtain ⟨hmem, hne⟩ := List.mem_filter.1 hentry
  exact ⟨entry, hmem, bne_iff_ne.1 hne, hbackend⟩

open Sample in
/-- The groups of edits by page are computed without regard to a datasource of pages whose columns
are known. -/
theorem World.compute_without_pages :
    "page" ∉ (pagesJobWith edits).expression.dataNames ∧
      "page" ∉ (pagesJobWith edits).expression.aggregateRoots ∧
      ¬Plan.Refuses (pagesJobWith edits).context (pagesJobWith edits).expression "page" ∧
      (∀ x, ("page", x) ∈ (pagesJobWith edits).context → x.isIntrospected = true) ∧
      (emptyWorld.compute (pagesJobWith edits)).1 = .ok (.dataset []) := by
  have hdata : "page" ∉ (pagesJobWith edits).expression.dataNames := by decide
  have hroots : "page" ∉ (pagesJobWith edits).expression.aggregateRoots := by decide
  have hrefuses : ¬Plan.Refuses (pagesJobWith edits).context (pagesJobWith edits).expression
      "page" := fun h => nomatch h.chain
  have hknown : ∀ x, ("page", x) ∈ (pagesJobWith edits).context → x.isIntrospected = true := by
    intro x hx
    obtain hx | hx := List.mem_cons.1 hx
    · exact absurd (congrArg Prod.fst hx) (show "page" ≠ "edits" by decide)
    · rw [(Prod.mk.inj (List.mem_singleton.1 hx)).2]
      rfl
  refine ⟨hdata, hroots, hrefuses, hknown, ?_⟩
  rw [← ((World.compute_without hdata hroots hrefuses emptyWorld).2 hknown).1,
    pagesJobWith_without, compute_pages_empty]

open Sample in
/-- If the columns of the datasource of pages are not known, it is asked for its version although
nothing is read from it, and the computation fails because it does not tell it. -/
theorem World.compute_fails_unread :
    "page" ∉ (pagesJobWith unknownPages).expression.dataNames ∧
      "page" ∉ (pagesJobWith unknownPages).expression.aggregateRoots ∧
      (emptyWorld.compute (pagesJobWith unknownPages)).1 =
        .error (.external (.requester "unexpected query")) ∧
      (emptyWorld.compute (pagesJobWith unknownPages)).2.requests =
        [unknownPages.request External.statusQuery] ∧
      (emptyWorld.compute ((pagesJobWith unknownPages).without "page")).1 = .ok (.dataset []) := by
  obtain ⟨w, hcompute, hrequests⟩ := compute_pages_unknown
  refine ⟨by decide, by decide, ?_, ?_, ?_⟩
  · rw [hcompute]
  · rw [hcompute, hrequests]
  · rw [pagesJobWith_without, compute_pages_empty]

end Simulation

end FederatedQuery
