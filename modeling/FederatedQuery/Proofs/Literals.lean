import FederatedQuery.Proofs.Compilation
import FederatedQuery.Proofs.Finiteness

/-!
# Literals in plans

What a plan evaluates are parts of the expression that has been planned, with aggregates replaced by
references to native columns. So no literals come in: if the numbers of the expression are finite,
then so are those of the plan, of its patterns at any depth, and of the values that are derived
when a pattern has been compiled.

## Main definitions

* `Pattern.IsFinite`, `Plan.IsFinite`: all literals are finite, in nested patterns as well.

## Main results

* `Plan.isFinite_of_ofExpression`: plans.
* `Pattern.isFinite_of_compile`: derived values.
-/

namespace FederatedQuery

variable {e : Expression} {name : String}

/-! ### Chains -/

namespace Expression.IsFinite

theorem of_ref (name : String) : (ref name).IsFinite := by
  rw [Expression.IsFinite, values_ref]
  exact List.forall_mem_nil _

theorem binary {a b : Expression} (ha : a.IsFinite) (hb : b.IsFinite) (op : Operator) :
    (Expression.binary op a b).IsFinite :=
  forall_values_of_operation (List.cons_ne_nil _ _)
    (List.forall_mem_cons.2 ⟨ha, List.forall_mem_singleton.2 hb⟩)

theorem takeLimit (h : e.IsFinite) : (Chain.takeLimit e).2.IsFinite := by
  cases e with
  | limit => exact h.child List.mem_cons_self
  | _ => exact h

theorem takeSort (h : e.IsFinite) : (Chain.takeSort e).2.IsFinite := by
  cases e with
  | sort => exact h.child List.mem_cons_self
  | _ => exact h

theorem takeApplies (h : e.IsFinite) :
    (∀ apply ∈ (Chain.takeApplies e).1, apply.2.IsFinite) ∧ (Chain.takeApplies e).2.IsFinite := by
  induction e with
  | apply operand body name ih _ =>
    obtain ⟨happlies, hbase⟩ := ih (h.child List.mem_cons_self)
    have hbody := h.child (List.mem_cons_of_mem _ List.mem_cons_self)
    exact ⟨List.forall_mem_append.2 ⟨happlies, List.forall_mem_singleton.2 hbody⟩, hbase⟩
  | _ => exact ⟨nofun, h⟩

end Expression.IsFinite

/-! ### Patterns -/

/-- The literals of all results are finite, those of nested patterns included. -/
inductive Pattern.IsFinite : Pattern → Prop
  | intro {p : Pattern} (hscalar : ∀ name e, (name, Body.scalar e) ∈ p.applies → e.IsFinite)
      (hnested : ∀ name q, (name, Body.nested q) ∈ p.applies → IsFinite q) : IsFinite p

namespace Pattern

variable {p : Pattern}

theorem IsFinite.scalar (h : p.IsFinite) (hmem : (name, Body.scalar e) ∈ p.applies) :
    e.IsFinite := by
  cases h with
  | intro hscalar _ => exact hscalar name e hmem

theorem IsFinite.nested (h : p.IsFinite) {q : Pattern} (hmem : (name, q) ∈ p.nestedPatterns) :
    q.IsFinite := by
  cases h with
  | intro _ hnested =>
    obtain ⟨⟨n, body⟩, hbody, heq⟩ := List.mem_filterMap.1 hmem
    cases body with
    | scalar e => exact nomatch heq
    | nested nested =>
      obtain ⟨rfl, rfl⟩ := Prod.mk.inj (Option.some.inj heq)
      exact hnested n nested hbody

/-- Narrowing to a group leaves the results as they are. -/
theorem IsFinite.forGroup (h : p.IsFinite) (outer : Pattern) (condition : Expression) :
    (outer.forGroup p condition).IsFinite := by
  cases h with
  | intro hscalar hnested => exact .intro hscalar hnested

theorem isFinite_totals (source : Source) (dataName : String) :
    (totals source dataName).IsFinite := .intro nofun nofun

theorem IsFinite.addScalar (h : p.IsFinite) (he : e.IsFinite) (name : String) :
    (p.addScalar name e).IsFinite := by
  cases h with
  | intro hscalar hnested =>
    refine .intro (fun n x hmem => ?_) fun n q hmem => ?_
    · obtain hmem | hmem := List.mem_append.1 hmem
      · exact hscalar n x hmem
      · obtain ⟨-, heq⟩ := Prod.mk.inj (List.mem_singleton.1 hmem)
        exact Body.scalar.inj heq ▸ he
    · obtain hmem | hmem := List.mem_append.1 hmem
      · exact hnested n q hmem
      · exact nomatch (Prod.mk.inj (List.mem_singleton.1 hmem)).2

end Pattern

/-- A pattern has the literals of its chain. -/
theorem Bindings.isFinite_of_pattern (b : Bindings) (e : Expression) (he : e.IsFinite) {p : Pattern}
    (h : b.pattern e = .ok p) : p.IsFinite := by
  have happlies := he.takeLimit.takeSort.takeApplies.1
  rw [pattern] at h
  obtain ⟨sort, -, h⟩ := Except.bind_eq_ok.1 h
  dsimp only at h
  split at h
  · exact nomatch h
  obtain ⟨source, -, h⟩ := Except.bind_eq_ok.1 h
  split at h
  · exact nomatch h
  obtain ⟨applies, hbodies, h⟩ := Except.bind_eq_ok.1 h
  obtain rfl := Except.ok.inj h
  have hresult (name : String) (body : Body Pattern) (hmem : (name, body) ∈ applies) :
      (∀ x, body = .scalar x → x.IsFinite) ∧ ∀ q, body = .nested q → q.IsFinite := by
    obtain ⟨⟨⟨n, e'⟩, happly⟩, -, hbody⟩ := Except.exists_mem_of_mapM_eq_ok hbodies _ hmem
    have hfinite := happlies (n, e') happly
    dsimp only at hbody
    split at hbody
    · split at hbody
      · obtain ⟨nested, hnested, heq⟩ := Except.bind_eq_ok.1 hbody
        obtain ⟨rfl, rfl⟩ := Prod.mk.inj (Except.ok.inj heq)
        exact ⟨nofun, fun q hq => Body.nested.inj hq ▸ isFinite_of_pattern b e' hfinite hnested⟩
      · exact nomatch hbody
    · obtain ⟨rfl, rfl⟩ := Prod.mk.inj (Except.ok.inj hbody)
      exact ⟨fun x hx => Body.scalar.inj hx ▸ hfinite, nofun⟩
  exact .intro (fun name x hmem => (hresult name _ hmem).1 x rfl)
    fun name q hmem => (hresult name _ hmem).2 q rfl
termination_by sizeOf e
decreasing_by exact Chain.sizeOf_lt_of_mem_applies happly

/-! ### Pipelines -/

/-- The literals of a step are finite. -/
def Step.IsFinite : Step → Prop
  | .totals pattern | .dataset _ pattern => pattern.IsFinite
  | .derived _ e => e.IsFinite

namespace Pipeline

variable {p p' : Pipeline}

/-- A value that is added to a step leaves its literals finite. -/
theorem isFinite_addScalar {step : Step} (h : step.IsFinite) (he : e.IsFinite) (name : String) :
    (Step.addScalar name e step).IsFinite := by
  cases step with
  | totals pattern => exact Pattern.IsFinite.addScalar h he name
  | _ => exact h

theorem isFinite_of_addTotal (h : ∀ step ∈ p.steps, step.IsFinite) (he : e.IsFinite)
    {root : String} (hp : p.addTotal root name e = .ok p') : ∀ step ∈ p'.steps, step.IsFinite := by
  rw [addTotal] at hp
  split at hp
  · next index _ =>
    obtain rfl := Except.ok.inj hp
    intro step hstep
    obtain ⟨i, hi, hget⟩ := List.mem_iff_getElem.1 hstep
    rw [List.length_modify] at hi
    rw [List.getElem_modify] at hget
    have hold := h _ (List.getElem_mem hi)
    split at hget
    · exact hget ▸ isFinite_addScalar hold he name
    · exact hget ▸ hold
  · obtain ⟨source, -, hp⟩ := Except.bind_eq_ok.1 hp
    obtain rfl := Except.ok.inj hp
    exact List.forall_mem_append.2 ⟨h, List.forall_mem_singleton.2
      ((Pattern.isFinite_totals source root).addScalar he name)⟩

/-- A step that an apply becomes has the literals of its body. -/
theorem isFinite_of_addApply (h : ∀ step ∈ p.steps, step.IsFinite) (he : e.IsFinite)
    (hp : p.addApply name e = .ok p') : ∀ step ∈ p'.steps, step.IsFinite := by
  have hadd (added : Step) (hadded : added.IsFinite) :
      ∀ step ∈ p.steps ++ [added], step.IsFinite :=
    List.forall_mem_append.2 ⟨h, List.forall_mem_singleton.2 hadded⟩
  rw [addApply] at hp
  split at hp
  · obtain ⟨source, -, hp⟩ := Except.bind_eq_ok.1 hp
    obtain rfl := Except.ok.inj hp
    exact h
  split at hp
  · obtain ⟨pattern, hpattern, hp⟩ := Except.bind_eq_ok.1 hp
    obtain rfl := Except.ok.inj hp
    exact hadd _ (p.bindings.isFinite_of_pattern e he hpattern)
  split at hp
  · obtain rfl := Except.ok.inj hp
    exact hadd _ he
  · exact isFinite_of_addTotal h he hp
  · exact nomatch hp

end Pipeline

/-! ### Plans -/

namespace Plan

/-- The literals of a plan are finite, those of its seed included. -/
def IsFinite : Plan → Prop
  | .pipeline seed steps => seed.IsFinite ∧ ∀ step ∈ steps, step.IsFinite
  | .dataset pattern | .scalar pattern => pattern.IsFinite
  | .value e => e.IsFinite

theorem isFinite_of_rebase? (he : e.IsFinite) {root : String} {body : Expression}
    (h : e.rebase? root = some body) : body.IsFinite := by
  cases e with
  | count a =>
    obtain rfl := Option.some.inj h
    exact Expression.forall_values_of_operation (List.cons_ne_nil _ _)
      (List.forall_mem_singleton.2 (Expression.IsFinite.of_ref root))
  | binary op a b =>
    cases op with
    | measure m =>
      obtain rfl := Option.some.inj h
      exact (Expression.IsFinite.of_ref root).binary
        (he.child (List.mem_cons_of_mem _ List.mem_cons_self)) _
    | _ => exact nomatch h
  | _ => exact nomatch h

theorem isFinite_of_scalarBody {b : Bindings} (he : e.IsFinite) {root : String} {source : Source}
    {body : Expression} (h : scalarBody b e root = .ok (source, body)) : body.IsFinite := by
  have hself (s : Except CompileError Source)
      (h : (s.map fun source => (source, e)) = .ok (source, body)) : body.IsFinite := by
    obtain ⟨other, -, heq⟩ := Except.map_eq_ok.1 h
    exact (Prod.mk.inj heq).2 ▸ he
  rw [scalarBody] at h
  split at h
  · next hrebase =>
    split at h
    · obtain ⟨other, -, heq⟩ := Except.map_eq_ok.1 h
      exact (Prod.mk.inj heq).2 ▸ isFinite_of_rebase? he hrebase
    · exact hself _ h
  · exact hself _ h

/-- **Plans.** A plan has the literals of its expression. -/
theorem isFinite_of_ofExpression {context : Context} (he : e.IsFinite) {plan : Plan}
    (h : ofExpression context e = .ok plan) : plan.IsFinite := by
  rw [ofExpression] at h
  split at h
  · next seed applies hunwind =>
    obtain ⟨happlies, hbase⟩ := he.takeApplies
    have hparts : Chain.takeApplies e = (applies, .literal (.dataset [seed])) := by
      rw [Pipeline.unwind?] at hunwind
      split at hunwind
      · next heq =>
        obtain ⟨rfl, rfl⟩ := Prod.mk.inj (Option.some.inj hunwind)
        exact heq
      · exact nomatch hunwind
    rw [hparts] at happlies hbase
    obtain ⟨pipeline, hpipeline, h⟩ := Except.bind_eq_ok.1 h
    obtain rfl := Except.ok.inj h
    have hseed := Value.isFinite_dataset.1 (Expression.isFinite_literal.1 hbase)
    refine ⟨hseed seed List.mem_cons_self, ?_⟩
    refine Except.foldlM_induction (motive := fun done p => (∀ apply ∈ done, apply.2.IsFinite) →
      ∀ step ∈ p.steps, step.IsFinite) hpipeline (fun _ => nofun)
      (fun done apply p p' hp hnext hdone => ?_) happlies
    obtain ⟨hbefore, happly⟩ := List.forall_mem_append.1 hdone
    exact Pipeline.isFinite_of_addApply (hp hbefore) (happly apply List.mem_cons_self) hnext
  · split at h
    · obtain ⟨pattern, hpattern, rfl⟩ := Except.map_eq_ok.1 h
      exact Bindings.isFinite_of_pattern _ e he hpattern
    · rw [ofScalar] at h
      split at h
      · split at h
        · exact nomatch h
        · exact Except.ok.inj h ▸ he
      · obtain ⟨⟨source, body⟩, hbody, h⟩ := Except.bind_eq_ok.1 h
        obtain rfl := Except.ok.inj h
        exact (Pattern.isFinite_totals _ _).addScalar (isFinite_of_scalarBody he hbody) _
      · exact nomatch h

end Plan

/-! ### Derived values -/

theorem Expression.isFinite_of_takePart {parts rest : List Expression}
    (hparts : ∀ part ∈ parts, part.IsFinite) (h : takePart parts = some (e, rest)) :
    e.IsFinite ∧ ∀ part ∈ rest, part.IsFinite := by
  cases parts with
  | nil => exact nomatch h
  | cons part parts =>
    obtain ⟨rfl, rfl⟩ := Prod.mk.inj (Option.some.inj h)
    exact List.forall_mem_cons.1 hparts

theorem Expression.isFinite_of_takeQuotient {parts rest : List Expression}
    (hparts : ∀ part ∈ parts, part.IsFinite) (h : takeQuotient parts = some (e, rest)) :
    e.IsFinite ∧ ∀ part ∈ rest, part.IsFinite := by
  match parts with
  | [] | [_] => exact nomatch h
  | sum :: number :: parts =>
    obtain ⟨rfl, rfl⟩ := Prod.mk.inj (Option.some.inj h)
    obtain ⟨hsum, hnumber, hrest⟩ := (List.forall_mem_cons.1 hparts).imp id List.forall_mem_cons.1
    exact ⟨hsum.binary hnumber _, hrest⟩

/-- Parts that take the place of aggregates leave an expression finite if they are. -/
theorem Expression.IsFinite.fill (he : e.IsFinite) {parts rest : List Expression}
    {e' : Expression} (hparts : ∀ part ∈ parts, part.IsFinite)
    (h : e.fill parts = some (e', rest)) : e'.IsFinite ∧ ∀ part ∈ rest, part.IsFinite := by
  induction e generalizing parts rest e' with
  | count a => exact isFinite_of_takePart hparts h
  | not a ih =>
    obtain ⟨⟨a', rest'⟩, ha, heq⟩ := Option.map_eq_some_iff.1 h
    obtain ⟨rfl, rfl⟩ := Prod.mk.inj heq
    obtain ⟨ha', hrest⟩ := ih (he.child List.mem_cons_self) hparts ha
    exact ⟨forall_values_of_operation (List.cons_ne_nil _ _) (List.forall_mem_singleton.2 ha'),
      hrest⟩
  | binary op a b iha ihb =>
    by_cases hnative : Outputs.isNative (.binary op a b)
    · rw [fill_of_isNative hnative] at h
      exact isFinite_of_takePart hparts h
    by_cases haggregate : (Expression.binary op a b).isAggregate
    · -- an aggregate that is not computed as it is is an average
      cases op with
      | measure m =>
        cases m with
        | average => exact isFinite_of_takeQuotient hparts h
        | _ => exact absurd rfl hnative
      | _ => exact nomatch haggregate
    · rw [fill_binary (Bool.not_eq_true _ ▸ haggregate)] at h
      obtain ⟨⟨a', parts'⟩, ha, h⟩ := Option.bind_eq_some_iff.1 h
      obtain ⟨⟨b', parts''⟩, hb, h⟩ := Option.bind_eq_some_iff.1 h
      obtain ⟨rfl, rfl⟩ := Prod.mk.inj (Option.some.inj h)
      obtain ⟨ha', hparts'⟩ := iha (he.child List.mem_cons_self) hparts ha
      obtain ⟨hb', hrest⟩ := ihb (he.child (List.mem_cons_of_mem _ List.mem_cons_self)) hparts' hb
      exact ⟨ha'.binary hb' op, hrest⟩
  | _ =>
    obtain ⟨rfl, rfl⟩ := Prod.mk.inj (Option.some.inj h)
    exact ⟨he, hparts⟩

namespace Outputs

variable {x : External} {dataName : String} {o o' : Outputs}

theorem isFinite_of_addApply (ho : ∀ entry ∈ o.derived, entry.2.IsFinite) (he : e.IsFinite)
    (h : o.addApply x dataName name e = .ok o') : ∀ entry ∈ o'.derived, entry.2.IsFinite := by
  obtain ⟨-, -, -, hderived⟩ | ⟨names, e', -, hfill, hderived⟩ := addApply_eq_ok h
  · rwa [hderived]
  · rw [hderived]
    have hrefs : ∀ part ∈ names.map Expression.ref, part.IsFinite := by
      intro part hpart
      obtain ⟨n, -, rfl⟩ := List.mem_map.1 hpart
      exact .of_ref n
    exact List.forall_mem_append.2 ⟨ho, List.forall_mem_singleton.2 (he.fill hrefs hfill).1⟩

end Outputs

namespace Pattern

variable {p : Pattern}

theorem isFinite_of_outputs (hp : p.IsFinite) {o : Outputs} (h : p.outputs = .ok o) :
    ∀ entry ∈ o.derived, entry.2.IsFinite := by
  refine Except.foldlM_induction (motive := fun done o => (∀ result ∈ done, result ∈ p.applies) →
    ∀ entry ∈ o.derived, entry.2.IsFinite) h (fun _ => nofun)
    (fun done result o o' ho hadded hdone => ?_) fun _ => id
  obtain ⟨hbefore, hresult⟩ := List.forall_mem_append.1 hdone
  obtain ⟨n, body⟩ := result
  cases body with
  | scalar e =>
    exact Outputs.isFinite_of_addApply (ho hbefore)
      (hp.scalar (List.forall_mem_singleton.1 hresult)) hadded
  | nested q => exact Except.ok.inj hadded ▸ ho hbefore

/-- **Derived values.** What is derived in the rows of a pattern has the literals of the pattern. -/
theorem isFinite_of_compile (hp : p.IsFinite) {limits : Limits} {c : Compiled}
    (h : p.compile limits = .ok c) : ∀ entry ∈ c.finish.derived, entry.2.IsFinite := by
  obtain ⟨r, -, ⟨-, -, h⟩ | ⟨o, -, ho, h⟩ | ⟨o, split, -, ho, h⟩⟩ := compile_eq_ok h
  · obtain ⟨span, -, rfl⟩ := compileRows_eq_ok h
    exact nofun
  · obtain ⟨-, span, -, rfl⟩ := compileTotals_eq_ok h
    exact isFinite_of_outputs hp ho
  · obtain ⟨grouping, span, -, -, -, rfl⟩ := compileGroups_eq_ok h
    exact isFinite_of_outputs hp ho

end Pattern

end FederatedQuery
