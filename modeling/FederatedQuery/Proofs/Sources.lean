import FederatedQuery.Proofs.Descent
import FederatedQuery.Proofs.FirstRequest
import FederatedQuery.Proofs.Invariants

/-!
# Requests go to the datasources of the context

A plan reads from datasources of its context only: whatever a name is bound to in the course of a
pipeline goes back to one of them. Introspection changes what is known of a datasource, but not its
backend. So every request of a computation goes to the backend of a datasource in its context.

## Main definitions

* `Bindings.IsGrounded`: bindings to datasources of the context.

## Main results

* `Plan.external_of_ofExpression`: the datasources of plans.
* `World.asked_compute`: the requests of computations.
-/

namespace FederatedQuery

/-- A request for a datasource goes to its backend. -/
@[simp] theorem External.backend_request (x : External) (query : Json) :
    (x.request query).backend = x.backend := by
  unfold request
  split <;> rfl

/-! ### Bindings -/

namespace Bindings

variable {b : Bindings} {e : Expression} {name : String} {source : Source}

/-- What is bound goes back to datasources of the context. -/
def IsGrounded (b : Bindings) : Prop :=
  ∀ entry ∈ b.bound, entry.2.external ∈ b.context.map Prod.snd

theorem isGrounded_ofContext (context : Context) : (ofContext context).IsGrounded := nofun

section

variable (hb : b.IsGrounded)

include hb

theorem IsGrounded.bind (hsource : source.external ∈ b.context.map Prod.snd) (name : String) :
    (b.bind name source).IsGrounded :=
  List.forall_mem_cons.2 ⟨hsource, hb⟩

theorem external_of_resolve (h : b.resolve name = .ok source) :
    source.external ∈ b.context.map Prod.snd := by
  rw [resolve, resolve?] at h
  cases hbound : b.bound.lookup name with
  | some bound =>
    rw [hbound] at h
    obtain rfl := Except.ok.inj h
    obtain ⟨front, back, heq, -⟩ := List.lookup_eq_some_iff.1 hbound
    exact hb (name, bound) (heq ▸ List.mem_append_right _ List.mem_cons_self)
  | none =>
    rw [hbound] at h
    cases hlookup : b.context.lookup name with
    | none =>
      rw [hlookup] at h
      cases h
    | some x =>
      rw [hlookup] at h
      obtain rfl := Except.ok.inj h
      obtain ⟨front, back, heq, -⟩ := List.lookup_eq_some_iff.1 hlookup
      exact List.mem_map.2 ⟨(name, x), heq ▸ List.mem_append_right _ List.mem_cons_self, rfl⟩

theorem external_of_sourceOf (h : b.sourceOf e = .ok source) :
    source.external ∈ b.context.map Prod.snd := by
  induction e generalizing source with
  | ref name => exact external_of_resolve hb h
  | filter operand condition ih =>
    obtain ⟨outer, houter, h⟩ := Except.bind_eq_ok.1 h
    rw [← Except.ok.inj h, Source.narrow_external]
    exact ih houter
  | _ => exact nomatch h

/-- A pattern reads from the source of its chain. -/
theorem external_of_pattern {p : Pattern} (h : b.pattern e = .ok p) :
    p.source.external ∈ b.context.map Prod.snd := by
  rw [pattern] at h
  obtain ⟨sort, -, h⟩ := Except.bind_eq_ok.1 h
  dsimp only at h
  split at h
  · cases h
  obtain ⟨source, hsource, h⟩ := Except.bind_eq_ok.1 h
  split at h
  · cases h
  obtain ⟨applies, -, h⟩ := Except.bind_eq_ok.1 h
  obtain rfl := Except.ok.inj h
  exact external_of_sourceOf hb hsource

end

end Bindings

/-! ### Pipelines -/

/-- The pattern of a step, if it has one. -/
def Step.pattern? : Step → Option Pattern
  | .totals pattern | .dataset _ pattern => some pattern
  | .derived .. => none

namespace Pipeline

variable {p p' : Pipeline} {e : Expression} {name root : String} {context : Context}

/-- A pipeline over a context reads from datasources of the context. -/
structure IsGrounded (context : Context) (p : Pipeline) : Prop where
  shared : p.bindings.context = context
  bindings : p.bindings.IsGrounded
  steps : ∀ step ∈ p.steps, ∀ q ∈ step.pattern?, q.source.external ∈ context.map Prod.snd

namespace IsGrounded

theorem addStep (h : p.IsGrounded context) {step : Step}
    (hstep : ∀ q ∈ step.pattern?, q.source.external ∈ context.map Prod.snd) :
    (p.addStep step).IsGrounded context where
  shared := h.shared
  bindings := h.bindings
  steps := List.forall_mem_append.2 ⟨h.steps, List.forall_mem_singleton.2 hstep⟩

theorem addTotal (h : p.IsGrounded context) (hp : p.addTotal root name e = .ok p') :
    p'.IsGrounded context := by
  rw [Pipeline.addTotal] at hp
  split at hp
  · next index _ =>
    obtain rfl := Except.ok.inj hp
    refine ⟨h.shared, h.bindings, fun step hstep => ?_⟩
    -- the changed step has the source that it had
    obtain ⟨i, hi, hget⟩ := List.mem_iff_getElem.1 hstep
    rw [List.length_modify] at hi
    rw [List.getElem_modify] at hget
    have hold := h.steps _ (List.getElem_mem hi)
    split at hget
    · rw [← hget]
      cases hkind : p.steps[i] with
      | totals pattern =>
        rw [hkind] at hold
        exact fun q hq => Option.some.inj hq ▸ hold pattern rfl
      | dataset =>
        rw [hkind] at hold
        exact hold
      | derived => exact nofun
    · exact hget ▸ hold
  · obtain ⟨source, hsource, hp⟩ := Except.bind_eq_ok.1 hp
    obtain rfl := Except.ok.inj hp
    have hexternal := Bindings.external_of_resolve h.bindings hsource
    rw [h.shared] at hexternal
    have hadded : (p.addStep (.totals ((Pattern.totals source root).addScalar name e))).IsGrounded
        context := h.addStep fun q hq => Option.some.inj hq ▸ hexternal
    exact ⟨hadded.shared, hadded.bindings, hadded.steps⟩

/-- An apply reads from datasources of the context. -/
theorem addApply (h : p.IsGrounded context) (hp : p.addApply name e = .ok p') :
    p'.IsGrounded context := by
  rw [Pipeline.addApply] at hp
  split at hp
  · obtain ⟨source, hsource, hp⟩ := Except.bind_eq_ok.1 hp
    obtain rfl := Except.ok.inj hp
    have hexternal := Bindings.external_of_sourceOf h.bindings hsource
    exact ⟨h.shared, h.bindings.bind hexternal name, h.steps⟩
  split at hp
  · obtain ⟨pattern, hpattern, hp⟩ := Except.bind_eq_ok.1 hp
    obtain rfl := Except.ok.inj hp
    have hexternal := Bindings.external_of_pattern h.bindings hpattern
    rw [h.shared] at hexternal
    exact h.addStep fun q hq => Option.some.inj hq ▸ hexternal
  split at hp
  · obtain rfl := Except.ok.inj hp
    exact h.addStep fun q hq => by cases hq
  · exact h.addTotal hp
  · cases hp

end IsGrounded

end Pipeline

/-! ### Plans -/

namespace Plan

variable {context : Context} {e : Expression} {plan : Plan} {p : Pattern}

/-- The source of a scalar is a datasource of the context. -/
theorem external_of_scalarBody {b : Bindings} (hb : b.IsGrounded) {root : String} {source : Source}
    {body : Expression} (h : scalarBody b e root = .ok (source, body)) :
    source.external ∈ b.context.map Prod.snd := by
  have hroot (x : Expression)
      (h : ((b.resolve root).map fun source => (source, x)) = .ok (source, body)) :
      source.external ∈ b.context.map Prod.snd := by
    obtain ⟨other, hother, heq⟩ := Except.map_eq_ok.1 h
    obtain rfl := (Prod.mk.inj heq).1
    exact Bindings.external_of_resolve hb hother
  rw [scalarBody] at h
  split at h
  · split at h
    · obtain ⟨other, hother, heq⟩ := Except.map_eq_ok.1 h
      obtain rfl := (Prod.mk.inj heq).1
      exact Bindings.external_of_sourceOf hb hother
    · exact hroot e h
  · exact hroot e h

/-- **The datasources of plans.** They are datasources of the context. -/
theorem external_of_ofExpression (h : ofExpression context e = .ok plan)
    (hp : p ∈ plan.outermost) : p.source.external ∈ context.map Prod.snd := by
  have hground := Bindings.isGrounded_ofContext context
  rw [ofExpression] at h
  split at h
  · next seed applies _ =>
    obtain ⟨pipeline, hpipeline, h⟩ := Except.bind_eq_ok.1 h
    obtain rfl := Except.ok.inj h
    have hgrounded : pipeline.IsGrounded context :=
      Except.foldlM_induction (motive := fun _ p => Pipeline.IsGrounded context p) hpipeline
        ⟨rfl, hground, List.forall_mem_nil _⟩ fun _ _ _ _ hp hnext => hp.addApply hnext
    obtain hp | hp := List.mem_append.1 hp
    · obtain ⟨step, hstep, htotals⟩ := List.mem_filterMap.1 hp
      refine hgrounded.steps step hstep p ?_
      cases step with
      | totals pattern => exact htotals
      | _ => cases htotals
    · obtain ⟨⟨name, q⟩, hq, rfl⟩ := List.mem_map.1 hp
      obtain ⟨step, hstep, hdataset⟩ := List.mem_filterMap.1 hq
      refine hgrounded.steps step hstep q ?_
      cases step with
      | dataset other pattern => exact congrArg (Option.map Prod.snd) hdataset
      | _ => cases hdataset
  · split at h
    · obtain ⟨pattern, hpattern, rfl⟩ := Except.map_eq_ok.1 h
      obtain rfl := List.mem_singleton.1 hp
      exact Bindings.external_of_pattern hground hpattern
    · rw [ofScalar] at h
      split at h
      · split at h
        · cases h
        · obtain rfl := Except.ok.inj h
          cases hp
      · obtain ⟨⟨source, body⟩, hbody, h⟩ := Except.bind_eq_ok.1 h
        obtain rfl := Except.ok.inj h
        obtain rfl := List.mem_singleton.1 hp
        exact external_of_scalarBody hground hbody
      · cases h

/-- The requests of a plan are those of its patterns. -/
theorem asks_run {config : Config} {request : Request} (h : (plan.run config).Asks request) :
    ∃ p ∈ plan.outermost, ∃ scope, (p.run config scope).Asks request := by
  cases plan with
  | value e =>
    rw [run] at h
    split at h <;> cases h
  | dataset p | scalar p => exact ⟨p, List.mem_cons_self, [], h⟩
  | pipeline seed steps =>
    rw [run, runSteps] at h
    cases h with
    | part hmem h =>
      obtain ⟨p, hp, rfl⟩ := List.mem_map.1 hmem
      exact ⟨p, List.mem_append_left _ hp, [seed], h⟩
    | rest answers h =>
      dsimp only at h
      split at h
      · cases h
      · next row _ =>
        cases h with
        | part hmem h =>
          obtain ⟨⟨name, p⟩, hp, rfl⟩ := List.mem_map.1 hmem
          exact ⟨p, List.mem_append_right _ (List.mem_map.2 ⟨(name, p), hp, rfl⟩), [row], h⟩
        | rest results h => cases h

/-- The requests of a plan go to the backends of its patterns. -/
theorem backend_of_asks_run {config : Config} {request : Request}
    (h : (plan.run config).Asks request) :
    ∃ p ∈ plan.outermost, request.backend = p.source.external.backend := by
  obtain ⟨p, hp, scope, h⟩ := asks_run h
  obtain ⟨path, q, c, hreaches, -, hrequests⟩ := Pattern.asks_run h
  refine ⟨p, hp, ?_⟩
  rw [← hreaches.external]
  obtain rfl | ⟨identifiers, rfl⟩ := hrequests <;> exact External.backend_request _ _

end Plan

/-! ### Introspection -/

namespace External

variable {ok : Reply → Prop} (x : External)

theorem gives_learnColumns (attempt : Attempt) :
    (x.learnColumns attempt).Gives (fun request => request.backend = x.backend) ok
      fun _ => True := by
  rw [learnColumns_eq]
  refine .ask (x.backend_request _) fun reply _ => ?_
  split
  · exact .done trivial
  · split
    · exact gives_learnColumns _
    · exact .fail _
termination_by attempt.capability
decreasing_by exact Attempt.capability_stepDown (by assumption)

/-- Introspection asks the backend of the datasource, and leaves the datasource with it. -/
theorem gives_introspect :
    x.introspect.Gives (fun request => request.backend = x.backend) ok
      fun y => y.backend = x.backend := by
  have hversion : x.learnVersion.Gives (fun request => request.backend = x.backend) ok
      fun _ => True := by
    rw [learnVersion]
    split
    · exact .done trivial
    · refine .items (x.backend_request _) fun reply _ => ?_
      split
      · exact .done trivial
      · split
        · exact .done trivial
        · exact .fail _
  rw [introspect]
  split
  · exact .done rfl
  · exact hversion.bind fun version _ => (x.gives_learnColumns _).bind fun columns _ => .done rfl

end External

/-- A datasource that is known better now has the backend of one that there was. -/
theorem Context.backend_of_update {context known : Context} {name : String} {x : External}
    (hknown : ∀ entry ∈ known, ∃ old ∈ context, entry.2.backend = old.2.backend)
    (h : (name, x) ∈ context.update known) : ∃ old ∈ context, x.backend = old.2.backend := by
  obtain ⟨⟨n, old⟩, hold, heq⟩ := List.mem_map.1 h
  obtain ⟨rfl, rfl⟩ := Prod.mk.inj heq
  cases hlookup : known.lookup n with
  | none => exact ⟨(n, old), hold, rfl⟩
  | some y =>
    obtain ⟨front, back, heq, -⟩ := List.lookup_eq_some_iff.1 hlookup
    exact hknown (n, y) (heq ▸ List.mem_append_right _ List.mem_cons_self)

/-! ### Computations -/

namespace Simulation

/-- **The requests of computations.** Each goes to the backend of a datasource in the context. -/
theorem World.asked_compute (w : World) (job : Job) :
    w.Asked (fun request => ∃ entry ∈ job.context, request.backend = entry.2.backend)
      (w.compute job).2 := by
  have hkept : World.IsKept fun _ => True := ⟨fun _ _ _ _ => trivial, fun _ _ _ => trivial⟩
  suffices hgives : job.Gives
      (fun request => ∃ entry ∈ job.context, request.backend = entry.2.backend) (fun _ => True)
        fun _ => True from
    (World.compute_gives hkept (fun _ _ _ => trivial) hgives trivial).2
  refine ⟨fun known => ∀ entry ∈ known, ∃ old ∈ job.context, entry.2.backend = old.2.backend,
    ?_, fun known hknown plan hplan => ?_⟩
  · refine .join (fun part hpart => ?_) fun parts hparts =>
      .done fun entry hentry => ?_
    · obtain ⟨⟨name, x⟩, hx, rfl⟩ := List.mem_map.1 hpart
      have hmem : (name, x) ∈ job.context := (List.mem_filter.1 hx).1
      refine (x.gives_introspect.mono (fun request hrequest => ?_) fun y hy => hy).andThen
        fun y hy => .done ?_
      · exact ⟨(name, x), hmem, hrequest⟩
      exact List.forall_mem_singleton.2 ⟨(name, x), hmem, hy⟩
    · obtain ⟨known, hknown, hentry⟩ := List.mem_flatten.1 hentry
      exact hparts known hknown entry hentry
  · refine ⟨fun _ => True, .ready (.of_asks _ fun request hrequest => ?_), fun _ _ => trivial⟩
    obtain ⟨p, hp, hbackend⟩ := Plan.backend_of_asks_run hrequest
    rw [Expression.planWith, Except.mapError_eq_ok] at hplan
    obtain ⟨⟨name, x⟩, hx, hexternal⟩ := List.mem_map.1 (Plan.external_of_ofExpression hplan hp)
    rw [hbackend, ← hexternal]
    exact Context.backend_of_update hknown hx

end Simulation

end FederatedQuery
