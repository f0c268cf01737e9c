import FederatedQuery.Proofs.Keeping
import FederatedQuery.Proofs.Pipelines

/-!
# What precedes the first request

A plan may have many patterns: those of several steps, and patterns nested in others at any depth.
Each pattern is compiled only when its turn comes. When all datasources are known, nothing is asked
before the turn of the first one, so the rejection of that pattern comes before any request; the
rejection of any other one comes after the query of the first.

## Main definitions

* `Pattern.Contains`, `Plan.Contains`: the patterns of a plan.
* `Plan.first?`: the pattern whose turn comes first.
* `Running.BeginsWith`: tasks with a foremost part.

## Main results

* `Plan.beginsWith_of_first?`: the turn of the first pattern.
* `World.compute_compile_error_iff`: the compilation errors that precede all requests.
* `World.compute_authorsOfPages`: a pattern whose rejection does not precede the first request.
-/

namespace FederatedQuery

/-! ### The patterns of a plan -/

/-- A nested pattern narrowed by the filters around it, and by no group. -/
def Pattern.inside (outer nested : Pattern) : Pattern :=
  { nested with
    source :=
      match nested.source.filter with
      | none => outer.source
      | some own =>
        if outer.source.filter == some own then outer.source else outer.source.narrow own }

/-- The patterns in a pattern: the pattern itself, and those in its nested patterns. -/
inductive Pattern.Contains : Pattern → Pattern → Prop
  | self (p : Pattern) : Contains p p
  | nested {p inner q : Pattern} {name : String} (hnested : (name, inner) ∈ p.nestedPatterns)
      (hinner : Contains (p.inside inner) q) : Contains p q

namespace Plan

/-- The patterns of a plan that are in no other one. -/
def outermost : Plan → List Pattern
  | .value _ => []
  | .dataset pattern | .scalar pattern => [pattern]
  | .pipeline _ steps =>
    steps.filterMap Step.totals? ++ (steps.filterMap Step.dataset?).map Prod.snd

/-- The patterns of a plan, at any depth. -/
def Contains (plan : Plan) (q : Pattern) : Prop := ∃ p ∈ plan.outermost, p.Contains q

/-- The pattern whose turn comes first. In a pipeline these are the first totals; without totals
it is the first dataset, unless a derived value, which comes before, cannot be computed. -/
def first? : Plan → Option Pattern
  | .value _ => none
  | .dataset pattern | .scalar pattern => some pattern
  | .pipeline seed steps =>
    match steps.filterMap Step.totals? with
    | pattern :: _ => some pattern
    | [] =>
      match Row.derive [] seed (steps.filterMap Step.derived?) with
      | .ok _ => (steps.filterMap Step.dataset?).head?.map Prod.snd
      | .error _ => none

/-- The first pattern of a plan is one of its patterns. -/
theorem contains_of_first? {plan : Plan} {p : Pattern} (h : plan.first? = some p) :
    plan.Contains p := by
  refine ⟨p, ?_, .self p⟩
  cases plan with
  | value e => exact nomatch h
  | dataset q | scalar q => exact List.mem_singleton.2 (Option.some.inj h).symm
  | pipeline seed steps =>
    rw [first?] at h
    rw [outermost, List.mem_append]
    split at h
    · next htotals =>
      obtain rfl := Option.some.inj h
      rw [htotals]
      exact .inl List.mem_cons_self
    · split at h
      · obtain ⟨entry, hentry, rfl⟩ := Option.map_eq_some_iff.1 h
        exact .inr (List.mem_map_of_mem (List.mem_of_mem_head? hentry))
      · exact nomatch h

end Plan

namespace Simulation

namespace Running

variable {ρ : Type} {token : Option String} {now : Nat} {w : World}

/-! ### The foremost part of a task -/

/-- A request is made when its turn comes. -/
theorem requests_start_ask (request : Request) (next : Reply → Task ρ) :
    w.requests ++ [request] <+: (start token now (.ask request next) w).2.requests := by
  have hasked : w.requests ++ [request] <+: (w.ask now request).2.requests := List.prefix_refl _
  rw [start]
  revert hasked
  rcases w.ask now request with ⟨arrival, after⟩
  intro hasked
  simp only
  split
  · exact keeps_start (World.isKept_requests _) _ after hasked
  · exact hasked

/-- No parts are done at once. -/
theorem start_together_nil (next : List ρ → Task ρ) :
    start token now (.together [] next) w = start token now (next []) w := rfl

/-- A task begins with another one: it fails if that one does when it is started, and what that
one brings about is not lost, if requests keep it. -/
structure BeginsWith (task part : Task ρ) : Prop where
  fails : ∀ token now w error after, start token now part w = (.settled (.error error), after) →
    start token now task w = (.settled (.error error), after)
  keeps : ∀ token now w P, World.IsKept P → P (start token now part w).2 →
    P (start token now task w).2

theorem BeginsWith.refl (task : Task ρ) : BeginsWith task task :=
  ⟨fun _ _ _ _ _ h => h, fun _ _ _ _ _ h => h⟩

/-- What a task begins with depends on nothing but how it is started. -/
theorem BeginsWith.of_start_eq {task task' part : Task ρ}
    (hstart : ∀ token now w, start token now task w = start token now task' w)
    (h : BeginsWith task' part) : BeginsWith task part := by
  constructor
  · intro token now w error after hpart
    rw [hstart]
    exact h.fails token now w error after hpart
  · intro token now w P hP hpart
    rw [hstart]
    exact h.keeps token now w P hP hpart

/-- Parts that go on at once begin with the foremost one. -/
theorem beginsWith_together (task : Task ρ) (rest : List (Task ρ)) (next : List ρ → Task ρ) :
    BeginsWith (.together (task :: rest) next) task := by
  have hwidth : ([] : List (Running ρ)).length < (task :: rest).length := Nat.succ_pos _
  constructor
  · intro token now w error after h
    rw [Task.together, Join.ofCount]
    split
    · rw [start, startAll, h]
    · rw [start, fill, if_pos hwidth, h]
      cases error <;> rfl
  · intro token now w P hP h
    have hnext (results : List ρ) (w : World) (hw : P w) :
        P (start token now (next results) w).2 :=
      keeps_start hP (next results) w hw
    rw [Task.together, Join.ofCount]
    split
    · rw [start, startAll]
      exact keeps_all (keeps_cons h fun w hw => keeps_startAll hP rest w hw) hnext [] []
    · rw [start]
      refine keeps_window (keeps_fill_cons h ?_ hwidth) hnext _
      exact fun results slots w hw => keeps_fill hP _ rest results slots w hw

end Running

end Simulation

/-! ### The turn of a pattern -/

/-- The rows of a compiled pattern take a request, after a look whether the computation has been
cancelled if they are read page by page. -/
theorem Compiled.finished_asks (c : Compiled) (config : Config) (x : External) (scope : Scope) :
    ∃ request next, c.finished config x scope = .ask request next ∨
      ∃ look, c.finished config x scope = .look look ∧ look false = .ask request next := by
  cases hpaging : c.paging with
  | none =>
    obtain ⟨next, hfetch⟩ : ∃ next, c.fetch config x = .ask (x.request c.query.toJson) next := by
      rw [fetch, hpaging]
      exact ⟨_, rfl⟩
    rw [finished, hfetch]
    exact ⟨_, _, .inl rfl⟩
  | some paging =>
    have hfetch : c.fetch config x = c.readPages x config.maxRows paging [] [] := by
      rw [fetch, hpaging]
    rw [finished, hfetch, readPages]
    exact ⟨_, _, .inr ⟨_, rfl, rfl⟩⟩

namespace Pattern

open Simulation

variable {token : Option String} {now : Nat} {w : World} {config : Config} {p : Pattern}

/-- A pattern that cannot be compiled fails when its turn comes. -/
theorem start_run_of_compile_error (hcancelled : w.isCancelled token = false)
    {error : CompileError} (h : p.compile config.limits = .error error) (scope : Scope) :
    Running.start token now (p.run config scope) w = (.settled (.error (.compile error)), w) := by
  rw [run, Running.start, hcancelled, h]
  rfl

/-- A pattern that can be compiled makes a request when its turn comes. -/
theorem start_run_of_compile_ok (hcancelled : w.isCancelled token = false) {c : Compiled}
    (h : p.compile config.limits = .ok c) (scope : Scope) :
    ∃ request, w.requests ++ [request] <+:
      (Running.start token now (p.run config scope) w).2.requests := by
  rw [run, Running.start, hcancelled, h]
  simp only [Bool.false_eq_true, if_false]
  obtain ⟨request, next, hask | ⟨look, hlook, hask⟩⟩ :=
    c.finished_asks config p.source.external scope
  · rw [hask]
    exact ⟨request, Running.requests_start_ask request _⟩
  · rw [hlook, Exchange.andThen, Running.start, hcancelled, hask]
    exact ⟨request, Running.requests_start_ask request _⟩

end Pattern

namespace Plan

open Simulation

variable {token : Option String} {now : Nat} {w : World} {plan : Plan}

section

variable (config : Config) (seed : Row) {steps : List Step}
  (htotals : steps.filterMap Step.totals? = [])

include htotals

/-- A pipeline without totals fails if a derived value cannot be computed. -/
theorem start_runSteps_of_derive_error {error : ExpressionError}
    (hderived : Row.derive [] seed (steps.filterMap Step.derived?) = .error error) :
    Running.start token now (runSteps config seed steps) w =
      (.settled (.error (.expression error)), w) := by
  rw [runSteps, htotals, List.map_nil, Running.start_together_nil, addTotals, List.foldl_nil]
  simp only [hderived]
  rfl

/-- A pipeline without totals goes on with its datasets once the derived values are computed. -/
theorem start_runSteps_of_derive_ok {row : Row}
    (hderived : Row.derive [] seed (steps.filterMap Step.derived?) = .ok row) :
    Running.start token now (runSteps config seed steps) w =
      Running.start token now
        (.together ((steps.filterMap Step.dataset?).map fun (_, p) => p.run config [row])
          fun answers => .done [Row.extend row
            (((steps.filterMap Step.dataset?).map Prod.fst).zip (answers.map .dataset))]) w := by
  rw [runSteps, htotals, List.map_nil, Running.start_together_nil, addTotals, List.foldl_nil]
  simp only [hderived]

end

/-- **The turn of the first pattern.** A plan begins with its first pattern. -/
theorem beginsWith_of_first? {p : Pattern} (hfirst : plan.first? = some p) (config : Config) :
    ∃ scope, Running.BeginsWith (plan.run config) (p.run config scope) := by
  cases plan with
  | value e => exact nomatch hfirst
  | dataset q | scalar q =>
    obtain rfl := Option.some.inj hfirst
    exact ⟨[], .refl _⟩
  | pipeline seed steps =>
    rw [first?] at hfirst
    split at hfirst
    · next htotals =>
      obtain rfl := Option.some.inj hfirst
      refine ⟨[seed], ?_⟩
      rw [run, runSteps, htotals]
      exact Running.beginsWith_together _ _ _
    · next htotals =>
      split at hfirst
      · next row hderived =>
        obtain ⟨⟨name, q⟩, hentry, rfl⟩ := Option.map_eq_some_iff.1 hfirst
        obtain ⟨rest, hdatasets⟩ := List.head?_eq_some_iff.1 hentry
        refine ⟨[row], ?_⟩
        refine .of_start_eq (fun token now w =>
          start_runSteps_of_derive_ok config seed htotals hderived) ?_
        rw [hdatasets]
        exact Running.beginsWith_together _ _ _
      · exact nomatch hfirst

/-- A plan without a first pattern is computed at once, and not rejected. -/
theorem start_run_of_first?_eq_none (hfirst : plan.first? = none) (config : Config) :
    ∃ outcome, Running.start token now (plan.run config) w = (.settled outcome, w) ∧
      ∀ error, outcome ≠ .error (.compile error) := by
  cases plan with
  | value e =>
    rw [run]
    split <;> exact ⟨_, rfl, fun _ herror => by cases herror⟩
  | dataset q | scalar q => cases hfirst
  | pipeline seed steps =>
    rw [first?] at hfirst
    split at hfirst
    · cases hfirst
    · next htotals =>
      rw [run]
      split at hfirst
      · next row hderived =>
        rw [start_runSteps_of_derive_ok config seed htotals hderived,
          List.head?_eq_none_iff.1 (Option.map_eq_none_iff.1 hfirst)]
        exact ⟨_, rfl, fun _ herror => by cases herror⟩
      · next error hderived =>
        rw [start_runSteps_of_derive_error config seed htotals hderived]
        exact ⟨_, rfl, fun _ herror => by cases herror⟩

end Plan

/-! ### Whole computations -/

namespace Simulation

variable {job : Job} {w : World}

/-- If all datasources are known, a computation is that of its plan. -/
theorem World.compute_of_known (hvalid : job.expression.validate = .ok ())
    (hcancelled : w.isCancelled job.token = false)
    (hknown : job.context.unknown job.expression = []) :
    w.compute job =
      match Plan.ofExpression job.context job.expression with
      | .error error => (.error (.compile error), w)
      | .ok plan =>
        let stage := Stage.ofRun plan (Running.start job.token 0 (plan.run job.config) w)
        stage.1.settle job 0 stage.2 := by
  have hintrospect : Running.start job.token 0 (job.context.introspect job.expression) w =
      (.settled (.ok []), w) := by
    rw [Context.introspect, hknown]
    rfl
  have hupdate : job.context.update [] = job.context := by
    simp [Context.update]
  rw [compute, Expression.admit, hvalid, hcancelled]
  simp only [Bool.false_eq_true, if_false, Stage.initial, hintrospect, Stage.ofIntrospection,
    Expression.planWith, hupdate]
  cases Plan.ofExpression job.context job.expression with
  | error error => simp only [Except.mapError, Stage.settle]
  | ok plan => rfl

/-- A plan that is settled when it is started is all that there is of a computation. -/
theorem Stage.settle_ofRun_settled (plan : Plan) (outcome : Except ExecutionError Dataset)
    (now : Nat) :
    (ofRun plan (.settled outcome, w)).1.settle job now (ofRun plan (.settled outcome, w)).2 =
      (outcome.map fun rows => plan.result rows, w) := by
  rw [ofRun, settle]

/-- Requests that have been made when a plan has been started stay made. -/
theorem Stage.requests_settle_ofRun (job : Job) (plan : Plan) {x : Running Dataset × World}
    {requests : List Request} (h : requests <+: x.2.requests) (now : Nat) :
    requests <+: ((ofRun plan x).1.settle job now (ofRun plan x).2).2.requests := by
  have hkept := World.isKept_requests requests
  have hstage : requests <+: (ofRun plan x).2.requests := by
    unfold ofRun
    split <;> exact h
  exact keeps_settle hkept now _ hstage

end Simulation

/-! ### Edits by author -/

namespace Sample

open Simulation

/-- A world in which every query of edits has an empty answer. -/
def emptyWorld : World :=
  ⟨[("wiki", ⟨[⟨.object [], .now [.ok (.array [])], none⟩], [], none⟩)], [], []⟩

/-- The groups of edits by an attribute. -/
def editsBy (name : String) : Expression := .split (.ref "edits") (.ref name) name

/-- The pattern of the groups of edits by an attribute. -/
def patternBy (name : String) (applies : List (String × Body Pattern)) : Pattern :=
  ⟨.ofExternal edits, "edits", some ⟨.ref name, name⟩, applies, none, none⟩

theorem pattern_editsBy (name : String) :
    (Bindings.ofContext [("edits", edits)]).pattern (editsBy name) = .ok (patternBy name []) := by
  rw [Bindings.pattern]
  rfl

/-- The groups of edits by author, which is no attribute, and then those by page. -/
def authorsAndPages : List (String × Expression) :=
  [("Authors", editsBy "author"), ("Pages", editsBy "page")]

theorem authorsAndPages_plan :
    Plan.ofExpression [("edits", edits)] (editsJob authorsAndPages).expression =
      .ok (.pipeline [] [.dataset "Authors" (patternBy "author" []),
        .dataset "Pages" (patternBy "page" [])]) := by
  have hunwind : Pipeline.unwind? (editsJob authorsAndPages).expression =
      some ([], authorsAndPages) := rfl
  refine (Plan.ofExpression_eq_ok hunwind).2 ⟨⟨.ofContext [("edits", edits)], _, []⟩, ?_, rfl⟩
  refine Except.bind_eq_ok.2 ⟨_, Pipeline.addApply_of_pattern "Authors" rfl rfl
    (pattern_editsBy "author"), ?_⟩
  exact Except.bind_eq_ok.2 ⟨_, Pipeline.addApply_of_pattern "Pages" rfl rfl
    (pattern_editsBy "page"), rfl⟩

/-- The job of the groups of edits by page, each with its groups by author. -/
def authorsOfPages : Job :=
  { editsJob [] with expression := .apply (editsBy "page") (editsBy "author") "Authors" }

/-- The pattern of the groups of edits by page, each with its groups by author. -/
def authorsOfPagesPattern : Pattern :=
  patternBy "page" [("Authors", .nested (patternBy "author" []))]

theorem authorsOfPages_plan :
    Plan.ofExpression [("edits", edits)] authorsOfPages.expression =
      .ok (.dataset authorsOfPagesPattern) := by
  change ((Bindings.ofContext [("edits", edits)]).pattern authorsOfPages.expression).map _ = _
  rw [Bindings.pattern]
  change ((((Bindings.ofContext [("edits", edits)]).pattern (editsBy "author") >>= fun nested =>
    Except.ok ("Authors", Body.nested nested)) >>= fun apply => Except.ok [apply]) >>=
      fun applies => Except.ok (patternBy "page" applies)).map Plan.dataset = _
  rw [pattern_editsBy]
  rfl

end Sample

/-! ### Errors before the first request -/

namespace Simulation

variable {job : Job} {w : World}

/-- **Compilation errors that precede all requests.** When all datasources of a valid expression are
known, its computation fails with a compilation error before any request is made if and only if the
expression has no plan, or the first pattern of its plan cannot be compiled. -/
theorem World.compute_compile_error_iff (hvalid : job.expression.validate = .ok ())
    (hcancelled : w.isCancelled job.token = false)
    (hknown : job.context.unknown job.expression = []) (error : CompileError) :
    (w.compute job).1 = .error (.compile error) ∧ (w.compute job).2.requests = w.requests ↔
      Plan.ofExpression job.context job.expression = .error error ∨
        ∃ plan pattern, Plan.ofExpression job.context job.expression = .ok plan ∧
          plan.first? = some pattern ∧ pattern.compile job.config.limits = .error error := by
  rw [compute_of_known hvalid hcancelled hknown]
  cases hplan : Plan.ofExpression job.context job.expression with
  | error fault => simp
  | ok plan =>
    simp only [Except.ok.injEq, reduceCtorEq, false_or, exists_and_left, exists_eq_left']
    cases hfirst : plan.first? with
    | none =>
      obtain ⟨outcome, hstart, houtcome⟩ := Plan.start_run_of_first?_eq_none hfirst job.config
      rw [hstart, Stage.settle_ofRun_settled]
      constructor
      · rintro ⟨herror, -⟩
        cases outcome with
        | ok rows => exact nomatch herror
        | error other => exact absurd (congrArg _ (Except.error.inj herror)) (houtcome error)
      · simp
    | some pattern =>
      obtain ⟨scope, hbegins⟩ := Plan.beginsWith_of_first? hfirst job.config
      cases hcompile : pattern.compile job.config.limits with
      | error fault =>
        have hstart := hbegins.fails _ 0 _ _ _
          (Pattern.start_run_of_compile_error hcancelled hcompile scope)
        rw [hstart, Stage.settle_ofRun_settled]
        simp [Except.map, hcompile]
      | ok c =>
        obtain ⟨request, hrequest⟩ := Pattern.start_run_of_compile_ok hcancelled hcompile scope
        have hstart := hbegins.keeps _ 0 _ _ (World.isKept_requests _) hrequest
        have hgrown := (Stage.requests_settle_ofRun job plan hstart 0).length_le
        rw [List.length_append, List.length_singleton] at hgrown
        constructor
        · rintro ⟨-, hsame⟩
          rw [hsame] at hgrown
          omega
        · simp [hcompile]

open Sample in
/-- The groups by author come first, so they are rejected before any request. -/
theorem World.compute_authorsAndPages :
    (editsJob authorsAndPages).expression.validate = .ok () ∧
      emptyWorld.isCancelled (editsJob authorsAndPages).token = false ∧
      (editsJob authorsAndPages).context.unknown (editsJob authorsAndPages).expression = [] ∧
      (emptyWorld.compute (editsJob authorsAndPages)).1 =
        .error (.compile (.unknownAttribute "author")) ∧
      (emptyWorld.compute (editsJob authorsAndPages)).2.requests = [] := by
  refine ⟨rfl, rfl, rfl, ?_⟩
  refine (World.compute_compile_error_iff rfl rfl rfl _).2 (.inr ?_)
  exact ⟨_, patternBy "author" [], authorsAndPages_plan, rfl, rfl⟩

open Sample in
/-- The groups by author are in those by page, so their rejection does not precede the request for
the pages. As there are none, it does not come at all. -/
theorem World.compute_authorsOfPages :
    authorsOfPages.expression.validate = .ok () ∧
      authorsOfPages.context.unknown authorsOfPages.expression = [] ∧
      (∃ plan q, Plan.ofExpression authorsOfPages.context authorsOfPages.expression = .ok plan ∧
        plan.Contains q ∧
        q.compile authorsOfPages.config.limits = .error (.unknownAttribute "author")) ∧
      (emptyWorld.compute authorsOfPages).1 = .ok (.dataset []) ∧
      (emptyWorld.compute authorsOfPages).2.requests.length = 1 := by
  have hstart : ∃ w, Running.start none 0 (authorsOfPagesPattern.run .standard []) emptyWorld =
      (.settled (.ok []), w) ∧ w.requests.length = 1 := by
    rw [Pattern.run]
    exact ⟨_, rfl, rfl⟩
  obtain ⟨w, hstart, hrequests⟩ := hstart
  refine ⟨rfl, rfl, ⟨_, patternBy "author" [], authorsOfPages_plan, ?_, rfl⟩, ?_⟩
  · exact ⟨_, List.mem_cons_self, .nested List.mem_cons_self (.self _)⟩
  · have hcompute : emptyWorld.compute authorsOfPages = (.ok (.dataset []), w) := by
      rw [World.compute_of_known rfl rfl rfl]
      change (match Plan.ofExpression [("edits", edits)] authorsOfPages.expression with
        | .error error => _
        | .ok plan => _) = _
      rw [authorsOfPages_plan]
      change (Stage.ofRun _ (Running.start none 0 (authorsOfPagesPattern.run .standard [])
        emptyWorld)).1.settle _ _ (Stage.ofRun _ (Running.start none 0
          (authorsOfPagesPattern.run .standard []) emptyWorld)).2 = _
      rw [hstart, Stage.settle_ofRun_settled]
      rfl
    rw [hcompute]
    exact ⟨rfl, hrequests⟩

end Simulation

end FederatedQuery
