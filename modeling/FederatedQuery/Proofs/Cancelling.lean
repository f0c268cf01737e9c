import FederatedQuery.Proofs.Activity
import FederatedQuery.Proofs.Descent
import FederatedQuery.Proofs.FirstRequest
import FederatedQuery.Proofs.Nesting

/-!
# Requests after a cancellation

Patterns look whether the computation has been cancelled right before each request. So once it
has been cancelled, whatever is still going on makes no request any more. Introspection does not
look, so a computation that is cancelled by one of its requests goes on asking as long as replies
come at once.

Between two polls of a computation nothing is asked. A computation that is found cancelled then
ends as cancelled. One that is cancelled by a request, and needs no more than the replies that come
at once, ends in the same poll with what comes out.

## Main definitions

* `Task.Guarded`, `Activity.Guarded`: tasks that look before they ask.
* `World.Heeds`: requests that heed a cancellation.
* `Job.Polls`: the polls of a computation.
* `Job.Stopped`: how a computation ends whose token is cancelled.

## Main results

* `Plan.guarded_run`: plans look before they ask.
* `World.heeds_of_runs`: steps of tasks that look.
* `World.compute_cancelled`: computations whose token is cancelled.
-/

namespace FederatedQuery

variable {ρ : Type} {free : Request → Prop} {looked cancelled : Bool}

/-! ### Looking before asking -/

/-- Requests that are not free are made only right after a look has found no cancellation, as it
may just have been done. -/
inductive Exchange.Guarded {ε α : Type} (free : Request → Prop) : Bool → Exchange ε α → Prop
  | done (looked : Bool) (result : α) : Guarded free looked (.done result)
  | fail (looked : Bool) (error : ε) : Guarded free looked (.fail error)
  | ask {looked : Bool} {request : Request} {next : Reply → Exchange ε α}
      (hrequest : looked = true ∨ free request) (hnext : ∀ reply, Guarded free false (next reply)) :
      Guarded free looked (.ask request next)
  | look {looked : Bool} {next : Bool → Exchange ε α} (hcancelled : Guarded free false (next true))
      (hnext : Guarded free true (next false)) : Guarded free looked (.look next)

/-- Requests that are not free are made only right after a look has found no cancellation, as it
may just have been done. A look counts for no part of what follows it. -/
inductive Task.Guarded (free : Request → Prop) : Bool → Task ρ → Prop
  | done (looked : Bool) (result : ρ) : Guarded free looked (.done result)
  | fail (looked : Bool) (error : ExecutionError) : Guarded free looked (.fail error)
  | ask {looked : Bool} {request : Request} {next : Reply → Task ρ}
      (hrequest : looked = true ∨ free request) (hnext : ∀ reply, Guarded free false (next reply)) :
      Guarded free looked (.ask request next)
  | look {looked : Bool} {next : Bool → Task ρ} (hcancelled : Guarded free false (next true))
      (hnext : Guarded free true (next false)) : Guarded free looked (.look next)
  | join {looked : Bool} {how : Join} {parts : List (Task ρ)} {next : List ρ → Task ρ}
      (hparts : ∀ part ∈ parts, Guarded free false part)
      (hnext : ∀ results, Guarded free false (next results)) :
      Guarded free looked (.join how parts next)

namespace Exchange.Guarded

variable {ε α β : Type} {x : Exchange ε α}

theorem looks (h : x.Guarded free false) : x.Guarded free looked := by
  cases h with
  | done => exact .done _ _
  | fail => exact .fail _ _
  | ask hrequest hnext => exact .ask (.inr (hrequest.resolve_left Bool.false_ne_true)) hnext
  | look hcancelled hnext => exact .look hcancelled hnext

theorem ofExcept (result : Except ε α) : (Exchange.ofExcept result).Guarded free looked := by
  cases result with
  | ok result => exact .done _ _
  | error error => exact .fail _ _

/-- If all requests of an exchange are free, it need not look. -/
theorem of_asks (h : ∀ request, x.Asks request → free request) : x.Guarded free looked := by
  induction x generalizing looked with
  | done => exact .done _ _
  | fail => exact .fail _ _
  | ask request next ih =>
    exact .ask (.inr (h request (.here next)))
      fun reply => ih reply fun other hother => h other (.later reply hother)
  | look next ih =>
    exact .look (ih true fun request hrequest => h request (.look true hrequest))
      (ih false fun request hrequest => h request (.look false hrequest))

theorem bind (h : x.Guarded free looked) {f : α → Exchange ε β}
    (hf : ∀ result, (f result).Guarded free false) : (x >>= f).Guarded free looked := by
  induction h with
  | done looked result => exact (hf result).looks
  | fail => exact .fail _ _
  | ask hrequest _ ih => exact .ask hrequest ih
  | look _ _ ihcancelled ih => exact .look ihcancelled ih

end Exchange.Guarded

namespace Task.Guarded

variable {task : Task ρ}

theorem looks (h : task.Guarded free false) : task.Guarded free looked := by
  cases h with
  | done => exact .done _ _
  | fail => exact .fail _ _
  | ask hrequest hnext => exact .ask (.inr (hrequest.resolve_left Bool.false_ne_true)) hnext
  | look hcancelled hnext => exact .look hcancelled hnext
  | join hparts hnext => exact .join hparts hnext

theorem bind {next : ρ → Task ρ} (h : task.Guarded free looked)
    (hnext : ∀ result, (next result).Guarded free false) :
    (task.bind next).Guarded free looked := by
  induction h with
  | done looked result => exact (hnext result).looks
  | fail => exact .fail _ _
  | ask hrequest _ ih => exact .ask hrequest ih
  | look _ _ ihcancelled ih => exact .look ihcancelled ih
  | join hparts _ _ ih => exact .join hparts ih

/-- What a task begins with after a look that has found a cancellation. -/
theorem heed_true : (task : Task ρ) → task.Guarded free false →
    (task.heed true).Guarded free false
  | .look next, .look hcancelled _ => heed_true (next true) hcancelled
  | .done _, h | .fail _, h | .ask _ _, h | .join _ _ _, h => h

/-- What a task begins with after a look that has found none. -/
theorem heed_false : (task : Task ρ) → {looked : Bool} → task.Guarded free looked →
    (task.heed false).Guarded free true
  | .look next, _, .look _ hnext => heed_false (next false) hnext
  | .done _, _, _ => .done _ _
  | .fail _, _, _ => .fail _ _
  | .ask _ _, _, .ask _ hnext => .ask (.inl rfl) hnext
  | .join _ _ _, _, .join hparts hnext => .join hparts hnext

/-- What a task begins with after a look, if it begins with one. -/
theorem heed (h : task.Guarded free false) (cancelled : Bool) :
    (task.heed cancelled).Guarded free !cancelled := by
  cases cancelled with
  | true => exact heed_true task h
  | false => exact heed_false task h

end Task.Guarded

theorem Exchange.Guarded.andThen {ε α : Type} {x : Exchange ε α} {failure : ε → ExecutionError}
    {next : α → Task ρ} (h : x.Guarded free looked)
    (hnext : ∀ result, (next result).Guarded free false) :
    (x.andThen failure next).Guarded free looked := by
  induction h with
  | done looked result => exact (hnext result).looks
  | fail => exact .fail _ _
  | ask hrequest _ ih => exact .ask hrequest ih
  | look _ _ ihcancelled ih => exact .look ihcancelled ih

/-! ### Steps -/

/-- Whatever goes on makes only free requests without a look. -/
inductive Activity.Guarded (free : Request → Prop) : Activity ρ → Prop
  | settled (outcome : Except ExecutionError ρ) : Guarded free (.settled outcome)
  | ready {task : Task ρ} (h : task.Guarded free false) : Guarded free (.ready task)
  | waiting {next : Reply → Task ρ} (reply : Reply)
      (hnext : ∀ reply, (next reply).Guarded free false) : Guarded free (.waiting reply next)
  | joined {slots : List (Activity ρ)} {queue : List (Task ρ)} {next : List ρ → Task ρ} (how : Join)
      (results : List ρ) (hslots : ∀ slot ∈ slots, Guarded free slot)
      (hqueue : ∀ task ∈ queue, task.Guarded free false)
      (hnext : ∀ results, (next results).Guarded free false) :
      Guarded free (.joined how results slots queue next)

/-- What a task that is ready begins with after a look. -/
theorem Activity.Guarded.of_ready {task task' : Task ρ} (h : Activity.Guarded free (.ready task))
    (htask : task.heed cancelled = task') : task'.Guarded free !cancelled := by
  cases h with
  | ready h => exact htask ▸ h.heed cancelled

/-- A step after a cancellation makes only free requests. -/
theorem Activity.Guarded.step {a b : Activity ρ} {log : Log} (h : Activity.Step cancelled a log b)
    (ha : a.Guarded free) :
    b.Guarded free ∧ (cancelled = true → ∀ entry ∈ log, free entry.1) := by
  induction h with
  | done | fail => exact ⟨.settled _, fun _ => nofun⟩
  | ask htask reply =>
    cases ha.of_ready htask with
    | ask hrequest hnext =>
    refine ⟨.waiting reply hnext, fun hcancelled entry hentry => ?_⟩
    rw [List.mem_singleton.1 hentry]
    refine hrequest.resolve_left ?_
    rw [hcancelled]
    exact Bool.false_ne_true
  | reply reply next =>
    cases ha with
    | waiting _ hnext => exact ⟨.ready (hnext reply), fun _ => nofun⟩
  | all htask =>
    cases ha.of_ready htask with
    | join hparts hnext =>
    refine ⟨.joined _ _ (fun slot hslot => ?_) nofun hnext, fun _ => nofun⟩
    obtain ⟨part, hpart, rfl⟩ := List.mem_map.1 hslot
    exact .ready (hparts part hpart)
  | window htask =>
    cases ha.of_ready htask with
    | join hparts hnext => exact ⟨.joined _ _ nofun hparts hnext, fun _ => nofun⟩
  | part hslot ih =>
    cases ha with
    | joined how results hslots hqueue hnext =>
    obtain ⟨hfront, hslot, hback⟩ :=
      (List.forall_mem_append.1 hslots).imp id List.forall_mem_cons.1
    obtain ⟨hslot, hlog⟩ := ih hslot
    exact ⟨.joined _ _ (List.forall_mem_append.2 ⟨hfront, List.forall_mem_cons.2 ⟨hslot, hback⟩⟩)
      hqueue hnext, hlog⟩
  | allFailed | windowFailed | broken => exact ⟨.settled _, fun _ => nofun⟩
  | allDone | windowDone =>
    cases ha with
    | joined how results hslots hqueue hnext => exact ⟨.ready (hnext _), fun _ => nofun⟩
  | release =>
    cases ha with
    | joined how results hslots hqueue hnext =>
    exact ⟨.joined _ _ (List.forall_mem_cons.1 hslots).2 hqueue hnext, fun _ => nofun⟩
  | enter =>
    cases ha with
    | joined how results hslots hqueue hnext =>
    obtain ⟨htask, hqueue⟩ := List.forall_mem_cons.1 hqueue
    refine ⟨.joined _ _ (List.forall_mem_append.2 ⟨hslots, ?_⟩) hqueue hnext, fun _ => nofun⟩
    exact List.forall_mem_singleton.2 (.ready htask)

/-! ### Plans -/

/-- Before each page there is a look. -/
theorem Compiled.guarded_readPages (c : Compiled) (x : External) (maxRows : Nat) (paging : Paging)
    (identifiers : Json.Fields) (rows : List Row) :
    (c.readPages x maxRows paging identifiers rows).Guarded free false := by
  rw [readPages]
  refine .look (.fail _ _) (.ask (.inl rfl) fun reply => ?_)
  dsimp only
  -- an error, a broken page, too many rows and four ends come before the next page
  split
  · exact .fail _ _
  split
  · exact .fail _ _
  next page _ =>
  split
  · exact .fail _ _
  split
  · exact .done _ _
  split
  · exact .done _ _
  split
  · exact .fail _ _
  split
  · exact .done _ _
  exact guarded_readPages c x maxRows paging _ _
termination_by maxRows + 1 - rows.length
decreasing_by
  have := paging.threshold_pos
  simp only [List.length_append] at *
  omega

/-- The query for rows may follow a look that others have done; pages have looks of their own. -/
theorem Compiled.guarded_fetch (c : Compiled) (config : Config) (x : External) :
    (c.fetch config x).Guarded free true := by
  rw [fetch]
  split
  · exact (c.guarded_readPages x _ _ _ _).looks
  · have hitems : (Exchange.items (ε := ExecutionError)
        (x.request c.query.toJson)).Guarded free true :=
      .ask (.inl rfl) fun reply => .done _ _
    refine hitems.bind fun items => ?_
    cases items with
    | error message => exact .fail _ _
    | ok items => exact .ofExcept _

theorem Compiled.guarded_finished (c : Compiled) (config : Config) (x : External) (scope : Scope) :
    (c.finished config x scope).Guarded free true := by
  refine (c.guarded_fetch config x).bind fun rows => ?_
  split
  · exact .fail _ _
  · exact .ofExcept _

theorem Row.guarded_attach (row : Row) {tasks : List (String × Task Dataset)}
    (h : ∀ entry ∈ tasks, entry.2.Guarded free false) : (row.attach tasks).Guarded free false := by
  induction tasks generalizing row with
  | nil => exact .done _ _
  | cons entry tasks ih =>
    obtain ⟨hentry, htasks⟩ := List.forall_mem_cons.1 h
    exact hentry.bind fun rows => ih _ htasks

/-- Patterns look before they ask. -/
theorem Pattern.guarded_run (config : Config) (p : Pattern) (scope : Scope) :
    (p.run config scope).Guarded free false := by
  rw [run]
  refine .look (.fail _ _) ?_
  rw [if_neg Bool.false_ne_true]
  split
  · exact .fail _ _
  next c _ =>
  refine (c.guarded_finished config p.source.external scope).andThen fun rows => ?_
  split
  · exact .done _ _
  split
  · exact .done _ _
  refine .join (fun part hpart => ?_) fun parts => .done _ _
  obtain ⟨row, -, rfl⟩ := List.mem_map.1 hpart
  refine row.guarded_attach fun entry hentry => ?_
  obtain ⟨⟨⟨name, nested⟩, hnested⟩, -, rfl⟩ := List.mem_map.1 hentry
  exact guarded_run config _ _
termination_by sizeOf p.applies
decreasing_by
  rw [forGroup_applies]
  exact sizeOf_applies_lt hnested

/-- **Plans look before they ask.** -/
theorem Plan.guarded_run (config : Config) (plan : Plan) :
    (plan.run config).Guarded free false := by
  cases plan with
  | value e =>
    rw [run]
    split
    · exact .fail _ _
    · exact .done _ _
  | dataset p => exact p.guarded_run config []
  | scalar p => exact p.guarded_run config []
  | pipeline seed steps =>
    refine .join (fun part hpart => ?_) fun answers => ?_
    · obtain ⟨p, -, rfl⟩ := List.mem_map.1 hpart
      exact p.guarded_run config _
    · split
      · exact .fail _ _
      · refine .join (fun part hpart => ?_) fun answers => .done _ _
        obtain ⟨p, -, rfl⟩ := List.mem_map.1 hpart
        exact p.2.guarded_run config _

/-- Introspection makes its requests whether the computation has been cancelled or not. -/
theorem Context.guarded_introspect (context : Context) (e : Expression) :
    (context.introspect e).Guarded
      (fun request => ∃ entry ∈ context.unknown e, entry.2.introspect.Asks request) false := by
  refine .join (fun part hpart => ?_) fun parts => .done _ _
  obtain ⟨entry, hentry, rfl⟩ := List.mem_map.1 hpart
  have hasks : entry.2.introspect.Guarded
      (fun request => ∃ entry ∈ context.unknown e, entry.2.introspect.Asks request) false :=
    .of_asks fun request hrequest => ⟨entry, hentry, hrequest⟩
  exact hasks.andThen fun x => .done _ _

/-! ### Worlds -/

namespace Simulation

variable {token : Option String} {w w' w'' : World}

/-- One world comes from another by requests. Those that are made after the token has been
cancelled are free. -/
inductive World.Heeds (token : Option String) (free : Request → Prop) : World → World → Prop
  | refl (w : World) : Heeds token free w w
  | ask {w w' : World} {request : Request} (hrequest : w.isCancelled token = true → free request)
      (hrest : Heeds token free (w.ask 0 request).2 w') : Heeds token free w w'

/-- **Steps of tasks that look.** -/
theorem World.heeds_of_runs {a b : Activity ρ} (h : World.Runs token a w b w')
    (ha : a.Guarded free) : b.Guarded free ∧ w.Heeds token free w' := by
  induction h with
  | refl a w => exact ⟨ha, .refl w⟩
  | quiet hstep _ ih => exact ih (ha.step hstep).1
  | ask hstep _ ih =>
    obtain ⟨hb, hlog⟩ := ha.step hstep
    obtain ⟨hc, hrest⟩ := ih hb
    exact ⟨hc, .ask (fun hcancelled => hlog hcancelled _ List.mem_cons_self) hrest⟩

/-- A token that has been cancelled stays cancelled. -/
theorem World.isCancelled_ask (h : w.isCancelled token = true) (now : Nat) (request : Request) :
    (w.ask now request).2.isCancelled token = true := by
  cases token with
  | none => exact nomatch h
  | some name =>
    exact List.elem_eq_true_of_mem (List.mem_append_right _ (List.mem_of_elem_eq_true h))

namespace World.Heeds

theorem trans (h : w.Heeds token free w') (h' : w'.Heeds token free w'') :
    w.Heeds token free w'' := by
  induction h with
  | refl => exact h'
  | ask hrequest _ ih => exact .ask hrequest (ih h')

/-- After a cancellation all requests are free. -/
theorem of_isCancelled (h : w.Heeds token free w') (hw : w.isCancelled token = true) :
    ∃ requests, w' = w.after requests ∧ ∀ request ∈ requests, free request := by
  induction h with
  | refl => exact ⟨[], rfl, nofun⟩
  | @ask w w' request hrequest _ ih =>
    obtain ⟨requests, hafter, hfree⟩ := ih (isCancelled_ask hw 0 request)
    exact ⟨request :: requests, hafter, List.forall_mem_cons.2 ⟨hrequest hw, hfree⟩⟩

/-- If the token is cancelled in the meantime, one of the requests cancels it. -/
theorem split (h : w.Heeds token free w') (hw : w.isCancelled token = false)
    (hw' : w'.isCancelled token = true) :
    ∃ requests request others, (w.after requests).isCancelled token = false ∧
      (w.after (requests ++ [request])).isCancelled token = true ∧
      w' = w.after (requests ++ request :: others) ∧ ∀ request ∈ others, free request := by
  induction h with
  | refl =>
    rw [hw] at hw'
    exact absurd hw' Bool.false_ne_true
  | @ask w w' request hrequest hrest ih =>
    cases hasked : (w.ask 0 request).2.isCancelled token with
    | true =>
      obtain ⟨others, hafter, hfree⟩ := hrest.of_isCancelled hasked
      exact ⟨[], request, others, hw, hasked, hafter, hfree⟩
    | false =>
      obtain ⟨requests, last, others, hbefore, hlast, hafter, hfree⟩ := ih hasked hw'
      exact ⟨request :: requests, last, others, hbefore, hlast, hafter, hfree⟩

end World.Heeds

/-! ### Polls -/

/-- The requests by which a job introspects its datasources. -/
def Job.Introspects (job : Job) (request : Request) : Prop :=
  ∃ entry ∈ job.context.unknown job.expression, entry.2.introspect.Asks request

namespace Stage

variable {job : Job}

/-- Whatever goes on in a stage looks before it asks, introspection apart. -/
def Guarded (job : Job) : Stage → Prop
  | .introspecting task => task.activity.Guarded job.Introspects
  | .running _ task => task.activity.Guarded job.Introspects
  | .settled _ => True

theorem guarded_ofRun (plan : Plan) {x : Running Dataset × World}
    (h : x.1.activity.Guarded job.Introspects) :
    (ofRun plan x).1.Guarded job ∧ (ofRun plan x).2 = x.2 := by
  obtain ⟨task, w⟩ := x
  cases task with
  | settled outcome => exact ⟨trivial, rfl⟩
  | waiting arrival next => exact ⟨h, rfl⟩
  | joined how results slots queue next => exact ⟨h, rfl⟩

theorem guarded_ofIntrospection (now : Nat) {x : Running Context × World}
    (h : x.1.activity.Guarded job.Introspects) :
    (ofIntrospection job now x).1.Guarded job ∧
      x.2.Heeds job.token job.Introspects (ofIntrospection job now x).2 := by
  obtain ⟨task, w⟩ := x
  cases task with
  | settled outcome =>
    cases outcome with
    | error error => exact ⟨trivial, .refl w⟩
    | ok known =>
      rw [ofIntrospection]
      cases job.expression.planWith job.context known with
      | error error => exact ⟨trivial, .refl w⟩
      | ok plan =>
        obtain ⟨hstarted, hheeds⟩ := World.heeds_of_runs
          (@Running.runs_start _ job.token now (plan.run job.config) w)
          (.ready (plan.guarded_run job.config))
        obtain ⟨hguarded, hworld⟩ := guarded_ofRun plan hstarted
        rw [← hworld] at hheeds
        exact ⟨hguarded, hheeds⟩
  | waiting arrival next => exact ⟨h, .refl w⟩
  | joined how results slots queue next => exact ⟨h, .refl w⟩

theorem guarded_initial (job : Job) (w : World) :
    (initial job w).1.Guarded job ∧ w.Heeds job.token job.Introspects (initial job w).2 := by
  obtain ⟨hstarted, hheeds⟩ := World.heeds_of_runs
    (@Running.runs_start _ job.token 0 (job.context.introspect job.expression) w)
    (.ready (job.context.guarded_introspect job.expression))
  obtain ⟨hguarded, hrest⟩ := guarded_ofIntrospection 0 hstarted
  exact ⟨hguarded, hheeds.trans hrest⟩

theorem guarded_resume (now : Nat) {stage : Stage} (h : stage.Guarded job) (w : World) :
    (stage.resume job now w).1.Guarded job ∧
      w.Heeds job.token job.Introspects (stage.resume job now w).2 := by
  cases stage with
  | introspecting task =>
    obtain ⟨hresumed, hheeds⟩ := World.heeds_of_runs (Running.runs_resume task w) h
    obtain ⟨hguarded, hrest⟩ := guarded_ofIntrospection now hresumed
    exact ⟨hguarded, hheeds.trans hrest⟩
  | running plan task =>
    obtain ⟨hresumed, hheeds⟩ := World.heeds_of_runs (Running.runs_resume task w) h
    obtain ⟨hguarded, hworld⟩ := guarded_ofRun plan hresumed
    rw [← hworld] at hheeds
    exact ⟨hguarded, hheeds⟩
  | settled outcome => exact ⟨trivial, .refl w⟩

end Stage

/-- The polls of a computation, each with the world before it, its time, and the stage and the
world after it. At the start of a poll the computation has not been cancelled. -/
inductive Job.Polls (job : Job) (w : World) : World → Nat → Stage → World → Prop
  | first (hcancelled : w.isCancelled job.token = false) :
      Polls job w w 0 (Stage.initial job w).1 (Stage.initial job w).2
  | next {before after : World} {now : Nat} {stage : Stage}
      (hpoll : Polls job w before now stage after) (hstage : ∀ outcome, stage ≠ .settled outcome)
      (hcancelled : after.isCancelled job.token = false) :
      Polls job w after (job.nextMoment now stage)
        (stage.resume job (job.nextMoment now stage) after).1
        (stage.resume job (job.nextMoment now stage) after).2

namespace Job.Polls

variable {job : Job} {before after : World} {now : Nat} {stage : Stage}

theorem isCancelled_before (h : job.Polls w before now stage after) :
    before.isCancelled job.token = false := by
  cases h with
  | first hcancelled => exact hcancelled
  | next _ _ hcancelled => exact hcancelled

/-- In a poll the requests after a cancellation are those of introspection. -/
theorem heeds (h : job.Polls w before now stage after) :
    stage.Guarded job ∧ before.Heeds job.token job.Introspects after := by
  induction h with
  | first => exact Stage.guarded_initial job w
  | next _ _ _ ih => exact Stage.guarded_resume _ ih.1 _

end Job.Polls

/-! ### The end of a computation -/

/-- How a computation ends whose token is cancelled. -/
inductive Job.Stopped (job : Job) (w : World) : Except ExecutionError Value × World → Prop
  /-- There is nothing to be computed. -/
  | malformed {what : Malformation} (hvalid : job.expression.validate = .error what) :
      Stopped job w (.error (.expression (.malformed what)), w)
  /-- The token has been cancelled beforehand. Nothing is asked. -/
  | beforehand (hcancelled : w.isCancelled job.token = true) : Stopped job w (.error .cancelled, w)
  /-- The token is cancelled from outside after a poll. Nothing is asked from then on. -/
  | between {before after : World} {now : Nat} {stage : Stage} {token : String}
      (hpoll : job.Polls w before now stage after) (htoken : job.token = some token)
      (hcancelled : after.isCancelled job.token = false) :
      Stopped job w (.error .cancelled, after.cancel token)
  /-- The token is cancelled by a request in a poll. From then on, in that poll, only
  introspection asks, and later nothing does. The computation ends as cancelled unless the poll
  settles it or its time is over. -/
  | during {before after last : World} {now : Nat} {stage : Stage}
      {outcome : Except ExecutionError Value} {requests others : List Request} {request : Request}
      (hpoll : job.Polls w before now stage after)
      (hbefore : (before.after requests).isCancelled job.token = false)
      (hcancelled : (before.after (requests ++ [request])).isCancelled job.token = true)
      (hafter : after = before.after (requests ++ request :: others))
      (hothers : ∀ request ∈ others, job.Introspects request)
      (hlast : last.requests = after.requests)
      (houtcome : outcome = .error .cancelled ∨ stage = .settled outcome ∨
        job.config.timeout ≤ now ∧ outcome = .error (.timeout job.config.timeout)) :
      Stopped job w (outcome, last)

namespace Job

variable {job : Job} {before after : World} {now : Nat} {stage : Stage}

/-- A computation whose token is cancelled by a request. -/
theorem Polls.stopped (hpoll : job.Polls w before now stage after)
    (hcancelled : after.isCancelled job.token = true) {outcome : Except ExecutionError Value}
    {last : World} (hlast : last.requests = after.requests)
    (houtcome : outcome = .error .cancelled ∨ stage = .settled outcome ∨
      job.config.timeout ≤ now ∧ outcome = .error (.timeout job.config.timeout)) :
    job.Stopped w (outcome, last) := by
  obtain ⟨requests, request, others, hbefore, hrequest, hafter, hothers⟩ :=
    hpoll.heeds.2.split hpoll.isCancelled_before hcancelled
  exact .during hpoll hbefore hrequest hafter hothers hlast houtcome

theorem cancelFromOutside_eq (job : Job) (now : Nat) (w : World) :
    job.cancelFromOutside now w = w ∨
      ∃ token, job.token = some token ∧ job.cancelFromOutside now w = w.cancel token := by
  rw [cancelFromOutside]
  split
  · next token htoken =>
    split
    · exact .inr ⟨token, htoken, rfl⟩
    · exact .inl rfl
  · exact .inl rfl

/-- As long as a computation is not found cancelled, nothing has happened from outside. -/
theorem cancelFromOutside_of_not_isCancelled
    (h : ¬(job.cancelFromOutside now w).isCancelled job.token = true) :
    job.cancelFromOutside now w = w := by
  obtain hsame | ⟨token, htoken, hcancel⟩ := job.cancelFromOutside_eq now w
  · exact hsame
  · refine absurd ?_ h
    rw [hcancel, htoken]
    exact List.elem_eq_true_of_mem List.mem_cons_self

/-- A computation that is found cancelled after a poll. -/
theorem Polls.stopped_cancelFromOutside (hpoll : job.Polls w before now stage after) {moment : Nat}
    (h : (job.cancelFromOutside moment after).isCancelled job.token = true) :
    job.Stopped w (.error .cancelled, job.cancelFromOutside moment after) := by
  obtain hsame | ⟨token, htoken, hcancel⟩ := job.cancelFromOutside_eq moment after
  · rw [hsame] at h ⊢
    exact hpoll.stopped h rfl (.inl rfl)
  · rw [hcancel]
    cases hafter : after.isCancelled job.token with
    | true => exact hpoll.stopped hafter rfl (.inl rfl)
    | false => exact .between hpoll htoken hafter

end Job

/-- A computation that waits ends when it is found cancelled. -/
theorem Stage.settle_of_isCancelled {job : Job} {now : Nat} {stage : Stage}
    (hstage : ∀ outcome, stage ≠ .settled outcome) (htime : now < job.config.timeout)
    (h : (job.cancelFromOutside now w).isCancelled job.token = true) :
    stage.settle job now w = (.error .cancelled, job.cancelFromOutside now w) := by
  rw [settle.eq_2 _ _ _ _ hstage, if_neg (Nat.not_le_of_gt htime)]
  exact if_pos h

/-- From one poll on, a computation whose token is cancelled in the end. -/
theorem Stage.settle_stopped {job : Job} {now : Nat} {stage : Stage} {after : World}
    (hpoll : ∃ before, job.Polls w before now stage after)
    (h : (stage.settle job now after).2.isCancelled job.token = true) :
    job.Stopped w (stage.settle job now after) := by
  fun_induction settle job now stage after with
  | case1 =>
    obtain ⟨before, hpoll⟩ := hpoll
    exact hpoll.stopped h rfl (.inr (.inl rfl))
  | case2 _ _ _ _ htimeout =>
    obtain ⟨before, hpoll⟩ := hpoll
    exact hpoll.stopped h rfl (.inr (.inr ⟨htimeout, rfl⟩))
  | case3 =>
    obtain ⟨before, hpoll⟩ := hpoll
    exact hpoll.stopped_cancelFromOutside h
  | case4 now after stage _ _ between hbetween moment _ later =>
    obtain ⟨before, hpoll⟩ := hpoll
    have hsame : between = after := Job.cancelFromOutside_of_not_isCancelled hbetween
    have hlater : later = job.cancelFromOutside moment after :=
      congrArg (job.cancelFromOutside moment) hsame
    rw [hlater] at h ⊢
    exact hpoll.stopped_cancelFromOutside h
  | case5 now after stage hstage _ between hbetween moment _ later hlater next last hnext ih =>
    obtain ⟨before, hpoll⟩ := hpoll
    have hsame : between = after := Job.cancelFromOutside_of_not_isCancelled hbetween
    have hsame' : later = after := (Job.cancelFromOutside_of_not_isCancelled hlater).trans hsame
    have hcancelled := Bool.eq_false_of_not_eq_true hlater
    rw [hsame'] at hcancelled hnext
    have hpoll' := hpoll.next hstage hcancelled
    rw [show stage.resume job (job.nextMoment now stage) after = _ from hnext] at hpoll'
    exact ih ⟨after, hpoll'⟩ h
  | case6 _ _ _ _ _ _ hnow => exact absurd h hnow

end Simulation

/-! ### Cancelled edits -/

namespace Sample

open Simulation

/-- A world in which every request has an empty answer and cancels the computation. -/
def stoppingWorld (delay : Delay) : World :=
  ⟨[("wiki", ⟨[⟨.object [], ⟨[.ok (.array [])], delay, some "stop"⟩, none⟩], [], none⟩)], [], []⟩

/-- The job of the groups of edits by page, which can be cancelled. -/
def pagesJob (x : External) : Job :=
  ⟨editsBy "page", [("edits", x)], .standard, some "stop", none⟩

theorem pagesJob_plan : Plan.ofExpression (pagesJob edits).context (pagesJob edits).expression =
    .ok (.dataset (patternBy "page" [])) := by
  change ((Bindings.ofContext [("edits", edits)]).pattern (editsBy "page")).map _ = _
  rw [pattern_editsBy]
  rfl

/-- The computation of the groups of known edits. -/
theorem compute_pagesJob {w : World} (hw : w.isCancelled (some "stop") = false) :
    w.compute (pagesJob edits) =
      let stage := Stage.ofRun (.dataset (patternBy "page" []))
        (Running.start (some "stop") 0 ((patternBy "page" []).run .standard []) w)
      stage.1.settle (pagesJob edits) 0 stage.2 := by
  have hcompute : w.compute (pagesJob edits) = _ := World.compute_of_known rfl hw rfl
  rw [pagesJob_plan] at hcompute
  exact hcompute

/-- The computation has been cancelled when it starts to wait for its only reply. -/
theorem compute_pages_later : ∃ w, (stoppingWorld (.after 10)).compute (pagesJob edits) =
    (.error .cancelled, w) ∧ w.isCancelled (some "stop") = true := by
  have hstart : ∃ arrival next w, Running.start (some "stop") 0
      ((patternBy "page" []).run .standard []) (stoppingWorld (.after 10)) =
        (.waiting arrival next, w) ∧ w.isCancelled (some "stop") = true := by
    rw [Pattern.run]
    exact ⟨_, _, _, rfl, rfl⟩
  obtain ⟨arrival, next, w, hstart, hcancelled⟩ := hstart
  refine ⟨w, ?_, hcancelled⟩
  rw [compute_pagesJob rfl, hstart]
  have hwaits (outcome : Except ExecutionError Value) :
      Stage.running (.dataset (patternBy "page" [])) (.waiting arrival next) ≠
        .settled outcome := by
    rintro ⟨⟩
  exact Stage.settle_of_isCancelled hwaits (show 0 < 30000 by omega) hcancelled

/-- The only reply comes at once. -/
theorem compute_pages_now : ∃ w, (stoppingWorld (.after 0)).compute (pagesJob edits) =
    (.ok (.dataset []), w) ∧ w.isCancelled (some "stop") = true := by
  have hstart : ∃ w, Running.start (some "stop") 0
      ((patternBy "page" []).run .standard []) (stoppingWorld (.after 0)) =
        (.settled (.ok []), w) ∧ w.isCancelled (some "stop") = true := by
    rw [Pattern.run]
    exact ⟨_, rfl, rfl⟩
  obtain ⟨w, hstart, hcancelled⟩ := hstart
  refine ⟨w, ?_, hcancelled⟩
  rw [compute_pagesJob rfl, hstart]
  exact Stage.settle_ofRun_settled _ _ 0

/-- The version and the columns are asked for, though the first of the two requests cancels the
computation. -/
theorem requests_pages_now :
    ((stoppingWorld (.after 0)).compute (pagesJob unknownEdits)).2.requests =
      [unknownEdits.request External.statusQuery,
        unknownEdits.request ((Attempt.segmentMetadata true).query "edits")] := by
  have hintrospect : unknownEdits.introspect = unknownEdits.learnVersion.bind fun version =>
      (unknownEdits.learnColumns (.segmentMetadata true)).bind fun columns =>
        .done (unknownEdits.introspected columns version) := rfl
  have hstart : ∃ w, Running.start (some "stop") 0
      ((pagesJob unknownEdits).context.introspect (pagesJob unknownEdits).expression)
      (stoppingWorld (.after 0)) =
        (.settled (.error (.external (.invalidResponse .noSegments))), w) ∧
      w.requests = [unknownEdits.request External.statusQuery,
        unknownEdits.request ((Attempt.segmentMetadata true).query "edits")] := by
    change ∃ w, Running.start (some "stop") 0
      (Task.together [unknownEdits.introspect.andThen _ _] _) _ = _ ∧ _
    rw [hintrospect, External.learnColumns_eq]
    exact ⟨_, rfl, rfl⟩
  obtain ⟨w, hstart, hrequests⟩ := hstart
  have hadmit : Expression.admit (pagesJob unknownEdits).expression
      ((stoppingWorld (.after 0)).isCancelled (pagesJob unknownEdits).token) = .ok () := rfl
  rw [World.compute, hadmit]
  simp only [Stage.initial]
  rw [show Running.start (pagesJob unknownEdits).token 0 _ _ = _ from hstart, Stage.ofIntrospection,
    Stage.settle]
  exact hrequests

end Sample

namespace Simulation

variable {w : World}

/-- **Computations whose token is cancelled.** Take any job in any world, and suppose that its token
has been cancelled by the time the computation has settled. Then there is nothing to be computed; or
the token was cancelled beforehand, and nothing is asked; or it is cancelled from outside while the
computation waits, which then ends as cancelled and asks nothing more; or a request cancels it. In
that last case only introspection may still ask before the poll ends, nothing is asked in later
polls, and the computation ends as cancelled unless this poll settles it or its time is over. -/
theorem World.compute_cancelled {job : Job}
    (h : (w.compute job).2.isCancelled job.token = true) : job.Stopped w (w.compute job) := by
  rw [compute, Expression.admit] at h ⊢
  cases hvalid : job.expression.validate with
  | error what => exact .malformed hvalid
  | ok =>
    rw [hvalid] at h
    cases hcancelled : w.isCancelled job.token with
    | true => exact .beforehand hcancelled
    | false =>
      rw [hcancelled] at h
      exact Stage.settle_stopped ⟨w, .first hcancelled⟩ h

open Sample in
/-- The groups of edits have been cancelled when they start to wait for the reply. -/
theorem World.compute_cancelled_pages :
    ((stoppingWorld (.after 10)).compute (pagesJob edits)).2.isCancelled (pagesJob edits).token =
        true ∧
      (pagesJob edits).Stopped (stoppingWorld (.after 10))
        ((stoppingWorld (.after 10)).compute (pagesJob edits)) ∧
      ((stoppingWorld (.after 10)).compute (pagesJob edits)).1 = .error .cancelled := by
  obtain ⟨w, hcompute, hcancelled⟩ := compute_pages_later
  have hlast : ((stoppingWorld (.after 10)).compute (pagesJob edits)).2.isCancelled
      (pagesJob edits).token = true := by
    rw [hcompute]
    exact hcancelled
  exact ⟨hlast, World.compute_cancelled hlast, congrArg Prod.fst hcompute⟩

open Sample in
/-- If replies come at once, the groups of edits come out although the request for them cancels the
computation, and the columns are asked for although the request for the version does. -/
theorem World.compute_pages_at_once :
    (pagesJob edits).expression.validate = .ok () ∧
      (stoppingWorld (.after 0)).isCancelled (some "stop") = false ∧
      (∃ w, (stoppingWorld (.after 0)).compute (pagesJob edits) = (.ok (.dataset []), w) ∧
        w.isCancelled (some "stop") = true) ∧
      ((stoppingWorld (.after 0)).after [unknownEdits.request External.statusQuery]).isCancelled
        (some "stop") = true ∧
      ((stoppingWorld (.after 0)).compute (pagesJob unknownEdits)).2.requests =
        [unknownEdits.request External.statusQuery,
          unknownEdits.request ((Attempt.segmentMetadata true).query "edits")] :=
  ⟨rfl, rfl, compute_pages_now, rfl, requests_pages_now⟩

end Simulation

end FederatedQuery
