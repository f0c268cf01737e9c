import FederatedQuery.Proofs.Nesting
import FederatedQuery.Proofs.Stages

/-!
# What tasks ask and what they give

A statement on the results of a task usually rests on one on the replies that it gets, and comes
with one on the requests that it makes. Here such statements are carried through a task along its
tree, then through all steps in which it is carried out, in any order and with any replies that are
allowed, and from there through the stages of a whole computation.

## Main definitions

* `Exchange.Returns`: the results that an exchange may have.
* `Task.Gives`, `Activity.Gives`: what is asked and given as long as the replies are allowed.
* `Job.Gives`: what the two stages of a computation ask and give.

## Main results

* `Activity.Gives.of_runs`: steps in any order.
* `World.compute_gives`: whole computations.
-/

namespace FederatedQuery

variable {ρ : Type} {asks : Request → Prop} {ok : Reply → Prop}

/-! ### Exchanges -/

namespace Exchange

variable {ε α β : Type}

/-- The results that an exchange may have if the replies are allowed. -/
inductive Returns (ok : Reply → Prop) : Exchange ε α → α → Prop
  | done (result : α) : Returns ok (.done result) result
  | ask {request : Request} {next : Reply → Exchange ε α} {reply : Reply} {result : α}
      (hreply : ok reply) (hnext : Returns ok (next reply) result) :
      Returns ok (.ask request next) result
  | look {next : Bool → Exchange ε α} {result : α} (cancelled : Bool)
      (hnext : Returns ok (next cancelled) result) : Returns ok (.look next) result

/-- What an exchange asks and gives as long as the replies are allowed. -/
inductive Gives (asks : Request → Prop) (ok : Reply → Prop) (P : α → Prop) : Exchange ε α → Prop
  | done {result : α} (h : P result) : Gives asks ok P (.done result)
  | fail (error : ε) : Gives asks ok P (.fail error)
  | ask {request : Request} {next : Reply → Exchange ε α} (hrequest : asks request)
      (hnext : ∀ reply, ok reply → Gives asks ok P (next reply)) :
      Gives asks ok P (.ask request next)
  | look {next : Bool → Exchange ε α} (hnext : ∀ cancelled, Gives asks ok P (next cancelled)) :
      Gives asks ok P (.look next)

variable {x : Exchange ε α} {P : α → Prop}

namespace Gives

theorem of_returns (h : x.Gives asks ok P) {result : α} (hresult : x.Returns ok result) :
    P result := by
  induction hresult with
  | done =>
    cases h with
    | done h => exact h
  | ask hreply _ ih =>
    cases h with
    | ask _ hnext => exact ih (hnext _ hreply)
  | look cancelled _ ih =>
    cases h with
    | look hnext => exact ih (hnext cancelled)

theorem mono (h : x.Gives asks ok P) {asks' : Request → Prop} {Q : α → Prop}
    (hasks : ∀ request, asks request → asks' request) (hgives : ∀ result, P result → Q result) :
    x.Gives asks' ok Q := by
  induction h with
  | done h => exact .done (hgives _ h)
  | fail error => exact .fail error
  | ask hrequest _ ih => exact .ask (hasks _ hrequest) ih
  | look _ ih => exact .look ih

theorem bind (h : x.Gives asks ok P) {Q : β → Prop} {f : α → Exchange ε β}
    (hf : ∀ result, P result → (f result).Gives asks ok Q) : (x >>= f).Gives asks ok Q := by
  induction h with
  | done h => exact hf _ h
  | fail error => exact .fail error
  | ask hrequest _ ih => exact .ask hrequest ih
  | look _ ih => exact .look ih

theorem ofExcept {result : Except ε α} (h : ∀ a, result = .ok a → P a) :
    (Exchange.ofExcept result).Gives asks ok P := by
  cases result with
  | ok a => exact .done (h a rfl)
  | error error => exact .fail error

/-- A request, and what depends on the items of the reply. -/
theorem items {request : Request} {f : Except String (List Json) → Exchange ε α}
    (hrequest : asks request) (h : ∀ reply, ok reply → (f reply.items).Gives asks ok P) :
    (Exchange.items request >>= f).Gives asks ok P :=
  .ask hrequest h

/-- An exchange gives whatever it may return, if it asks what it may ask. -/
theorem of_asks (hasks : ∀ request, x.Asks request → asks request)
    (h : ∀ result, x.Returns ok result → P result) : x.Gives asks ok P := by
  induction x with
  | done result => exact .done (h result (.done result))
  | fail error => exact .fail error
  | ask request next ih =>
    exact .ask (hasks request (.here next)) fun reply hreply =>
      ih reply (fun other hother => hasks other (.later reply hother))
        fun result hresult => h result (.ask hreply hresult)
  | look next ih =>
    exact .look fun cancelled => ih cancelled
      (fun other hother => hasks other (.look cancelled hother))
      fun result hresult => h result (.look cancelled hresult)

end Gives

end Exchange

/-! ### Tasks -/

/-- What a task asks and gives as long as the replies are allowed. -/
inductive Task.Gives (asks : Request → Prop) (ok : Reply → Prop) (P : ρ → Prop) : Task ρ → Prop
  | done {result : ρ} (h : P result) : Gives asks ok P (.done result)
  | fail (error : ExecutionError) : Gives asks ok P (.fail error)
  | ask {request : Request} {next : Reply → Task ρ} (hrequest : asks request)
      (hnext : ∀ reply, ok reply → Gives asks ok P (next reply)) :
      Gives asks ok P (.ask request next)
  | look {next : Bool → Task ρ} (hnext : ∀ cancelled, Gives asks ok P (next cancelled)) :
      Gives asks ok P (.look next)
  | join {how : Join} {parts : List (Task ρ)} {next : List ρ → Task ρ}
      (hparts : ∀ part ∈ parts, Gives asks ok P part)
      (hnext : ∀ results, (∀ result ∈ results, P result) → Gives asks ok P (next results)) :
      Gives asks ok P (.join how parts next)

variable {P Q : ρ → Prop}

mutual

/-- A task asks what it may ask. -/
theorem Task.Gives.of_asks : (task : Task ρ) → (∀ request, task.Asks request → asks request) →
    task.Gives asks ok fun _ => True
  | .done _, _ => .done trivial
  | .fail error, _ => .fail error
  | .ask _ next, h =>
    .ask (h _ (.here next)) fun reply _ =>
      of_asks (next reply) fun _ hrequest => h _ (.later reply hrequest)
  | .look next, h =>
    .look fun cancelled =>
      of_asks (next cancelled) fun _ hrequest => h _ (.look cancelled hrequest)
  | .join _ parts next, h =>
    .join (of_asks_parts parts fun _ hpart _ hrequest => h _ (.part hpart hrequest))
      fun results _ => of_asks (next results) fun _ hrequest => h _ (.rest results hrequest)

/-- Tasks ask what they may ask. -/
theorem Task.Gives.of_asks_parts : (parts : List (Task ρ)) →
    (∀ part ∈ parts, ∀ request, part.Asks request → asks request) →
      ∀ part ∈ parts, part.Gives asks ok fun _ => True
  | [], _ => List.forall_mem_nil _
  | first :: rest, h =>
    have ⟨hfirst, hrest⟩ := List.forall_mem_cons.1 h
    List.forall_mem_cons.2 ⟨of_asks first hfirst, of_asks_parts rest hrest⟩

end

theorem Task.Gives.bind {task : Task ρ} (h : task.Gives asks ok P) {next : ρ → Task ρ}
    (hnext : ∀ result, P result → (next result).Gives asks ok P) :
    (task.bind next).Gives asks ok P := by
  induction h with
  | done h => exact hnext _ h
  | fail error => exact .fail error
  | ask hrequest _ ih => exact .ask hrequest ih
  | look _ ih => exact .look ih
  | join hparts _ _ ih => exact .join hparts ih

theorem Exchange.Gives.andThen {ε α : Type} {x : Exchange ε α} {R : α → Prop}
    (h : x.Gives asks ok R) {failure : ε → ExecutionError} {next : α → Task ρ}
    (hnext : ∀ result, R result → (next result).Gives asks ok P) :
    (x.andThen failure next).Gives asks ok P := by
  induction h with
  | done h => exact hnext _ h
  | fail error => exact .fail _
  | ask hrequest _ ih => exact .ask hrequest ih
  | look _ ih => exact .look ih

/-- What a task begins with after a look asks and gives the same. -/
theorem Task.Gives.heed (cancelled : Bool) : (task : Task ρ) → task.Gives asks ok P →
    (task.heed cancelled).Gives asks ok P
  | .look next, .look hnext => heed cancelled (next cancelled) (hnext cancelled)
  | .done _, h | .fail _, h | .ask _ _, h | .join _ _ _, h => h

/-! ### Steps -/

/-- What goes on asks and gives the same as a task. -/
inductive Activity.Gives (asks : Request → Prop) (ok : Reply → Prop) (P : ρ → Prop) :
    Activity ρ → Prop
  | settled {outcome : Except ExecutionError ρ} (h : ∀ result, outcome = .ok result → P result) :
      Gives asks ok P (.settled outcome)
  | ready {task : Task ρ} (h : task.Gives asks ok P) : Gives asks ok P (.ready task)
  | waiting {reply : Reply} {next : Reply → Task ρ} (hnext : (next reply).Gives asks ok P) :
      Gives asks ok P (.waiting reply next)
  | joined {results : List ρ} {slots : List (Activity ρ)} {queue : List (Task ρ)}
      {next : List ρ → Task ρ} (how : Join) (hresults : ∀ result ∈ results, P result)
      (hslots : ∀ slot ∈ slots, Gives asks ok P slot)
      (hqueue : ∀ task ∈ queue, task.Gives asks ok P)
      (hnext : ∀ results, (∀ result ∈ results, P result) → (next results).Gives asks ok P) :
      Gives asks ok P (.joined how results slots queue next)

namespace Activity.Gives

variable {a b : Activity ρ} {log : Log}

/-- Nothing has come of what has failed. -/
theorem settled_error (error : ExecutionError) :
    Gives asks ok P (.settled (.error error) : Activity ρ) := .settled fun _ h => by cases h

theorem of_settled_ok {result : ρ} (h : Gives asks ok P (.settled (.ok result))) : P result := by
  cases h with
  | settled h => exact h result rfl

/-- What a task that is ready begins with asks and gives the same. -/
theorem of_ready {cancelled : Bool} {task task' : Task ρ} (h : Gives asks ok P (.ready task))
    (htask : task.heed cancelled = task') : task'.Gives asks ok P := by
  cases h with
  | ready h => exact htask ▸ h.heed cancelled

/-- A step asks what a task may ask, and what goes on after it gives the same as before if the
reply is allowed. -/
theorem step {cancelled : Bool} (h : Step cancelled a log b) (ha : a.Gives asks ok P)
    (hok : ∀ entry ∈ log, ok entry.2) :
    b.Gives asks ok P ∧ ∀ entry ∈ log, asks entry.1 := by
  have hnone : ∀ entry ∈ ([] : Log), asks entry.1 := List.forall_mem_nil _
  induction h with
  | done htask =>
    cases ha.of_ready htask with
    | done h => exact ⟨.settled fun _ heq => Except.ok.inj heq ▸ h, hnone⟩
  | fail => exact ⟨settled_error _, hnone⟩
  | ask htask reply =>
    cases ha.of_ready htask with
    | ask hrequest hnext =>
    exact ⟨.waiting (hnext reply (hok _ List.mem_cons_self)),
      fun entry hentry => List.mem_singleton.1 hentry ▸ hrequest⟩
  | reply reply next =>
    cases ha with
    | waiting hnext => exact ⟨.ready hnext, hnone⟩
  | all htask =>
    cases ha.of_ready htask with
    | join hparts hnext =>
    refine ⟨.joined _ (List.forall_mem_nil _) (fun slot hslot => ?_) (List.forall_mem_nil _) hnext,
      hnone⟩
    obtain ⟨part, hpart, rfl⟩ := List.mem_map.1 hslot
    exact .ready (hparts part hpart)
  | window htask =>
    cases ha.of_ready htask with
    | join hparts hnext =>
      exact ⟨.joined _ (List.forall_mem_nil _) (List.forall_mem_nil _) hparts hnext, hnone⟩
  | part hslot ih =>
    cases ha with
    | joined how hresults hslots hqueue hnext =>
    obtain ⟨hfront, hslot, hback⟩ :=
      (List.forall_mem_append.1 hslots).imp id List.forall_mem_cons.1
    obtain ⟨hslot, hlog⟩ := ih hslot hok
    exact ⟨.joined _ hresults
      (List.forall_mem_append.2 ⟨hfront, List.forall_mem_cons.2 ⟨hslot, hback⟩⟩) hqueue hnext, hlog⟩
  | allFailed | windowFailed | broken => exact ⟨settled_error _, hnone⟩
  | allDone =>
    cases ha with
    | joined how hresults hslots hqueue hnext =>
    refine ⟨.ready (hnext _ fun result hresult => ?_), hnone⟩
    exact (hslots _ (List.mem_map_of_mem hresult)).of_settled_ok
  | windowDone =>
    cases ha with
    | joined how hresults hslots hqueue hnext => exact ⟨.ready (hnext _ hresults), hnone⟩
  | release =>
    cases ha with
    | joined how hresults hslots hqueue hnext =>
    obtain ⟨hfirst, hslots⟩ := List.forall_mem_cons.1 hslots
    refine ⟨.joined _ (List.forall_mem_append.2 ⟨hresults, ?_⟩) hslots hqueue hnext, hnone⟩
    exact List.forall_mem_singleton.2 hfirst.of_settled_ok
  | enter =>
    cases ha with
    | joined how hresults hslots hqueue hnext =>
    obtain ⟨htask, hqueue⟩ := List.forall_mem_cons.1 hqueue
    refine ⟨.joined _ hresults (List.forall_mem_append.2 ⟨hslots, ?_⟩) hqueue hnext, hnone⟩
    exact List.forall_mem_singleton.2 (.ready htask)

/-- **Steps in any order.** -/
theorem of_runs {cancellable : Bool} (h : Runs cancellable a log b) (ha : a.Gives asks ok P)
    (hok : ∀ entry ∈ log, ok entry.2) : b.Gives asks ok P ∧ ∀ entry ∈ log, asks entry.1 := by
  induction h with
  | refl a => exact ⟨ha, nofun⟩
  | step _ hstep _ ih =>
    obtain ⟨hfirst, hrest⟩ := List.forall_mem_append.1 hok
    obtain ⟨hb, hasked⟩ := ha.step hstep hfirst
    obtain ⟨hc, hothers⟩ := ih hb hrest
    exact ⟨hc, List.forall_mem_append.2 ⟨hasked, hothers⟩⟩

end Activity.Gives

/-! ### Computations -/

namespace Simulation

variable {W : World → Prop} {w w' : World} {job : Job} {V : Value → Prop}

/-- One world comes from another by such requests. -/
def World.Asked (asks : Request → Prop) (w w' : World) : Prop :=
  ∃ requests, w'.requests = w.requests ++ requests ∧ ∀ request ∈ requests, asks request

/-- What a plan that goes on asks, and what values it gives. -/
def PlanGives (asks : Request → Prop) (ok : Reply → Prop) (V : Value → Prop) (plan : Plan)
    (a : Activity Dataset) : Prop :=
  ∃ R : Dataset → Prop, a.Gives asks ok R ∧ ∀ rows, R rows → V (plan.result rows)

/-- What the two stages of a computation ask, and what values they give. -/
def Job.Gives (asks : Request → Prop) (ok : Reply → Prop) (V : Value → Prop) (job : Job) : Prop :=
  ∃ C : Context → Prop, (job.context.introspect job.expression).Gives asks ok C ∧
    ∀ known, C known → ∀ plan, job.expression.planWith job.context known = .ok plan →
      PlanGives asks ok V plan (.ready (plan.run job.config))

/-- What has been asked and given when a stage is reached. -/
theorem Stage.Reached.gives {log : Log} {stage : Stage} (h : stage.Reached job log)
    (hgives : job.Gives asks ok V) (hok : ∀ entry ∈ log, ok entry.2) :
    (∀ entry ∈ log, asks entry.1) ∧ ∀ v, stage = .settled (.ok v) → V v := by
  obtain ⟨C, hintrospect, hplan⟩ := hgives
  have hfirst {log : Log} {a : Activity Context} (h : job.IntrospectsTo log a)
      (hok : ∀ entry ∈ log, ok entry.2) := Activity.Gives.of_runs h (.ready hintrospect) hok
  have hsecond {log rest : Log} {known : Context} {plan : Plan} {a : Activity Dataset}
      (hknown : job.IntrospectsTo log (.settled (.ok known)))
      (hfound : job.expression.planWith job.context known = .ok plan)
      (h : Activity.Runs true (.ready (plan.run job.config)) rest a)
      (hok : ∀ entry ∈ log ++ rest, ok entry.2) :
      (∀ entry ∈ log ++ rest, asks entry.1) ∧ PlanGives asks ok V plan a := by
    obtain ⟨hbefore, hafter⟩ := List.forall_mem_append.1 hok
    obtain ⟨hgiven, hasked⟩ := hfirst hknown hbefore
    obtain ⟨R, hrun, hvalue⟩ := hplan known hgiven.of_settled_ok plan hfound
    obtain ⟨hgives, hothers⟩ := Activity.Gives.of_runs h hrun hafter
    exact ⟨List.forall_mem_append.2 ⟨hasked, hothers⟩, R, hgives, hvalue⟩
  cases h with
  | introspecting h => exact ⟨(hfirst h hok).2, nofun⟩
  | unknown h => exact ⟨(hfirst h hok).2, nofun⟩
  | unplanned hknown => exact ⟨(hfirst hknown hok).2, nofun⟩
  | running hknown hfound h => exact ⟨(hsecond hknown hfound h hok).1, nofun⟩
  | @carriedOut _ _ _ _ outcome hknown hfound h =>
    obtain ⟨hasked, R, hgives, hvalue⟩ := hsecond hknown hfound h hok
    refine ⟨hasked, fun v hv => ?_⟩
    cases outcome with
    | error error => exact nomatch hv
    | ok rows =>
      cases hv
      exact hvalue rows hgives.of_settled_ok

/-- **Whole computations.** What their stages ask and give, computations ask and give. -/
theorem World.compute_gives (hkept : World.IsKept W)
    (hreply : ∀ w, W w → ∀ request, ok (w.ask 0 request).1.reply) (h : job.Gives asks ok V)
    (hw : W w) :
    (∀ v, (w.compute job).1 = .ok v → V v) ∧ w.Asked asks (w.compute job).2 := by
  obtain ⟨log, hsettles, hlogged⟩ := World.compute_settles hkept hreply job hw
  have hall {stage : Stage} (hreached : stage.Reached job log) :=
    hreached.gives h hlogged.allowed
  have hasked (hasks : ∀ entry ∈ log, asks entry.1) : w.Asked asks (w.compute job).2 :=
    ⟨_, hlogged.requests, List.forall_mem_map.2 hasks⟩
  generalize (w.compute job).1 = outcome at hsettles
  cases hsettles with
  | refused => exact ⟨nofun, hasked nofun⟩
  | cancelled hreached | timeout hreached => exact ⟨nofun, hasked (hall hreached).1⟩
  | settled hreached =>
    exact ⟨fun v hv => (hall hreached).2 v (congrArg _ hv), hasked (hall hreached).1⟩

end Simulation

end FederatedQuery
