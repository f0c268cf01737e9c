import FederatedQuery.Proofs.Keeping
import FederatedQuery.Proofs.Parts

/-!
# Stages of a computation

A computation goes through two stages, in each of which a task is carried out: introspection, and
then the plan. Time passes in between and the token may be cancelled, but what the tasks do are
their own steps, with the replies of the world. So each stage that a computation comes to is reached
by steps of its tasks, in the order in which replies come, and the computation settles with what
comes out of them, unless it is refused, cancelled or out of time.

## Main definitions

* `World.Logged`: the world after the requests of a log, with replies that are allowed.
* `Stage.Reached`: how far steps of the tasks have brought a computation.
* `Job.Settles`: what a computation settles with.

## Main results

* `World.compute_settles`: whole computations.
-/

namespace FederatedQuery.Simulation

variable {W : World → Prop} {ok : Reply → Prop} {w w' : World} {job : Job} {log : Log}

/-! ### Requests and their replies -/

/-- One world comes from another by the requests of a log, all replies to which are allowed. -/
structure World.Logged (ok : Reply → Prop) (w : World) (log : Log) (w' : World) : Prop where
  requests : w'.requests = w.requests ++ log.map Prod.fst
  allowed : ∀ entry ∈ log, ok entry.2

namespace World.Logged

theorem refl (ok : Reply → Prop) (w : World) : w.Logged ok [] w :=
  ⟨(List.append_nil _).symm, nofun⟩

theorem trans {rest : Log} {w'' : World} (h : w.Logged ok log w') (h' : w'.Logged ok rest w'') :
    w.Logged ok (log ++ rest) w'' where
  requests := by rw [h'.requests, h.requests, List.map_append, List.append_assoc]
  allowed := List.forall_mem_append.2 ⟨h.allowed, h'.allowed⟩

/-- A cancellation from outside asks nothing. -/
theorem cancelFromOutside (h : w.Logged ok log w') (now : Nat) :
    w.Logged ok log (job.cancelFromOutside now w') where
  requests := by
    rw [← h.requests, Job.cancelFromOutside]
    split
    · split <;> rfl
    · rfl
  allowed := h.allowed

end World.Logged

/-- Steps in a world whose replies are allowed. -/
theorem World.Runs.logged {ρ : Type} {token : Option String} (hkept : World.IsKept W)
    (hreply : ∀ w, W w → ∀ request, ok (w.ask 0 request).1.reply) {a b : Activity ρ}
    (h : World.Runs token a w b w') (hw : W w) :
    W w' ∧ ∃ log, a.Runs true log b ∧ w.Logged ok log w' := by
  induction h with
  | refl a w => exact ⟨hw, [], .refl a, .refl ok w⟩
  | quiet hstep _ ih =>
    obtain ⟨hw', log, hruns, hlogged⟩ := ih hw
    exact ⟨hw', log, .step (fun _ => rfl) hstep hruns, hlogged⟩
  | @ask _ _ _ w _ request hstep _ ih =>
    obtain ⟨hw', log, hruns, hlogged⟩ := ih (hkept.ask w 0 request hw)
    refine ⟨hw', _, .step (fun _ => rfl) hstep hruns, World.Logged.trans ⟨rfl, ?_⟩ hlogged⟩
    exact List.forall_mem_singleton.2 (hreply w hw request)

/-! ### Stages -/

/-- The steps of introspection come this far, with such requests. -/
abbrev Job.IntrospectsTo (job : Job) (log : Log) (a : Activity Context) : Prop :=
  Activity.Runs true (.ready (job.context.introspect job.expression)) log a

/-- The stages that steps of the tasks of a computation lead to, with the requests that are made in
them. -/
inductive Stage.Reached (job : Job) : Log → Stage → Prop
  | introspecting {log : Log} {task : Running Context} (h : job.IntrospectsTo log task.activity) :
      Reached job log (.introspecting task)
  | unknown {log : Log} {error : ExecutionError}
      (h : job.IntrospectsTo log (.settled (.error error))) :
      Reached job log (.settled (.error error))
  | unplanned {log : Log} {known : Context} {error : ExecutionError}
      (hknown : job.IntrospectsTo log (.settled (.ok known)))
      (h : job.expression.planWith job.context known = .error error) :
      Reached job log (.settled (.error error))
  | running {log rest : Log} {known : Context} {plan : Plan} {task : Running Dataset}
      (hknown : job.IntrospectsTo log (.settled (.ok known)))
      (hplan : job.expression.planWith job.context known = .ok plan)
      (h : Activity.Runs true (.ready (plan.run job.config)) rest task.activity) :
      Reached job (log ++ rest) (.running plan task)
  | carriedOut {log rest : Log} {known : Context} {plan : Plan}
      {outcome : Except ExecutionError Dataset}
      (hknown : job.IntrospectsTo log (.settled (.ok known)))
      (hplan : job.expression.planWith job.context known = .ok plan)
      (h : Activity.Runs true (.ready (plan.run job.config)) rest (.settled outcome)) :
      Reached job (log ++ rest) (.settled (outcome.map fun rows => plan.result rows))

/-- What a computation settles with: it is refused, cancelled or out of time, or it has reached what
comes out of its tasks. -/
inductive Job.Settles (job : Job) : Log → Except ExecutionError Value → Prop
  | refused {cancelled : Bool} {error : ExecutionError}
      (h : job.expression.admit cancelled = .error error) : Settles job [] (.error error)
  | cancelled {log : Log} {stage : Stage} (h : stage.Reached job log) :
      Settles job log (.error .cancelled)
  | timeout {log : Log} {stage : Stage} (h : stage.Reached job log) :
      Settles job log (.error (.timeout job.config.timeout))
  | settled {log : Log} {outcome : Except ExecutionError Value}
      (h : (Stage.settled outcome).Reached job log) : Settles job log outcome

namespace Stage

theorem reached_ofRun {rest : Log} {known : Context} {plan : Plan} {x : Running Dataset × World}
    (hknown : job.IntrospectsTo log (.settled (.ok known)))
    (hplan : job.expression.planWith job.context known = .ok plan)
    (h : Activity.Runs true (.ready (plan.run job.config)) rest x.1.activity) :
    (ofRun plan x).1.Reached job (log ++ rest) ∧ (ofRun plan x).2 = x.2 := by
  obtain ⟨task, w⟩ := x
  cases task with
  | settled outcome => exact ⟨.carriedOut hknown hplan h, rfl⟩
  | waiting | joined => exact ⟨.running hknown hplan h, rfl⟩

section

variable (hkept : World.IsKept W) (hreply : ∀ w, W w → ∀ request, ok (w.ask 0 request).1.reply)

include hkept hreply

theorem reached_ofIntrospection (now : Nat) {x : Running Context × World}
    (h : job.IntrospectsTo log x.1.activity) (hw : W x.2) :
    W (ofIntrospection job now x).2 ∧ ∃ rest, (ofIntrospection job now x).1.Reached job
      (log ++ rest) ∧ x.2.Logged ok rest (ofIntrospection job now x).2 := by
  have hsame {stage : Stage} {w : World} (h : stage.Reached job log) :
      ∃ rest, stage.Reached job (log ++ rest) ∧ w.Logged ok rest w :=
    ⟨[], (List.append_nil log).symm ▸ h, .refl ok w⟩
  obtain ⟨task, w⟩ := x
  cases task with
  | settled outcome =>
    cases outcome with
    | error error => exact ⟨hw, hsame (.unknown h)⟩
    | ok known =>
      rw [ofIntrospection]
      cases hplan : job.expression.planWith job.context known with
      | error error => exact ⟨hw, hsame (.unplanned h hplan)⟩
      | ok plan =>
        obtain ⟨hw', rest, hstarted, hlogged⟩ := World.Runs.logged hkept hreply
          (@Running.runs_start _ job.token now (plan.run job.config) w) hw
        obtain ⟨hreached, hworld⟩ := reached_ofRun h hplan hstarted
        rw [← hworld] at hw' hlogged
        exact ⟨hw', rest, hreached, hlogged⟩
  | waiting | joined => exact ⟨hw, hsame (.introspecting h)⟩

theorem reached_resume (now : Nat) {stage : Stage} (h : stage.Reached job log) (hw : W w) :
    W (stage.resume job now w).2 ∧ ∃ rest, (stage.resume job now w).1.Reached job (log ++ rest) ∧
      w.Logged ok rest (stage.resume job now w).2 := by
  cases stage with
  | introspecting task =>
    cases h with
    | introspecting h =>
    obtain ⟨hw', first, hresumed, hlogged⟩ := World.Runs.logged hkept hreply
      (@Running.runs_resume _ job.token now task w) hw
    obtain ⟨hw'', rest, hreached, hlogged'⟩ :=
      reached_ofIntrospection hkept hreply now (h.trans hresumed) hw'
    rw [List.append_assoc] at hreached
    exact ⟨hw'', _, hreached, hlogged.trans hlogged'⟩
  | running plan task =>
    cases h with
    | running hknown hplan h =>
    obtain ⟨hw', rest, hresumed, hlogged⟩ := World.Runs.logged hkept hreply
      (@Running.runs_resume _ job.token now task w) hw
    obtain ⟨hreached, hworld⟩ := reached_ofRun hknown hplan (h.trans hresumed)
    rw [← hworld] at hw' hlogged
    rw [← List.append_assoc] at hreached
    exact ⟨hw', rest, hreached, hlogged⟩
  | settled outcome => exact ⟨hw, [], (List.append_nil log).symm ▸ h, .refl ok w⟩

/-- From a stage that has been reached, whatever happens until the computation settles. -/
theorem settles_settle {first : World} (now : Nat) {stage : Stage} (h : stage.Reached job log)
    (hw : W w) (hlogged : first.Logged ok log w) :
    ∃ log, job.Settles log (stage.settle job now w).1 ∧
      first.Logged ok log (stage.settle job now w).2 := by
  fun_induction settle job now stage w generalizing log with
  | case1 => exact ⟨log, .settled h, hlogged⟩
  | case2 => exact ⟨log, .timeout h, hlogged⟩
  | case3 => exact ⟨log, .cancelled h, hlogged.cancelFromOutside _⟩
  | case4 => exact ⟨log, .cancelled h, (hlogged.cancelFromOutside _).cancelFromOutside _⟩
  | case5 now w stage _ _ _ _ moment _ _ _ next after hnext =>
    rename_i ih
    have hlater : W (job.cancelFromOutside moment (job.cancelFromOutside now w)) :=
      keeps_cancelFromOutside hkept moment (keeps_cancelFromOutside hkept now hw)
    obtain ⟨hafter, rest, hreached, hlogged'⟩ := reached_resume hkept hreply moment h hlater
    rw [show resume job moment stage _ = _ from hnext] at hafter hreached hlogged'
    have houtside :
        first.Logged ok log (job.cancelFromOutside moment (job.cancelFromOutside now w)) :=
      (hlogged.cancelFromOutside now).cancelFromOutside moment
    exact ih hreached hafter (houtside.trans hlogged')
  | case6 => exact ⟨log, .timeout h, hlogged.cancelFromOutside _⟩

end

end Stage

/-- **Whole computations.** In a world whose replies are allowed, a computation settles as the steps
of its tasks lead it to, with the replies of the world. -/
theorem World.compute_settles (hkept : World.IsKept W)
    (hreply : ∀ w, W w → ∀ request, ok (w.ask 0 request).1.reply) (job : Job) (hw : W w) :
    ∃ log, job.Settles log (w.compute job).1 ∧ w.Logged ok log (w.compute job).2 := by
  unfold compute
  split
  · next error h => exact ⟨[], .refused h, .refl ok w⟩
  · obtain ⟨hw', log, hstarted, hlogged⟩ := World.Runs.logged hkept hreply
      (@Running.runs_start _ job.token 0 (job.context.introspect job.expression) w) hw
    obtain ⟨hw'', rest, hreached, hlogged'⟩ :=
      Stage.reached_ofIntrospection hkept hreply 0 hstarted hw'
    exact Stage.settles_settle hkept hreply 0 hreached hw'' (hlogged.trans hlogged')

end FederatedQuery.Simulation
