import FederatedQuery.Execution.Plan
import FederatedQuery.Proofs.Evaluation
import FederatedQuery.Proofs.Finishing

/-!
# Outcomes of tasks

If the reply to a request depends on nothing but the request, then what comes out of a task does
not depend on when replies come, as long as the task succeeds. This file says what comes out of
tasks in that case: `Task.run` carries out the parts of a task one after the other.

The outcome of a pattern depends on the rows around it only as far as values are looked up in
them. In scopes that do not contradict each other it cannot have different outcomes.

## Main definitions

* `Exchange.outcome`, `Task.run`: the outcomes of exchanges and tasks.

## Main results

* `Task.run_bind`, `Task.run_join`, `Task.run_andThen`: the outcomes of composed tasks.
* `Pattern.run_run`: the outcome of a pattern.
* `Pattern.run_meets`: its outcomes in different scopes.
-/

namespace FederatedQuery

variable {ρ : Type} (answer : Request → Reply)

/-- The outcome of an exchange, not cancelled, when requests are answered in the given way. -/
def Exchange.outcome {ε α : Type} : Exchange ε α → Except ε α
  | .done result => .ok result
  | .fail error => .error error
  | .ask request next => outcome (next (answer request))
  | .look next => outcome (next false)

namespace Task

mutual

/-- The outcome of a task that is not cancelled when requests are answered in the given way. -/
def run : Task ρ → Except ExecutionError ρ
  | .done result => .ok result
  | .fail error => .error error
  | .ask request next => run (next (answer request))
  | .look next => run (next false)
  | .join _ parts next => runAll parts >>= fun results => run (next results)

/-- The results of tasks, in order, or the first failure among them. -/
def runAll : List (Task ρ) → Except ExecutionError (List ρ)
  | [] => .ok []
  | task :: rest =>
    run task >>= fun result => runAll rest >>= fun results => .ok (result :: results)

end

variable {answer}

theorem runAll_eq_mapM (tasks : List (Task ρ)) :
    runAll answer tasks = tasks.mapM (run answer) := by
  induction tasks with
  | nil => rfl
  | cons task rest ih =>
    rw [List.mapM_cons, ← ih]
    rfl

theorem run_join (how : Join) (parts : List (Task ρ)) (next : List ρ → Task ρ) :
    (join how parts next).run answer =
      parts.mapM (run answer) >>= fun results => (next results).run answer := by
  rw [run, runAll_eq_mapM]

theorem run_bind (task : Task ρ) (next : ρ → Task ρ) :
    (task.bind next).run answer = task.run answer >>= fun result => (next result).run answer := by
  match task with
  | .done result => rfl
  | .fail error => rfl
  | .ask request rest => exact run_bind (rest (answer request)) next
  | .look rest => exact run_bind (rest false) next
  | .join how parts rest =>
    rw [bind, run_join, run_join, bind_assoc]
    exact congrArg _ (funext fun results => run_bind (rest results) next)

theorem run_andThen {ε α : Type} (x : Exchange ε α) (failure : ε → ExecutionError)
    (next : α → Task ρ) :
    (x.andThen failure next).run answer =
      (x.outcome answer).mapError failure >>= fun result => (next result).run answer := by
  induction x with
  | done result => rfl
  | fail error => rfl
  | ask request rest ih => exact ih (answer request)
  | look rest ih => exact ih false

end Task

theorem Exchange.outcome_bind {ε α β : Type} {answer : Request → Reply} (x : Exchange ε α)
    (f : α → Exchange ε β) :
    (x >>= f).outcome answer = x.outcome answer >>= fun result => (f result).outcome answer := by
  induction x with
  | done result => rfl
  | fail error => rfl
  | ask request rest ih => exact ih (answer request)
  | look rest ih => exact ih false

theorem Exchange.outcome_ofExcept {ε α : Type} {answer : Request → Reply} (x : Except ε α) :
    (ofExcept x).outcome answer = x := by
  cases x <;> rfl

variable {answer : Request → Reply}

theorem Compiled.outcome_finished (c : Compiled) (config : Config) (x : External) (scope : Scope) :
    (c.finished config x scope).outcome answer =
      (c.fetch config x).outcome answer >>= fun rows =>
        if config.maxRows < rows.length then .error (.resultTooLarge config.maxRows)
        else (c.finish.apply scope rows).mapError .expression := by
  rw [finished, Exchange.outcome_bind]
  refine congrArg _ (funext fun rows => ?_)
  split
  · rfl
  · exact Exchange.outcome_ofExcept _

/-- The outcome of the nested patterns of a row. -/
theorem Row.run_attach_cons (row : Row) (name : String) (task : Task Dataset)
    (rest : List (String × Task Dataset)) :
    (row.attach ((name, task) :: rest)).run answer =
      task.run answer >>= fun rows => ((row.put name (.dataset rows)).attach rest).run answer :=
  Task.run_bind task _

/-- Rows with nested rows that are computed in different scopes. -/
theorem Row.attach_meets {α : Type} {a b c : α → Task Dataset} (name : α → String)
    (entries : List α)
    (h : ∀ x ∈ entries, ((c x).run answer).Meets ((a x).run answer) ((b x).run answer))
    (row : Row) :
    ((row.attach (entries.map fun x => (name x, c x))).run answer).Meets
      ((row.attach (entries.map fun x => (name x, a x))).run answer)
      ((row.attach (entries.map fun x => (name x, b x))).run answer) := by
  induction entries generalizing row with
  | nil => exact .refl _
  | cons x entries ih =>
    obtain ⟨hx, hentries⟩ := List.forall_mem_cons.1 h
    simp only [List.map_cons, run_attach_cons]
    exact hx.bind fun rows => ih hentries _

namespace Pattern

/-- The tasks that compute the nested patterns for the group of a row. -/
def nestedTasks (p : Pattern) (config : Config) (grouping : Grouping) (scope : Scope) (row : Row) :
    List (String × Task Dataset) :=
  p.nestedPatterns.map fun (name, nested) =>
    (name, (p.forGroup nested (grouping.condition ((row.get? grouping.name).getD .null))).run
      config (row :: scope))

/-- The rows of a pattern with those of its nested patterns. -/
def attachNested (p : Pattern) (answer : Request → Reply) (config : Config)
    (grouping : Option Grouping) (scope : Scope) (rows : Dataset) :
    Except ExecutionError Dataset :=
  match grouping with
  | none => .ok rows
  | some grouping =>
    if p.nestedPatterns.isEmpty then .ok rows
    else
      rows.mapM (fun row => (row.attach (p.nestedTasks config grouping scope row)).run answer)
        >>= fun parts => .ok parts.flatten

/-- **The outcome of a pattern.** -/
theorem run_run (p : Pattern) (config : Config) (scope : Scope) :
    (p.run config scope).run answer =
      (p.compile config.limits).mapError .compile >>= fun c =>
        (c.finished config p.source.external scope).outcome answer >>= fun rows =>
          p.attachNested answer config c.grouping scope rows := by
  rw [run, Task.run, if_neg Bool.false_ne_true]
  cases p.compile config.limits with
  | error error => rfl
  | ok c =>
    refine (Task.run_andThen _ id _).trans ?_
    have hid (x : Except ExecutionError Dataset) : x.mapError id = x := by cases x <;> rfl
    rw [hid]
    refine congrArg _ (funext fun rows => ?_)
    cases hgrouping : c.grouping with
    | none => simp only [attachNested, Task.run]
    | some grouping =>
      simp only [attachNested]
      split
      · rw [Task.run]
      · rw [Task.run_join, List.mapM_map]
        have htasks (row : Row) :=
          List.attach_map_val (l := p.nestedPatterns) (f := fun entry =>
            (entry.1, (p.forGroup entry.2 (grouping.condition
              ((row.get? grouping.name).getD .null))).run config (row :: scope)))
        simp only [nestedTasks, Task.run, Function.comp_def, htasks]


/-- **Rows in different scopes.** -/
theorem run_meets {a b c : Scope} (hcovers : c.Covers a b) (p : Pattern) (config : Config) :
    ((p.run config c).run answer).Meets ((p.run config a).run answer)
      ((p.run config b).run answer) := by
  rw [run_run, run_run, run_run]
  refine (Except.Meets.refl _).bind fun compiled => ?_
  refine Except.Meets.bind ?_ fun rows => ?_
  · simp only [Compiled.outcome_finished]
    refine (Except.Meets.refl _).bind fun rows => ?_
    split
    · exact .refl _
    · refine Except.Meets.mapError ?_ _
      exact (Except.Meets.mapM fun row _ => Row.derive_meets hcovers row _).bind fun _ => .refl _
  · unfold attachNested
    cases compiled.grouping with
    | none => exact .refl _
    | some grouping =>
      simp only
      split
      · exact .refl _
      · refine (Except.Meets.mapM fun row _ => ?_).bind fun parts => .refl _
        exact Row.attach_meets _ p.nestedPatterns
          (fun entry hentry => run_meets (hcovers.cons row) _ config) row
termination_by sizeOf p.applies
decreasing_by
  rw [forGroup_applies]
  exact sizeOf_applies_lt hentry

end Pattern

end FederatedQuery
