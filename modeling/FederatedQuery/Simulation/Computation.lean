import FederatedQuery.Execution.Computation
import FederatedQuery.Simulation.Running

/-!
# Computations in virtual time

Time only passes while a computation waits: it then moves on to the next reply, to the
moment at which the computation is cancelled from outside, or to the end of its time,
whichever is first. Of a cancellation and a reply at one moment the cancellation counts;
of a reply and the end of time the reply does.

## Main definitions

* `Stage`: how far a computation has come.
* `Stage.settle`: lets time pass until a computation is settled.
* `World.compute`: the outcome of a whole computation.
-/

namespace FederatedQuery.Simulation

/-- What is computed, and under which conditions. -/
structure Job where
  expression : Expression
  context : Context
  config : Config
  /-- The token with which the computation can be cancelled. -/
  token : Option String
  /-- The time at which the token is cancelled from outside. -/
  cancelAt : Option Nat

/-- How far a computation has come. -/
inductive Stage where
  | introspecting (task : Running Context)
  | running (plan : Plan) (task : Running Dataset)
  | settled (outcome : Except ExecutionError Value)

namespace Stage

/-- The stage of a computation that carries out a plan. -/
def ofRun (plan : Plan) : Running Dataset × World → Stage × World
  | (.settled outcome, w) => (.settled (outcome.map fun rows => plan.result rows), w)
  | (task, w) => (.running plan task, w)

/-- The stage of a computation that introspects its datasources; once they are known, it goes
on with the plan. -/
def ofIntrospection (job : Job) (now : Nat) : Running Context × World → Stage × World
  | (.settled (.error error), w) => (.settled (.error error), w)
  | (.settled (.ok known), w) =>
    match job.expression.planWith job.context known with
    | .error error => (.settled (.error error), w)
    | .ok plan => ofRun plan (Running.start job.token now (plan.run job.config) w)
  | (task, w) => (.introspecting task, w)

/-- The first stage. -/
def initial (job : Job) (w : World) : Stage × World :=
  ofIntrospection job 0
    (Running.start job.token 0 (job.context.introspect job.expression) w)

/-- Goes on with a computation where replies have come. -/
def resume (job : Job) (now : Nat) : Stage → World → Stage × World
  | .introspecting task, w => ofIntrospection job now (task.resume job.token now w)
  | .running plan task, w => ofRun plan (task.resume job.token now w)
  | .settled outcome, w => (.settled outcome, w)

/-- The time at which the next reply comes. -/
def due? : Stage → Option Nat
  | .introspecting task => task.due?
  | .running _ task => task.due?
  | .settled _ => none

end Stage

namespace Job

/-- The world after the job is cancelled from outside, if that has happened by now. -/
def cancelFromOutside (job : Job) (now : Nat) (w : World) : World :=
  match job.token with
  | some token => if job.cancelAt.any (· ≤ now) then w.cancel token else w
  | none => w

/-- The moment up to which time passes. -/
def nextMoment (job : Job) (now : Nat) (stage : Stage) : Nat :=
  let outside := if job.cancelAt.any (now < ·) then job.cancelAt else none
  min job.config.timeout
    ((Running.earliest stage.due? outside).getD job.config.timeout)

end Job

/-- Lets time pass until a computation is settled. -/
def Stage.settle (job : Job) (now : Nat) (stage : Stage) (w : World) :
    Except ExecutionError Value × World :=
  match stage with
  | .settled outcome => (outcome, w)
  | stage =>
    if job.config.timeout ≤ now then (.error (.timeout job.config.timeout), w)
    else
      let w := job.cancelFromOutside now w
      if w.isCancelled job.token then (.error .cancelled, w)
      else
        let moment := job.nextMoment now stage
        if _later : now < moment then
          let w := job.cancelFromOutside moment w
          if w.isCancelled job.token then (.error .cancelled, w)
          else
            let (stage, w) := stage.resume job moment w
            settle job moment stage w
        else (.error (.timeout job.config.timeout), w)
termination_by job.config.timeout - now
decreasing_by
  have : moment ≤ job.config.timeout := Nat.min_le_left ..
  omega

/-- The outcome of a whole computation, which starts at the time zero. -/
def World.compute (w : World) (job : Job) : Except ExecutionError Value × World :=
  match job.expression.admit (w.isCancelled job.token) with
  | .error error => (.error error, w)
  | .ok () =>
    let (stage, w) := Stage.initial job w
    stage.settle job 0 w

end FederatedQuery.Simulation
