import FederatedQuery.Simulation.World
import FederatedQuery.Task

/-!
# Running tasks

A task is started, goes on as long as replies come at once, and then waits. When time has
passed, it is taken up again where replies have come in the meantime. Among several parts
of a window for which replies have come, the one that made its request first goes first;
parts that have not been started yet come last. A part in which the program breaks off does
not wait for the parts before it.

## Main definitions

* `Running`: a task that has been started.
* `Running.isBroken`: a task in which the program has broken off.
* `Running.start`: starts a task.
* `Running.resume`: goes on with a task after time has passed.
* `Running.due?`: the time at which the next reply comes.
-/

namespace FederatedQuery.Simulation

/-- A task that has been started. -/
inductive Running (ρ : Type) where
  | settled (outcome : Except ExecutionError ρ)
  /-- A reply has not come yet. -/
  | waiting (arrival : Arrival) (next : Reply → Task ρ)
  /-- Parts are not settled yet. The results of the foremost parts, the parts that have been
  started after those, and the parts that have not been started are kept apart. -/
  | joined (how : Join) (results : List ρ) (slots : List (Running ρ)) (queue : List (Task ρ))
    (next : List ρ → Task ρ)

namespace Running

variable {ρ : Type}

/-- The results of parts, once all of them have one. -/
def results? : List (Running ρ) → Option (List ρ)
  | [] => some []
  | .settled (.ok result) :: rest => (results? rest).map (result :: ·)
  | _ :: _ => none

/-- Whether the program has broken off in a task. -/
def isBroken : Running ρ → Bool
  | .settled (.error .overflow) => true
  | _ => false

/-- Moves the results of the foremost parts over to those that there are already; the first
failure among them counts for all. -/
def collect (results : List ρ) :
    List (Running ρ) → Except ExecutionError (List ρ × List (Running ρ))
  | .settled (.ok result) :: rest => collect (results ++ [result]) rest
  | .settled (.error error) :: _ => .error error
  | slots => .ok (results, slots)

/-! ### Starting -/

variable (token : Option String) (now : Nat)

mutual

/-- Starts a task and goes on until it is settled or has to wait. -/
def start : Task ρ → World → Running ρ × World
  | .done result, w => (.settled (.ok result), w)
  | .fail error, w => (.settled (.error error), w)
  | .ask request next, w =>
    let (arrival, w) := w.ask now request
    if arrival.isDue now then start (next arrival.reply) w else (.waiting arrival next, w)
  | .look next, w => start (next (w.isCancelled token)) w
  | .join .all parts next, w =>
    match startAll parts w with
    | (.error error, w) => (.settled (.error error), w)
    | (.ok slots, w) =>
      match results? slots with
      | some results => start (next results) w
      | none => (.joined .all [] slots [] next, w)
  | .join (.window width) parts next, w =>
    match fill width parts [] [] w with
    | (.error error, w) => (.settled (.error error), w)
    | (.ok (results, [], []), w) => start (next results) w
    | (.ok (results, slots, queue), w) =>
      (.joined (.window width) results slots queue next, w)

/-- Starts tasks in order, up to the first failure. -/
def startAll : List (Task ρ) → World → Except ExecutionError (List (Running ρ)) × World
  | [], w => (.ok [], w)
  | task :: rest, w =>
    match start task w with
    | (.settled (.error error), w) => (.error error, w)
    | (first, w) =>
      match startAll rest w with
      | (.ok slots, w) => (.ok (first :: slots), w)
      | (.error error, w) => (.error error, w)

/-- Starts tasks in order as long as fewer than `width` parts are without a result that
counts, and the program does not break off. -/
def fill (width : Nat) : List (Task ρ) → List ρ → List (Running ρ) → World →
    Except ExecutionError (List ρ × List (Running ρ) × List (Task ρ)) × World
  | [], results, slots, w => (.ok (results, slots, []), w)
  | task :: rest, results, slots, w =>
    if slots.length < width then
      match start task w with
      | (last, w) =>
        if last.isBroken then (.error .overflow, w)
        else
          match collect results (slots ++ [last]) with
          | .error error => (.error error, w)
          | .ok (results, slots) => fill width rest results slots w
    else (.ok (results, slots, task :: rest), w)

end

/-! ### Waiting -/

/-- The smaller one of the numbers that there are. -/
def earliest : Option Nat → Option Nat → Option Nat
  | some a, some b => some (min a b)
  | some a, none => some a
  | none, b => b

mutual

/-- The time at which the next reply comes. -/
def due? : Running ρ → Option Nat
  | .settled _ => none
  | .waiting arrival _ => arrival.due
  | .joined _ _ slots _ _ => dueAmong slots

/-- The time at which the next reply comes to one of several tasks. -/
def dueAmong : List (Running ρ) → Option Nat
  | [] => none
  | first :: rest => earliest (due? first) (dueAmong rest)

end

mutual

/-- The place, among all requests, of the first one whose reply has come. -/
def turn? : Running ρ → Option Nat
  | .settled _ => none
  | .waiting arrival _ => if arrival.isDue now then some arrival.serial else none
  | .joined _ _ slots _ _ => turnAmong slots

/-- The place of the first request of several tasks whose reply has come. -/
def turnAmong : List (Running ρ) → Option Nat
  | [] => none
  | first :: rest => earliest (turn? first) (turnAmong rest)

end

/-- The places of the tasks for which replies have come, in the order of the requests. -/
def turns (slots : List (Running ρ)) : List Nat :=
  let woken := slots.zipIdx.filterMap fun (slot, i) => (turn? now slot).map fun n => (n, i)
  (woken.mergeSort fun a b => a.1 ≤ b.1).map Prod.snd

/-! ### Going on -/

/-- Goes on with the tasks at the given places, by the ways of going on with each of them,
until the foremost parts have a failure or the program breaks off. -/
def resumeInTurn (ways : List (World → Running ρ × World)) :
    List Nat → List (Running ρ) → World → Except ExecutionError (List (Running ρ)) × World
  | [], slots, w => (.ok slots, w)
  | i :: rest, slots, w =>
    match ways[i]? with
    | none => resumeInTurn ways rest slots w
    | some way =>
      match way w with
      | (slot, w) =>
        if slot.isBroken then (.error .overflow, w)
        else
          match collect [] (slots.set i slot) with
          | .error error => (.error error, w)
          | .ok _ => resumeInTurn ways rest (slots.set i slot) w

mutual

/-- Goes on with a task where replies have come. -/
def resume : Running ρ → World → Running ρ × World
  | .settled outcome, w => (.settled outcome, w)
  | .waiting arrival next, w =>
    if arrival.isDue now then start token now (next arrival.reply) w
    else (.waiting arrival next, w)
  | .joined .all results slots queue next, w =>
    match resumeAll slots w with
    | (.error error, w) => (.settled (.error error), w)
    | (.ok slots, w) =>
      match results? slots with
      | some results => start token now (next results) w
      | none => (.joined .all results slots queue next, w)
  | .joined (.window width) results slots queue next, w =>
    match resumeInTurn (waysOn slots) (turns now slots) slots w with
    | (.error error, w) => (.settled (.error error), w)
    | (.ok slots, w) =>
      match collect results slots with
      | .error error => (.settled (.error error), w)
      | .ok (results, slots) =>
        match fill token now width queue results slots w with
        | (.error error, w) => (.settled (.error error), w)
        | (.ok (results, [], []), w) => start token now (next results) w
        | (.ok (results, slots, queue), w) =>
          (.joined (.window width) results slots queue next, w)

/-- Goes on with tasks in order, up to the first failure. -/
def resumeAll :
    List (Running ρ) → World → Except ExecutionError (List (Running ρ)) × World
  | [], w => (.ok [], w)
  | slot :: rest, w =>
    match resume slot w with
    | (.settled (.error error), w) => (.error error, w)
    | (first, w) =>
      match resumeAll rest w with
      | (.ok slots, w) => (.ok (first :: slots), w)
      | (.error error, w) => (.error error, w)

/-- The ways of going on with each of several tasks. -/
def waysOn : List (Running ρ) → List (World → Running ρ × World)
  | [] => []
  | slot :: rest => resume slot :: waysOn rest

end

end Running

end FederatedQuery.Simulation
