import FederatedQuery.Proofs.Worlds
import FederatedQuery.Simulation.Running

/-!
# Steps of tasks

A task that is being carried out takes one step after the other: a request is made, a reply
comes, a part of a window is started, the result of the foremost part is taken over. In which order
the parts of a join take their steps is left open here, and so is what backends reply and when.
Looking whether the computation has been cancelled is no step of its own, since nothing can happen
between such a look and what follows it.

A task that is started or goes on in a simulation takes such steps, with the replies that its world
gives. So whatever holds after all steps in any order holds of every simulation.

## Main definitions

* `Activity`: tasks in the course of being carried out.
* `Activity.Step`, `Activity.Runs`: one step, and any number of them.
* `World.Runs`: steps in a world, which decides about replies and cancellation.

## Main results

* `Running.runs_start`, `Running.runs_resume`: tasks that are started and go on.
* `World.Runs.log`: what steps in a world do to it.
-/

namespace FederatedQuery

variable {ρ : Type}

/-- Requests with the replies to them, in the order in which the requests are made. -/
abbrev Log := List (Request × Reply)

/-- The task after it has looked whether it has been cancelled, if that is what it begins with. -/
def Task.heed (cancelled : Bool) : Task ρ → Task ρ
  | .look next => (next cancelled).heed cancelled
  | task => task

/-- A task in the course of being carried out. -/
inductive Activity (ρ : Type) where
  | settled (outcome : Except ExecutionError ρ)
  /-- The task goes on from here. -/
  | ready (task : Task ρ)
  /-- A request has been made, and the reply is on its way. -/
  | waiting (reply : Reply) (next : Reply → Task ρ)
  /-- Parts are going on. The results of the foremost parts, the parts that have been started
  after those, and the parts that have not been started are kept apart. -/
  | joined (how : Join) (results : List ρ) (slots : List (Activity ρ)) (queue : List (Task ρ))
    (next : List ρ → Task ρ)

namespace Activity

/-- One step, with the request that is made in it and the reply that will come. -/
inductive Step (cancelled : Bool) : Activity ρ → Log → Activity ρ → Prop
  | done {task : Task ρ} {result : ρ} (htask : task.heed cancelled = .done result) :
      Step cancelled (.ready task) [] (.settled (.ok result))
  | fail {task : Task ρ} {error : ExecutionError} (htask : task.heed cancelled = .fail error) :
      Step cancelled (.ready task) [] (.settled (.error error))
  | ask {task : Task ρ} {request : Request} {next : Reply → Task ρ}
      (htask : task.heed cancelled = .ask request next) (reply : Reply) :
      Step cancelled (.ready task) [(request, reply)] (.waiting reply next)
  | reply (reply : Reply) (next : Reply → Task ρ) :
      Step cancelled (.waiting reply next) [] (.ready (next reply))
  /-- All parts are started. -/
  | all {task : Task ρ} {parts : List (Task ρ)} {next : List ρ → Task ρ}
      (htask : task.heed cancelled = .join .all parts next) :
      Step cancelled (.ready task) [] (.joined .all [] (parts.map .ready) [] next)
  /-- A window is opened. -/
  | window {task : Task ρ} {width : Nat} {parts : List (Task ρ)} {next : List ρ → Task ρ}
      (htask : task.heed cancelled = .join (.window width) parts next) :
      Step cancelled (.ready task) [] (.joined (.window width) [] [] parts next)
  /-- One of the parts that are going on takes a step. -/
  | part {how : Join} {results : List ρ} {front back : List (Activity ρ)} {slot slot' : Activity ρ}
      {queue : List (Task ρ)} {next : List ρ → Task ρ} {log : Log}
      (hslot : Step cancelled slot log slot') :
      Step cancelled (.joined how results (front ++ slot :: back) queue next) log
        (.joined how results (front ++ slot' :: back) queue next)
  /-- One of several parts that all go on at once has failed. -/
  | allFailed {results : List ρ} {slots : List (Activity ρ)} {queue : List (Task ρ)}
      {next : List ρ → Task ρ} {error : ExecutionError}
      (hslot : .settled (.error error) ∈ slots) :
      Step cancelled (.joined .all results slots queue next) [] (.settled (.error error))
  | allDone {results done : List ρ} {queue : List (Task ρ)} {next : List ρ → Task ρ} :
      Step cancelled
        (.joined .all results (done.map fun result => .settled (.ok result)) queue next) []
        (.ready (next done))
  /-- The foremost part in a window has a result, and makes room for another one. -/
  | release {width : Nat} {results : List ρ} {result : ρ} {slots : List (Activity ρ)}
      {queue : List (Task ρ)} {next : List ρ → Task ρ} :
      Step cancelled
        (.joined (.window width) results (.settled (.ok result) :: slots) queue next) []
        (.joined (.window width) (results ++ [result]) slots queue next)
  /-- The foremost part in a window has failed. -/
  | windowFailed {width : Nat} {results : List ρ} {error : ExecutionError}
      {slots : List (Activity ρ)} {queue : List (Task ρ)} {next : List ρ → Task ρ} :
      Step cancelled (.joined (.window width) results (.settled (.error error) :: slots) queue next)
        [] (.settled (.error error))
  /-- The program breaks off in one of the parts of a window, which does not wait for those before
  it. -/
  | broken {width : Nat} {results : List ρ} {slots : List (Activity ρ)} {queue : List (Task ρ)}
      {next : List ρ → Task ρ} (hslot : .settled (.error .overflow) ∈ slots) :
      Step cancelled (.joined (.window width) results slots queue next) []
        (.settled (.error .overflow))
  /-- The next part is started, as there is room for it in the window. -/
  | enter {width : Nat} {results : List ρ} {slots : List (Activity ρ)} {task : Task ρ}
      {queue : List (Task ρ)} {next : List ρ → Task ρ} (hroom : slots.length < width) :
      Step cancelled (.joined (.window width) results slots (task :: queue) next) []
        (.joined (.window width) results (slots ++ [.ready task]) queue next)
  | windowDone {width : Nat} {results : List ρ} {next : List ρ → Task ρ} :
      Step cancelled (.joined (.window width) results [] [] next) [] (.ready (next results))

/-- A task takes the same first step as one that begins in the same way. -/
theorem Step.of_heed_eq {cancelled : Bool} {task other : Task ρ} {log : Log} {a : Activity ρ}
    (h : Step cancelled (.ready task) log a) (heq : other.heed cancelled = task.heed cancelled) :
    Step cancelled (.ready other) log a := by
  cases h with
  | done htask => exact .done (heq.trans htask)
  | fail htask => exact .fail (heq.trans htask)
  | ask htask reply => exact .ask (heq.trans htask) reply
  | all htask => exact .all (heq.trans htask)
  | window htask => exact .window (heq.trans htask)

/-- Any number of steps. Unless the computation may be cancelled in the meantime, it is not
cancelled at any of them. -/
inductive Runs (cancellable : Bool) : Activity ρ → Log → Activity ρ → Prop
  | refl (a : Activity ρ) : Runs cancellable a [] a
  | step {cancelled : Bool} {a b c : Activity ρ} {log rest : Log}
      (hcancelled : cancelled = true → cancellable = true) (hstep : Step cancelled a log b)
      (hruns : Runs cancellable b rest c) : Runs cancellable a (log ++ rest) c

end Activity

/-! ### Steps in a world -/

namespace Simulation

open Activity

/-- Any number of steps in a world, which decides about the replies to requests and whether the
computation has been cancelled. -/
inductive World.Runs (token : Option String) :
    Activity ρ → World → Activity ρ → World → Prop
  | refl (a : Activity ρ) (w : World) : Runs token a w a w
  | quiet {a b c : Activity ρ} {w w' : World} (hstep : Activity.Step (w.isCancelled token) a [] b)
      (hruns : Runs token b w c w') : Runs token a w c w'
  | ask {a b c : Activity ρ} {w w' : World} {request : Request}
      (hstep : Activity.Step (w.isCancelled token) a [(request, (w.ask 0 request).1.reply)] b)
      (hruns : Runs token b (w.ask 0 request).2 c w') : Runs token a w c w'

namespace World.Runs

variable {token : Option String} {a b c : Activity ρ} {w w' w'' : World}

theorem trans (h : Runs token a w b w') (h' : Runs token b w' c w'') : Runs token a w c w'' := by
  induction h with
  | refl => exact h'
  | quiet hstep _ ih => exact .quiet hstep (ih h')
  | ask hstep _ ih => exact .ask hstep (ih h')

/-- A step in which no request is made. -/
theorem single (h : Activity.Step (w.isCancelled token) a [] b) : Runs token a w b w :=
  .quiet h (.refl b w)

/-- The steps of one of the parts that are going on. -/
theorem part {slot slot' : Activity ρ} (h : Runs token slot w slot' w') (how : Join)
    (results : List ρ) (front back : List (Activity ρ)) (queue : List (Task ρ))
    (next : List ρ → Task ρ) :
    Runs token (.joined how results (front ++ slot :: back) queue next) w
      (.joined how results (front ++ slot' :: back) queue next) w' := by
  induction h with
  | refl => exact .refl _ _
  | quiet hstep _ ih => exact .quiet (.part hstep) ih
  | ask hstep _ ih => exact .ask (.part hstep) ih

/-- **What steps in a world do to it.** They make the requests of a log, and nothing else. -/
theorem log (h : Runs token a w b w') :
    ∃ log, a.Runs true log b ∧ w' = w.after (log.map Prod.fst) ∧
      w'.requests = w.requests ++ log.map Prod.fst := by
  induction h with
  | refl a w => exact ⟨[], .refl a, rfl, (List.append_nil _).symm⟩
  | quiet hstep _ ih =>
    obtain ⟨log, hruns, hafter, hrequests⟩ := ih
    exact ⟨log, .step (fun _ => rfl) hstep hruns, hafter, hrequests⟩
  | @ask a b c w w' request hstep _ ih =>
    obtain ⟨log, hruns, hafter, hrequests⟩ := ih
    refine ⟨_, .step (fun _ => rfl) hstep hruns, hafter, ?_⟩
    rw [hrequests]
    exact List.append_assoc _ [request] _

/-- A look takes no step of its own. -/
theorem look {next : Bool → Task ρ} (h : Runs token (.ready (next (w.isCancelled token))) w b w')
    (hb : ∀ task, b ≠ .ready task) : Runs token (.ready (.look next)) w b w' := by
  cases h with
  | refl => exact absurd rfl (hb _)
  | quiet hstep hruns => exact .quiet (hstep.of_heed_eq rfl) hruns
  | ask hstep hruns => exact .ask (hstep.of_heed_eq rfl) hruns

end World.Runs

/-! ### Running tasks -/

namespace Running

mutual

/-- What a running task is in the course of. -/
def activity : Running ρ → Activity ρ
  | .settled outcome => .settled outcome
  | .waiting arrival next => .waiting arrival.reply next
  | .joined how results slots queue next => .joined how results (activities slots) queue next

/-- What running tasks are in the course of. -/
def activities : List (Running ρ) → List (Activity ρ)
  | [] => []
  | slot :: rest => activity slot :: activities rest

end

theorem activities_eq_map (slots : List (Running ρ)) : activities slots = slots.map activity := by
  induction slots with
  | nil => rfl
  | cons slot slots ih => rw [activities, List.map_cons, ih]

/-- A running task is not about to take its first step. -/
theorem activity_ne_ready (task : Running ρ) (other : Task ρ) : task.activity ≠ .ready other := by
  cases task <;> exact nofun

/-- The program has broken off in a running task. -/
theorem activity_of_isBroken {task : Running ρ} (h : task.isBroken = true) :
    task.activity = .settled (.error .overflow) := by
  unfold isBroken at h
  split at h
  · rfl
  · exact absurd h Bool.false_ne_true

variable {token : Option String} {now : Nat}

/-- What is left after the parts of a window have been moved on. -/
def afterWindow (width : Nat) (next : List ρ → Task ρ) :
    Except ExecutionError (List ρ × List (Running ρ) × List (Task ρ)) → Activity ρ
  | .ok (results, slots, queue) => .joined (.window width) results (activities slots) queue next
  | .error error => .settled (.error error)

/-- What is left after parts that go on at once have been moved on, behind some others. -/
def afterAll (results : List ρ) (front : List (Activity ρ)) (queue : List (Task ρ))
    (next : List ρ → Task ρ) : Except ExecutionError (List (Running ρ)) → Activity ρ
  | .ok slots => .joined .all results (front ++ activities slots) queue next
  | .error error => .settled (.error error)

/-- Taking over the results of the foremost parts. -/
theorem runs_collect (width : Nat) (results : List ρ) (slots : List (Running ρ))
    (queue : List (Task ρ)) (next : List ρ → Task ρ) (w : World) :
    World.Runs token (.joined (.window width) results (activities slots) queue next) w
      (afterWindow width next ((collect results slots).map fun p => (p.1, p.2, queue))) w := by
  induction slots generalizing results with
  | nil => exact .refl _ w
  | cons slot slots ih =>
    unfold collect
    split
    · next heq =>
      cases heq
      exact (World.Runs.single .release).trans (ih _)
    · next heq =>
      cases heq
      exact .single .windowFailed
    · exact .refl _ w

theorem activities_of_results? {slots : List (Running ρ)} {results : List ρ}
    (h : results? slots = some results) :
    activities slots = results.map fun result => .settled (.ok result) := by
  induction slots generalizing results with
  | nil =>
    cases h
    rfl
  | cons slot slots ih =>
    cases slot with
    | settled outcome =>
      cases outcome with
      | error error => exact nomatch h
      | ok result =>
        obtain ⟨rest, hrest, rfl⟩ := Option.map_eq_some_iff.1 h
        rw [activities, ih hrest]
        rfl
    | _ => exact nomatch h

/-- Parts that go on at once, and what comes after them. -/
theorem runs_all {a : Activity ρ} {w : World}
    {x : Except ExecutionError (List (Running ρ)) × World} {results : List ρ}
    {queue : List (Task ρ)} {next : List ρ → Task ρ}
    (hnext : ∀ results w, World.Runs token (.ready (next results)) w
      (start token now (next results) w).1.activity (start token now (next results) w).2)
    {y : Running ρ × World}
    (hy : y = match x with
      | (.error error, w) => (.settled (.error error), w)
      | (.ok slots, w) =>
        match results? slots with
        | some results => start token now (next results) w
        | none => (.joined .all results slots queue next, w))
    (hx : World.Runs token a w (afterAll results [] queue next x.1) x.2) :
    World.Runs token a w y.1.activity y.2 := by
  rcases x with ⟨error | slots, w'⟩
  · rw [hy]
    exact hx
  · simp only at hy
    split at hy
    · next done hdone =>
      rw [afterAll, List.nil_append, activities_of_results? hdone] at hx
      rw [hy]
      exact hx.trans ((World.Runs.single .allDone).trans (hnext done w'))
    · rw [hy]
      exact hx

/-- The parts of a window, and what comes after them. -/
theorem runs_window {a : Activity ρ} {w : World} {width : Nat}
    {x : Except ExecutionError (List ρ × List (Running ρ) × List (Task ρ)) × World}
    {next : List ρ → Task ρ}
    (hnext : ∀ results w, World.Runs token (.ready (next results)) w
      (start token now (next results) w).1.activity (start token now (next results) w).2)
    {y : Running ρ × World}
    (hy : y = match x with
      | (.error error, w) => (.settled (.error error), w)
      | (.ok (results, [], []), w) => start token now (next results) w
      | (.ok (results, slots, queue), w) =>
        (.joined (.window width) results slots queue next, w))
    (hx : World.Runs token a w (afterWindow width next x.1) x.2) :
    World.Runs token a w y.1.activity y.2 := by
  split at hy
  · rw [hy]
    exact hx
  · next results w' =>
    rw [hy]
    exact hx.trans ((World.Runs.single .windowDone).trans (hnext results w'))
  · rw [hy]
    exact hx

/-- The foremost part of several that go on at once, and those after it. -/
theorem runs_cons {first : Activity ρ} {others : List (Activity ρ)} {front : List (Activity ρ)}
    {w : World} {x : Running ρ × World} {results : List ρ} {queue : List (Task ρ)}
    {next : List ρ → Task ρ} {rest : World → Except ExecutionError (List (Running ρ)) × World}
    (hrest : ∀ front w, World.Runs token (.joined .all results (front ++ others) queue next) w
      (afterAll results front queue next (rest w).1) (rest w).2)
    {y : Except ExecutionError (List (Running ρ)) × World}
    (hy : y = match x with
      | (.settled (.error error), w) => (.error error, w)
      | (first, w) =>
        match rest w with
        | (.ok slots, w) => (.ok (first :: slots), w)
        | (.error error, w) => (.error error, w))
    (hx : World.Runs token first w x.1.activity x.2) :
    World.Runs token (.joined .all results (front ++ first :: others) queue next) w
      (afterAll results front queue next y.1) y.2 := by
  rcases x with ⟨slot, w'⟩
  have hfirst := hx.part .all results front others queue next
  split at hy
  · next error _ heq =>
    obtain ⟨rfl, rfl⟩ := Prod.mk.inj heq
    rw [hy]
    exact hfirst.trans (.single (.allFailed (List.mem_append_right _ List.mem_cons_self)))
  · next heq =>
    obtain ⟨rfl, rfl⟩ := Prod.mk.inj heq
    have hothers := hrest (front ++ [slot.activity]) w'
    rw [List.append_assoc] at hothers
    have hall := hfirst.trans hothers
    rw [hy]
    revert hall
    rcases rest w' with ⟨error | slots, w''⟩
    · exact id
    · rw [afterAll, List.append_assoc]
      exact id

mutual

/-- **Starting.** A task that is started takes steps. -/
theorem runs_start : (task : Task ρ) → (w : World) →
    World.Runs token (.ready task) w (start token now task w).1.activity
      (start token now task w).2
  | .done result, w => .single (.done rfl)
  | .fail error, w => .single (.fail rfl)
  | .ask request next, w => by
      have hasked : World.Runs token (.ready (.ask request next)) w
          (.waiting (w.ask now request).1.reply next) (w.ask now request).2 :=
        .ask (.ask rfl _) (.refl _ _)
      rw [start]
      revert hasked
      rcases w.ask now request with ⟨arrival, w'⟩
      intro hasked
      simp only
      split
      · exact hasked.trans ((World.Runs.single (.reply _ _)).trans
          (runs_start (next arrival.reply) w'))
      · exact hasked
  | .look next, w =>
      (runs_start (next (w.isCancelled token)) w).look (activity_ne_ready _)
  | .join .all parts next, w => by
      have hopen : World.Runs token (.ready (.join .all parts next)) w
          (.joined .all [] (parts.map .ready) [] next) w := .single (.all rfl)
      refine runs_all (fun results w => runs_start (next results) w) ?_
        (hopen.trans (runs_startAll [] [] next parts [] w))
      exact (start.eq_def ..).trans rfl
  | .join (.window width) parts next, w => by
      have hopen : World.Runs token (.ready (.join (.window width) parts next)) w
          (.joined (.window width) [] [] parts next) w := .single (.window rfl)
      refine runs_window (fun results w => runs_start (next results) w) ?_
        (hopen.trans (runs_fill width next parts [] [] w))
      exact (start.eq_def ..).trans rfl

theorem runs_startAll (results : List ρ) (queue : List (Task ρ)) (next : List ρ → Task ρ) :
    (tasks : List (Task ρ)) → (front : List (Activity ρ)) → (w : World) →
    World.Runs token (.joined .all results (front ++ tasks.map .ready) queue next) w
      (afterAll results front queue next (startAll token now tasks w).1)
      (startAll token now tasks w).2
  | [], front, w => .refl _ w
  | task :: rest, front, w => by
      refine runs_cons (fun front w => runs_startAll results queue next rest front w) ?_
        (runs_start task w)
      exact (startAll.eq_def ..).trans rfl

theorem runs_fill (width : Nat) (next : List ρ → Task ρ) : (tasks : List (Task ρ)) →
    (results : List ρ) → (slots : List (Running ρ)) → (w : World) →
    World.Runs token (.joined (.window width) results (activities slots) tasks next) w
      (afterWindow width next (fill token now width tasks results slots w).1)
      (fill token now width tasks results slots w).2
  | [], results, slots, w => .refl _ w
  | task :: rest, results, slots, w => by
      rw [fill]
      split
      · next hroom =>
        have hadmit : World.Runs token
            (.joined (.window width) results (activities slots) (task :: rest) next) w
            (.joined (.window width) results (activities slots ++ [.ready task]) rest next) w := by
          refine .single (.enter ?_)
          rwa [activities_eq_map, List.length_map]
        have htask := hadmit.trans ((runs_start task w).part (.window width) results
          (activities slots) [] rest next)
        revert htask
        rcases start token now task w with ⟨last, w'⟩
        intro htask
        have hslots : activities slots ++ [last.activity] = activities (slots ++ [last]) := by
          simp only [activities_eq_map, List.map_append, List.map_cons, List.map_nil]
        rw [hslots] at htask
        simp only
        split
        · next hbroken =>
          refine htask.trans (.single (.broken ?_))
          rw [← hslots, activity_of_isBroken hbroken]
          exact List.mem_append_right _ List.mem_cons_self
        have hcollect := htask.trans (runs_collect width results (slots ++ [last]) rest next w')
        revert hcollect
        cases collect results (slots ++ [last]) with
        | error error => exact id
        | ok moved => exact fun hcollect =>
            hcollect.trans (runs_fill width next rest moved.1 moved.2 w')
      · exact .refl _ w

end

/-! ### Going on -/

/-- Whether the foremost parts have a failure does not depend on the results before them. -/
theorem collect_eq_error {results others : List ρ} {slots : List (Running ρ)}
    {error : ExecutionError} (h : collect results slots = .error error) :
    collect others slots = .error error := by
  induction slots generalizing results others with
  | nil => exact nomatch h
  | cons slot slots ih =>
    unfold collect at h ⊢
    split at h
    · next heq =>
      cases heq
      exact ih h
    · next heq =>
      cases heq
      exact h
    · exact nomatch h

/-- No task has more than one turn. -/
theorem nodup_turns (now : Nat) (slots : List (Running ρ)) : (turns now slots).Nodup := by
  have hplaces : slots.zipIdx.Pairwise fun a b => a.2 ≠ b.2 := by
    refine List.pairwise_map.1 ?_
    rw [List.zipIdx_map_snd]
    exact List.nodup_range'
  refine ((List.mergeSort_perm _ _).map _).nodup_iff.2 (List.pairwise_map.2 ?_)
  refine List.pairwise_filterMap.2 (hplaces.imp fun hne a ha b hb => ?_)
  obtain ⟨m, -, rfl⟩ := Option.map_eq_some_iff.1 ha
  obtain ⟨n, -, rfl⟩ := Option.map_eq_some_iff.1 hb
  exact hne

/-- Tasks that go on in turn, each at most once. -/
theorem runs_resumeInTurn {ways : List (World → Running ρ × World)} {started : List (Running ρ)}
    (hways : ∀ (i : Nat) (way : World → Running ρ × World), ways[i]? = some way →
      ∃ slot, started[i]? = some slot ∧
        ∀ w, World.Runs token slot.activity w (way w).1.activity (way w).2)
    (width : Nat) (results : List ρ) (queue : List (Task ρ)) (next : List ρ → Task ρ)
    {turns : List Nat} (hturns : turns.Nodup) {slots : List (Running ρ)}
    (hslots : ∀ i ∈ turns, slots[i]? = started[i]?) (w : World) :
    World.Runs token (.joined (.window width) results (activities slots) queue next) w
      (afterWindow width next
        ((resumeInTurn ways turns slots w).1.map fun slots => (results, slots, queue)))
      (resumeInTurn ways turns slots w).2 := by
  induction turns generalizing slots w with
  | nil => exact .refl _ w
  | cons i turns ih =>
    obtain ⟨hi, hturns⟩ := List.nodup_cons.1 hturns
    obtain ⟨hslot, hslots⟩ := List.forall_mem_cons.1 hslots
    rw [resumeInTurn]
    split
    · exact ih hturns hslots w
    · next way hway =>
      obtain ⟨slot, hstarted, hruns⟩ := hways i way hway
      rw [hstarted] at hslot
      obtain ⟨hlt, hslot⟩ := List.getElem?_eq_some_iff.1 hslot
      have hruns := hruns w
      revert hruns
      rcases way w with ⟨slot', w'⟩
      intro hruns
      have hpart := hruns.part (.window width) results (activities (slots.take i))
        (activities (slots.drop (i + 1))) queue next
      have hbefore : activities (slots.take i) ++ slot.activity ::
          activities (slots.drop (i + 1)) = activities slots := by
        simp only [activities_eq_map]
        rw [← List.map_cons, ← List.map_append, ← hslot, List.getElem_cons_drop,
          List.take_append_drop]
      have hafter : activities (slots.take i) ++ slot'.activity ::
          activities (slots.drop (i + 1)) = activities (slots.set i slot') := by
        simp only [activities_eq_map]
        rw [← List.map_cons, ← List.map_append, List.set_eq_take_append_cons_drop, if_pos hlt]
      rw [hbefore, hafter] at hpart
      simp only
      split
      · next hbroken =>
        refine hpart.trans (.single (.broken ?_))
        rw [← hafter, activity_of_isBroken hbroken]
        exact List.mem_append_right _ List.mem_cons_self
      split
      · next error herror =>
        have hcollect := hpart.trans
          (runs_collect width results (slots.set i slot') queue next w')
        rw [collect_eq_error herror] at hcollect
        exact hcollect
      · refine hpart.trans (ih hturns (fun j hj => ?_) w')
        have hne : i ≠ j := fun heq => hi (heq ▸ hj)
        rw [List.getElem?_set_ne hne, hslots j hj]

mutual

/-- **Going on.** A task that goes on takes steps. -/
theorem runs_resume : (task : Running ρ) → (w : World) →
    World.Runs token task.activity w (resume token now task w).1.activity
      (resume token now task w).2
  | .settled outcome, w => .refl _ w
  | .waiting arrival next, w => by
      rw [resume]
      split
      · exact (World.Runs.single (.reply _ _)).trans (runs_start (next arrival.reply) w)
      · exact .refl _ w
  | .joined .all results slots queue next, w => by
      have hnext (results : List ρ) (w : World) : World.Runs token (.ready (next results)) w
          (start token now (next results) w).1.activity (start token now (next results) w).2 :=
        runs_start (next results) w
      refine runs_all hnext ?_ (runs_resumeAll results queue next slots [] w)
      exact (resume.eq_def ..).trans rfl
  | .joined (.window width) results slots queue next, w => by
      have hways (i : Nat) (way : World → Running ρ × World)
          (h : (waysOn token now slots)[i]? = some way) := runs_waysOn slots i way h
      have hslots := runs_resumeInTurn hways width results queue next (nodup_turns now slots)
        (fun _ _ => rfl) w
      rw [resume]
      revert hslots
      rcases resumeInTurn (waysOn token now slots) (turns now slots) slots w with
        ⟨error | slots, w'⟩
      · exact id
      · intro hslots
        have hcollect := hslots.trans (runs_collect width results slots queue next w')
        revert hcollect
        simp only
        cases collect results slots with
        | error error => exact id
        | ok moved =>
          exact fun hcollect => runs_window (fun results w => runs_start (next results) w) rfl
            (hcollect.trans (runs_fill width next queue moved.1 moved.2 w'))

theorem runs_resumeAll (results : List ρ) (queue : List (Task ρ)) (next : List ρ → Task ρ) :
    (slots : List (Running ρ)) → (front : List (Activity ρ)) → (w : World) →
    World.Runs token (.joined .all results (front ++ activities slots) queue next) w
      (afterAll results front queue next (resumeAll token now slots w).1)
      (resumeAll token now slots w).2
  | [], front, w => .refl _ w
  | slot :: rest, front, w => by
      refine runs_cons (fun front w => runs_resumeAll results queue next rest front w) ?_
        (runs_resume slot w)
      exact (resumeAll.eq_def ..).trans rfl

theorem runs_waysOn : (slots : List (Running ρ)) → (i : Nat) →
    (way : World → Running ρ × World) → (waysOn token now slots)[i]? = some way →
    ∃ slot, slots[i]? = some slot ∧
      ∀ w, World.Runs token slot.activity w (way w).1.activity (way w).2
  | slot :: _, 0, _, h => ⟨slot, rfl, fun w => Option.some.inj h ▸ runs_resume slot w⟩
  | _ :: rest, i + 1, _, h => runs_waysOn rest i _ h

end

end Running

end Simulation

end FederatedQuery
