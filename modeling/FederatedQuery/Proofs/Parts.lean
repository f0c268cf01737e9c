import FederatedQuery.Proofs.Activity
import Mathlib.Data.List.Perm.Subperm

/-!
# Runs of composed tasks

In whatever order the parts of a task take their steps, each part takes its own steps, and the
requests of the task are those of its parts and of what comes after them. A task that is followed
by another one comes to its result first. So what a composed task does is known once it is known
what the tasks do that it is composed of.

## Main definitions

* `Activity.Each`: tasks side by side, each with a run of its own.
* `Activity.Joined`: how far a join has come.
* `Activity.bind`: what goes on, and then another task.

## Main results

* `Activity.Runs.of_look`, `Activity.Runs.of_ask`: runs of tasks that begin with a look or a
  request.
* `Activity.Runs.of_bind`: runs of tasks in a row.
* `Activity.Runs.joined`: runs of joins.
-/

namespace FederatedQuery

variable {ρ : Type} {cancellable cancelled : Bool}

namespace Activity

variable {a b c : Activity ρ} {log rest : Log}

/-! ### Runs -/

namespace Runs

theorem trans (h : Runs cancellable a log b) (h' : Runs cancellable b rest c) :
    Runs cancellable a (log ++ rest) c := by
  induction h with
  | refl => exact h'
  | step hcancelled hstep _ ih =>
    rw [List.append_assoc]
    exact .step hcancelled hstep (ih h')

/-- A first step, at which the computation has not been cancelled. -/
theorem cons (hstep : Step false a log b) (hruns : Runs cancellable b rest c) :
    Runs cancellable a (log ++ rest) c := by
  refine .step ?_ hstep hruns
  exact nofun

/-- A first step in which no request is made. -/
theorem quiet (hstep : Step false a [] b) (hruns : Runs cancellable b log c) :
    Runs cancellable a log c :=
  .cons hstep hruns

theorem single (hcancelled : cancelled = true → cancellable = true)
    (hstep : Step cancelled a log b) : Runs cancellable a log b := by
  rw [← List.append_nil log]
  exact .step hcancelled hstep (.refl b)

/-- A first request. -/
theorem asked {task : Task ρ} {request : Request} {next : Reply → Task ρ}
    (hask : task.heed false = .ask request next) (reply : Reply)
    (h : Runs cancellable (.ready (next reply)) log b) :
    Runs cancellable (.ready task) ((request, reply) :: log) b :=
  .cons (.ask hask reply) (.quiet (.reply reply next) h)

/-- The steps of one of the parts that are going on. -/
theorem part (h : Runs cancellable a log b) (how : Join) (results : List ρ)
    (front back : List (Activity ρ)) (queue : List (Task ρ)) (next : List ρ → Task ρ) :
    Runs cancellable (.joined how results (front ++ a :: back) queue next) log
      (.joined how results (front ++ b :: back) queue next) := by
  induction h with
  | refl => exact .refl _
  | step hcancelled hstep _ ih => exact .step hcancelled (.part hstep) ih

/-- What is settled stays as it is. -/
theorem of_settled {outcome : Except ExecutionError ρ}
    (h : Runs cancellable (.settled outcome) log b) : log = [] ∧ b = .settled outcome := by
  cases h with
  | refl => exact ⟨rfl, rfl⟩
  | step _ hstep _ => exact nomatch hstep

theorem of_done {result : ρ} (h : Runs cancellable (.ready (.done result)) log b) :
    log = [] ∧ (b = .ready (.done result) ∨ b = .settled (.ok result)) := by
  cases h with
  | refl => exact ⟨rfl, .inl rfl⟩
  | step _ hstep hruns =>
    cases hstep with
    | done htask =>
      cases htask
      obtain ⟨rfl, rfl⟩ := hruns.of_settled
      exact ⟨rfl, .inr rfl⟩
    | fail htask | ask htask | all htask | window htask => exact nomatch htask

theorem of_fail {error : ExecutionError} (h : Runs cancellable (.ready (.fail error)) log b) :
    log = [] ∧ (b = .ready (.fail error) ∨ b = .settled (.error error)) := by
  cases h with
  | refl => exact ⟨rfl, .inl rfl⟩
  | step _ hstep hruns =>
    cases hstep with
    | fail htask =>
      cases htask
      obtain ⟨rfl, rfl⟩ := hruns.of_settled
      exact ⟨rfl, .inr rfl⟩
    | done htask | ask htask | all htask | window htask => exact nomatch htask

/-- A task that begins with a look. -/
theorem of_look {next : Bool → Task ρ} (h : Runs cancellable (.ready (.look next)) log b) :
    (log = [] ∧ b = .ready (.look next)) ∨ ∃ cancelled, (cancelled = true → cancellable = true) ∧
      Runs cancellable (.ready (next cancelled)) log b := by
  cases h with
  | refl => exact .inl ⟨rfl, rfl⟩
  | @step cancelled _ _ _ _ _ hcancelled hstep hruns =>
    exact .inr ⟨cancelled, hcancelled, .step hcancelled (hstep.of_heed_eq rfl) hruns⟩

/-- A task that begins with a request. -/
theorem of_ask {request : Request} {next : Reply → Task ρ}
    (h : Runs cancellable (.ready (.ask request next)) log b) :
    (log = [] ∧ b = .ready (.ask request next)) ∨ ∃ reply rest, log = (request, reply) :: rest ∧
      (rest = [] ∧ b = .waiting reply next ∨ Runs cancellable (.ready (next reply)) rest b) := by
  cases h with
  | refl => exact .inl ⟨rfl, rfl⟩
  | step _ hstep hruns =>
    cases hstep with
    | done htask | fail htask | all htask | window htask => exact nomatch htask
    | ask htask reply =>
      cases htask
      refine .inr ⟨reply, _, rfl, ?_⟩
      cases hruns with
      | refl => exact .inl ⟨rfl, rfl⟩
      | step _ hstep hruns =>
        cases hstep
        exact .inr hruns

end Runs

/-! ### Tasks in a row -/

/-- What goes on, and then another task that depends on its result. -/
def bind : Activity ρ → (ρ → Task ρ) → Activity ρ
  | .settled (.ok result), f => .ready (f result)
  | .settled (.error error), _ => .settled (.error error)
  | .ready task, f => .ready (task.bind f)
  | .waiting reply next, f => .waiting reply fun reply => (next reply).bind f
  | .joined how results slots queue next, f =>
    .joined how results slots queue fun results => (next results).bind f

end Activity

/-- After it has looked, a task does not begin with a look. -/
theorem Task.heed_ne_look : (task : Task ρ) → (next : Bool → Task ρ) →
    task.heed cancelled ≠ .look next
  | .look more, next => heed_ne_look (more cancelled) next
  | .done _, _ | .fail _, _ | .ask _ _, _ | .join _ _ _, _ => nofun

theorem Task.heed_heed (cancelled other : Bool) : (task : Task ρ) →
    (task.heed cancelled).heed other = task.heed cancelled
  | .look next => heed_heed cancelled other (next cancelled)
  | .done _ | .fail _ | .ask _ _ | .join _ _ _ => rfl

theorem Task.heed_bind (cancelled : Bool) (f : ρ → Task ρ) : (task : Task ρ) →
    (task.bind f).heed cancelled =
      match task.heed cancelled with
      | .done result => (f result).heed cancelled
      | other => other.bind f
  | .look next => heed_bind cancelled f (next cancelled)
  | .done _ | .fail _ | .ask _ _ | .join _ _ _ => rfl

namespace Activity

variable {a b : Activity ρ} {log : Log}

/-- The first step of a task that has looked is one of the task itself. -/
theorem Step.of_heed {task : Task ρ} {other : Bool}
    (h : Step other (.ready (task.heed cancelled)) log a) : Step cancelled (.ready task) log a := by
  cases h with
  | done htask => exact .done ((task.heed_heed cancelled other).symm.trans htask)
  | fail htask => exact .fail ((task.heed_heed cancelled other).symm.trans htask)
  | ask htask reply => exact .ask ((task.heed_heed cancelled other).symm.trans htask) reply
  | all htask => exact .all ((task.heed_heed cancelled other).symm.trans htask)
  | window htask => exact .window ((task.heed_heed cancelled other).symm.trans htask)

/-- A task that settles has first looked whether it has been cancelled. -/
theorem Runs.settled_iff_heed {task : Task ρ} {outcome : Except ExecutionError ρ} :
    Runs cancellable (.ready task) log (.settled outcome) ↔
      ∃ cancelled, (cancelled = true → cancellable = true) ∧
        Runs cancellable (.ready (task.heed cancelled)) log (.settled outcome) := by
  constructor
  · intro h
    cases h with
    | @step cancelled _ _ _ _ _ hcancelled hstep hruns =>
      exact ⟨cancelled, hcancelled,
        .step hcancelled (hstep.of_heed_eq (task.heed_heed cancelled cancelled)) hruns⟩
  · rintro ⟨cancelled, hcancelled, h⟩
    cases h with
    | step _ hstep hruns => exact .step hcancelled hstep.of_heed hruns

/-- A step of tasks in a row is one of the first, or the first is done and it is one of the
second. -/
theorem Step.of_bind {f : ρ → Task ρ} (h : Step cancelled (a.bind f) log b) :
    (∃ a', Step cancelled a log a' ∧ b = a'.bind f) ∨
      ∃ result, (a = .settled (.ok result) ∨ Step cancelled a [] (.settled (.ok result))) ∧
        Step cancelled (.ready (f result)) log b := by
  cases a with
  | settled outcome =>
    cases outcome with
    | ok result => exact .inr ⟨result, .inl rfl, h⟩
    | error error => exact nomatch h
  | ready task =>
    have hbind := Task.heed_bind cancelled f task
    cases htask : task.heed cancelled with
    | done result =>
      rw [htask] at hbind
      exact .inr ⟨result, .inr (.done htask), h.of_heed_eq hbind.symm⟩
    | look next => exact absurd htask (task.heed_ne_look next)
    | fail error =>
      rw [htask] at hbind
      have hfail : Step cancelled (.ready (.fail error)) log b := h.of_heed_eq hbind.symm
      cases hfail with
      | fail heq =>
        cases heq
        exact .inl ⟨_, .fail htask, rfl⟩
      | done heq | ask heq | all heq | window heq => exact nomatch heq
    | ask request next =>
      rw [htask] at hbind
      have hask : Step cancelled (.ready (.ask request fun reply => (next reply).bind f)) log b :=
        h.of_heed_eq hbind.symm
      cases hask with
      | ask heq reply =>
        cases heq
        exact .inl ⟨_, .ask htask reply, rfl⟩
      | done heq | fail heq | all heq | window heq => exact nomatch heq
    | join how parts next =>
      rw [htask] at hbind
      have hjoin : Step cancelled (.ready (.join how parts fun results => (next results).bind f))
        log b := h.of_heed_eq hbind.symm
      cases hjoin with
      | all heq =>
        cases heq
        exact .inl ⟨_, .all htask, rfl⟩
      | window heq =>
        cases heq
        exact .inl ⟨_, .window htask, rfl⟩
      | done heq | fail heq | ask heq => exact nomatch heq
  | waiting reply next =>
    cases h
    exact .inl ⟨_, .reply reply next, rfl⟩
  | joined how results slots queue next =>
    cases h with
    | part hslot => exact .inl ⟨_, .part hslot, rfl⟩
    | allFailed hslot => exact .inl ⟨_, .allFailed hslot, rfl⟩
    | allDone => exact .inl ⟨_, .allDone, rfl⟩
    | release => exact .inl ⟨_, .release, rfl⟩
    | windowFailed => exact .inl ⟨_, .windowFailed, rfl⟩
    | broken hslot => exact .inl ⟨_, .broken hslot, rfl⟩
    | enter hroom => exact .inl ⟨_, .enter hroom, rfl⟩
    | windowDone => exact .inl ⟨_, .windowDone, rfl⟩

/-- **Tasks in a row.** Either the first is still going on, or it has a result and the second has
been started. -/
theorem Runs.of_bind {f : ρ → Task ρ} (h : Runs cancellable (a.bind f) log b) :
    (∃ a', Runs cancellable a log a' ∧ b = a'.bind f) ∨
      ∃ first result rest, log = first ++ rest ∧
        Runs cancellable a first (.settled (.ok result)) ∧
        Runs cancellable (.ready (f result)) rest b := by
  generalize hstart : a.bind f = start at h
  induction h generalizing a with
  | refl => exact .inl ⟨a, .refl a, hstart.symm⟩
  | @step cancelled start middle last log rest hcancelled hstep hruns ih =>
    subst hstart
    obtain ⟨a', ha, rfl⟩ | ⟨result, ha, hresult⟩ := hstep.of_bind
    · obtain ⟨b', hb, rfl⟩ | ⟨first, result, others, rfl, hb, hothers⟩ := ih rfl
      · exact .inl ⟨b', .step hcancelled ha hb, rfl⟩
      · exact .inr ⟨_, result, others, (List.append_assoc ..).symm, .step hcancelled ha hb, hothers⟩
    · refine .inr ⟨[], result, _, rfl, ?_, .step hcancelled hresult hruns⟩
      rcases ha with rfl | ha
      · exact .refl _
      · exact .single hcancelled ha

/-- Tasks in a row that have settled. -/
theorem Runs.of_bind_settled {task : Task ρ} {f : ρ → Task ρ} {outcome : Except ExecutionError ρ}
    (h : Runs cancellable (.ready (task.bind f)) log (.settled outcome)) :
    (∃ error, outcome = .error error ∧
      Runs cancellable (.ready task) log (.settled (.error error))) ∨
      ∃ first result rest, log = first ++ rest ∧
        Runs cancellable (.ready task) first (.settled (.ok result)) ∧
        Runs cancellable (.ready (f result)) rest (.settled outcome) := by
  have hbind : Runs cancellable ((Activity.ready task).bind f) log (.settled outcome) := h
  refine hbind.of_bind.imp_left ?_
  rintro ⟨a, ha, heq⟩
  cases a with
  | settled last =>
    cases last with
    | ok result => exact nomatch heq
    | error error =>
      cases heq
      exact ⟨error, rfl, ha⟩
  | _ => exact nomatch heq

end Activity

/-! ### Tasks side by side -/

namespace Activity

/-- What tasks with the given results are in the course of. -/
abbrev yields (results : List ρ) : List (Activity ρ) :=
  results.map fun result => .settled (.ok result)

/-- Tasks side by side, each with a run of its own. The requests are those of all runs, in some
order. -/
inductive Each (cancellable : Bool) : List (Task ρ) → Log → List (Activity ρ) → Prop
  | nil : Each cancellable [] [] []
  | cons {task : Task ρ} {tasks : List (Task ρ)} {log rest whole : Log} {a : Activity ρ}
      {others : List (Activity ρ)} (hruns : Runs cancellable (.ready task) log a)
      (hrest : Each cancellable tasks rest others) (hlog : whole.Perm (log ++ rest)) :
      Each cancellable (task :: tasks) whole (a :: others)

namespace Each

variable {tasks others : List (Task ρ)} {log log' : Log} {states states' : List (Activity ρ)}

/-- Tasks that have not taken a step. -/
theorem start (cancellable : Bool) (tasks : List (Task ρ)) :
    Each cancellable tasks [] (tasks.map .ready) := by
  induction tasks with
  | nil => exact .nil
  | cons task tasks ih => exact .cons (.refl _) ih (.refl _)

theorem perm (h : Each cancellable tasks log states) (hlog : log'.Perm log) :
    Each cancellable tasks log' states := by
  cases h with
  | nil =>
    rw [hlog.eq_nil]
    exact .nil
  | cons hruns hrest hwhole => exact .cons hruns hrest (hlog.trans hwhole)

theorem append (h : Each cancellable tasks log states) (h' : Each cancellable others log' states') :
    Each cancellable (tasks ++ others) (log ++ log') (states ++ states') := by
  induction h with
  | nil => exact h'
  | cons hruns _ hlog ih =>
    refine .cons hruns ih ?_
    rw [← List.append_assoc]
    exact hlog.append_right _

theorem of_append (h : Each cancellable tasks log (states ++ states')) :
    ∃ front back first last, tasks = front ++ back ∧ log.Perm (first ++ last) ∧
      Each cancellable front first states ∧ Each cancellable back last states' := by
  induction states generalizing tasks log with
  | nil => exact ⟨[], tasks, [], log, rfl, .refl _, .nil, h⟩
  | cons state states ih =>
    cases h with
    | cons hruns hrest hlog =>
      obtain ⟨front, back, first, last, rfl, hperm, hfront, hback⟩ := ih hrest
      refine ⟨_ :: front, back, _, last, rfl, ?_, .cons hruns hfront (.refl _), hback⟩
      rw [List.append_assoc]
      exact hlog.trans (hperm.append_left _)

/-- A step of one of the tasks. -/
theorem step {front back : List (Activity ρ)} {a b : Activity ρ}
    (h : Each cancellable tasks log (front ++ a :: back))
    (hcancelled : cancelled = true → cancellable = true) (hstep : Step cancelled a log' b) :
    Each cancellable tasks (log ++ log') (front ++ b :: back) := by
  obtain ⟨_, _, first, last, rfl, hlog, hfront, hback⟩ := h.of_append
  cases hback with
  | @cons task tasks alone rest _ _ _ hruns hrest hlast =>
    refine (hfront.append (.cons (hruns.trans (.single hcancelled hstep)) hrest (.refl _))).perm ?_
    have hmove : (rest ++ log').Perm (log' ++ rest) := List.perm_append_comm
    refine ((hlog.trans (hlast.append_left _)).append_right _).trans ?_
    simp only [List.append_assoc]
    exact (hmove.append_left _).append_left _

theorem exists_of_mem (h : Each cancellable tasks log states) {a : Activity ρ} (ha : a ∈ states) :
    ∃ task ∈ tasks, ∃ part, part.Subperm log ∧ Runs cancellable (.ready task) part a := by
  induction h with
  | nil => exact nomatch ha
  | cons hruns _ hlog ih =>
    obtain rfl | ha := List.mem_cons.1 ha
    · refine ⟨_, List.mem_cons_self, _, ?_, hruns⟩
      exact (List.sublist_append_left _ _).subperm.trans hlog.symm.subperm
    · obtain ⟨task, htask, part, hpart, hruns⟩ := ih ha
      refine ⟨task, List.mem_cons_of_mem _ htask, part, ?_, hruns⟩
      exact hpart.trans ((List.sublist_append_right _ _).subperm.trans hlog.symm.subperm)

end Each

/-! ### Joins -/

/-- What is kept apart while a join goes on: everything has been started, or no more than the
window has room for. -/
def Holds (results : List ρ) (slots : List (Activity ρ)) (queue : List (Task ρ)) : Join → Prop
  | .all => results = [] ∧ queue = []
  | .window width => slots.length ≤ width

/-- How far a join has come with the given requests. -/
inductive Joined (cancellable : Bool) (how : Join) (parts : List (Task ρ))
    (next : List ρ → Task ρ) : Log → Activity ρ → Prop
  | start : Joined cancellable how parts next [] (.ready (.join how parts next))
  /-- The foremost parts have results, those after them go on, and the last ones wait. -/
  | going {started queue : List (Task ρ)} {results : List ρ} {slots : List (Activity ρ)} {log : Log}
      (hparts : parts = started ++ queue)
      (heach : Each cancellable started log (yields results ++ slots))
      (hholds : Holds results slots queue how) :
      Joined cancellable how parts next log (.joined how results slots queue next)
  /-- One of the parts has failed; in a window it is the foremost one without a result, unless the
  program has broken off. -/
  | failed {started queue : List (Task ρ)} {front back : List (Activity ρ)} {log : Log}
      {error : ExecutionError} (hparts : parts = started ++ queue)
      (heach : Each cancellable started log (front ++ .settled (.error error) :: back))
      (hfront : how = .all ∨ (∃ results, front = yields results) ∨ error = .overflow) :
      Joined cancellable how parts next log (.settled (.error error))
  /-- All parts have results, and the task goes on with them. -/
  | finished {results : List ρ} {log rest : Log} {b : Activity ρ}
      (heach : Each cancellable parts log (yields results))
      (hrest : Runs cancellable (.ready (next results)) rest b) :
      Joined cancellable how parts next (log ++ rest) b

/-- A step of a join. -/
theorem Joined.step {how : Join} {parts : List (Task ρ)} {next : List ρ → Task ρ} {log log' : Log}
    {a b : Activity ρ} (h : Joined cancellable how parts next log a)
    (hcancelled : cancelled = true → cancellable = true) (hstep : Step cancelled a log' b) :
    Joined cancellable how parts next (log ++ log') b := by
  cases h with
  | start =>
    cases hstep with
    | done htask | fail htask | ask htask => exact nomatch htask
    | all htask =>
      cases htask
      exact .going (List.append_nil parts).symm (.start cancellable parts) ⟨rfl, rfl⟩
    | window htask =>
      cases htask
      exact .going rfl .nil (Nat.zero_le _)
  | @going started queue results slots log hparts heach hholds =>
    cases hstep with
    | part hslot =>
      refine .going hparts ?_ ?_
      · rw [← List.append_assoc] at heach ⊢
        exact heach.step hcancelled hslot
      · cases how with
        | all => exact hholds
        | window width =>
          rw [Holds, List.length_append, List.length_cons] at hholds ⊢
          exact hholds
    | allFailed hslot =>
      obtain ⟨front, back, rfl⟩ := List.append_of_mem hslot
      obtain ⟨rfl, -⟩ := hholds
      rw [List.append_nil]
      exact .failed hparts heach (.inl rfl)
    | allDone =>
      obtain ⟨rfl, rfl⟩ := hholds
      rw [List.append_nil] at hparts
      subst hparts
      exact .finished heach (.refl _)
    | release =>
      rw [List.append_nil]
      refine .going hparts ?_ (Nat.le_of_succ_le hholds)
      rw [yields, List.map_append, List.append_assoc]
      exact heach
    | windowFailed =>
      rw [List.append_nil]
      exact .failed hparts heach (.inr (.inl ⟨_, rfl⟩))
    | broken hslot =>
      obtain ⟨front, back, rfl⟩ := List.append_of_mem hslot
      rw [← List.append_assoc] at heach
      rw [List.append_nil]
      exact .failed hparts heach (.inr (.inr rfl))
    | @enter _ _ _ task queue _ hroom =>
      refine .going (hparts.trans (List.append_assoc _ [task] queue).symm) ?_ ?_
      · have hboth := heach.append (.start cancellable [task])
        rwa [List.append_assoc] at hboth
      · rw [Holds, List.length_append]
        exact hroom
    | windowDone =>
      rw [List.append_nil] at hparts heach
      subst hparts
      exact .finished heach (.refl _)
  | failed => exact nomatch hstep
  | finished heach hrest =>
    rw [List.append_assoc]
    exact .finished heach (hrest.trans (.single hcancelled hstep))

/-- **Runs of joins.** -/
theorem Runs.joined {how : Join} {parts : List (Task ρ)} {next : List ρ → Task ρ} {log : Log}
    {b : Activity ρ} (h : Runs cancellable (.ready (.join how parts next)) log b) :
    Joined cancellable how parts next log b := by
  have hgrows {a b : Activity ρ} {log' : Log} (h : Runs cancellable a log' b) {log : Log}
      (ha : Joined cancellable how parts next log a) :
      Joined cancellable how parts next (log ++ log') b := by
    induction h generalizing log with
    | refl => rwa [List.append_nil]
    | step hcancelled hstep _ ih =>
      rw [← List.append_assoc]
      exact ih (ha.step hcancelled hstep)
  exact hgrows h .start

/-! ### One after the other -/

/-- Tasks are carried out up to one that fails. -/
inductive FirstFails (cancellable : Bool) (tasks : List (Task ρ)) (log : Log)
    (error : ExecutionError) : Prop
  | intro {before after : List (Task ρ)} {task : Task ρ} {results : List ρ} {first last : Log}
      (htasks : tasks = before ++ task :: after)
      (hbefore : Each cancellable before first (yields results))
      (htask : Runs cancellable (.ready task) last (.settled (.error error)))
      (hlog : log.Perm (first ++ last)) : FirstFails cancellable tasks log error

theorem FirstFails.head {task : Task ρ} {log : Log} {error : ExecutionError}
    (h : Runs cancellable (.ready task) log (.settled (.error error))) (tasks : List (Task ρ)) :
    FirstFails cancellable (task :: tasks) log error := by
  have hnone : Each cancellable [] [] (yields ([] : List ρ)) := .nil
  exact .intro rfl hnone h (.refl _)

theorem FirstFails.cons {task : Task ρ} {tasks : List (Task ρ)} {log rest : Log} {result : ρ}
    {error : ExecutionError} (h : Runs cancellable (.ready task) log (.settled (.ok result)))
    (hrest : FirstFails cancellable tasks rest error) :
    FirstFails cancellable (task :: tasks) (log ++ rest) error := by
  cases hrest with
  | @intro before after failing results first last htasks hbefore htask hlog =>
    have hmore : Each cancellable (task :: before) (log ++ first) (yields (result :: results)) :=
      .cons h hbefore (.refl _)
    refine .intro (congrArg (task :: ·) htasks) hmore htask ?_
    rw [List.append_assoc]
    exact hlog.append_left log

/-- Parts of a window can be carried out one after the other. -/
theorem Each.in_turn {tasks : List (Task ρ)} {log : Log} {results : List ρ}
    (h : Each cancellable tasks log (yields results)) {width : Nat} (hwidth : 0 < width)
    (taken : List ρ) (queue : List (Task ρ)) (next : List ρ → Task ρ) :
    ∃ log', log'.Perm log ∧
      Runs cancellable (.joined (.window width) taken [] (tasks ++ queue) next) log'
        (.joined (.window width) (taken ++ results) [] queue next) := by
  induction tasks generalizing log results taken with
  | nil =>
    cases results with
    | nil =>
      cases h
      rw [List.append_nil]
      exact ⟨[], .refl _, .refl _⟩
    | cons result results => exact nomatch h
  | cons task tasks ih =>
    cases results with
    | nil => exact nomatch h
    | cons result results =>
      cases h with
      | @cons _ _ first rest _ _ _ hruns hrest hlog =>
        obtain ⟨log', hperm, hothers⟩ := ih hrest (taken ++ [result])
        rw [List.append_assoc] at hothers
        have hfirst := (hruns.part (.window width) taken [] [] (tasks ++ queue) next).trans
          (.quiet .release hothers)
        exact ⟨first ++ log', (hperm.append_left _).trans hlog.symm, .quiet (.enter hwidth) hfirst⟩

variable {width : Nat} {parts : List (Task ρ)} {next : List ρ → Task ρ} {log : Log}
  {outcome : Except ExecutionError ρ}

/-- **Windows that have settled.** All parts have results and the task has gone on with them, or the
first part that fails decides, or the program has broken off in one of the parts. -/
theorem Runs.of_window
    (h : Runs cancellable (.ready (.join (.window width) parts next)) log (.settled outcome)) :
    (∃ results first rest, log = first ++ rest ∧ Each cancellable parts first (yields results) ∧
      Runs cancellable (.ready (next results)) rest (.settled outcome)) ∨
    (∃ error first, outcome = .error error ∧ FirstFails cancellable parts first error ∧
      first.Subperm log) ∨
    outcome = .error .overflow ∧ ∃ part ∈ parts, ∃ first, first.Subperm log ∧
      Runs cancellable (.ready part) first (.settled (.error .overflow)) := by
  generalize hlast : Activity.settled outcome = b at h
  cases h.joined with
  | start | going => exact nomatch hlast
  | @failed started queue front back _ error hparts heach hfront =>
    cases hlast
    obtain ⟨results, rfl⟩ | rfl := hfront.resolve_left nofun
    rotate_left
    · obtain ⟨part, hpart, first, hfirst, hruns⟩ :=
        heach.exists_of_mem (List.mem_append_right _ List.mem_cons_self)
      exact .inr (.inr ⟨rfl, part, hparts ▸ List.mem_append_left queue hpart, first, hfirst, hruns⟩)
    obtain ⟨before, rest, first, last, rfl, hlog, hbefore, hrest⟩ := heach.of_append
    cases hrest with
    | @cons task tasks alone others _ _ _ hruns _ hlast =>
      refine .inr (.inl ⟨error, first ++ alone, rfl, ?_, ?_⟩)
      · rw [List.append_assoc, List.cons_append] at hparts
        exact .intro hparts hbefore hruns (.refl _)
      · have hall := hlog.trans (hlast.append_left first)
        rw [← List.append_assoc] at hall
        exact (List.sublist_append_left _ _).subperm.trans hall.symm.subperm
  | finished heach hrest =>
    cases hlast
    exact .inl ⟨_, _, _, rfl, heach, hrest⟩

/-- A window whose parts have been carried out one after the other. -/
theorem Each.window_in_turn {results : List ρ} {first rest : Log}
    (h : Each cancellable parts first (yields results)) (hwidth : 0 < width)
    (next : List ρ → Task ρ)
    (hnext : Runs cancellable (.ready (next results)) rest (.settled outcome)) :
    ∃ log', log'.Perm (first ++ rest) ∧
      Runs cancellable (.ready (.join (.window width) parts next)) log' (.settled outcome) := by
  obtain ⟨log', hperm, hruns⟩ := h.in_turn hwidth [] [] next
  rw [List.append_nil, List.nil_append] at hruns
  have hends := hruns.trans (.quiet .windowDone hnext)
  exact ⟨log' ++ rest, hperm.append_right rest, .quiet (.window rfl) hends⟩

/-- A window whose parts have been carried out one after the other up to one that fails. -/
theorem FirstFails.window_in_turn {error : ExecutionError} {first : Log}
    (h : FirstFails cancellable parts first error) (hwidth : 0 < width) (next : List ρ → Task ρ) :
    ∃ log', log'.Perm first ∧
      Runs cancellable (.ready (.join (.window width) parts next)) log'
        (.settled (.error error)) := by
  cases h with
  | @intro before after task results front last htasks hbefore htask hperm =>
  subst htasks
  obtain ⟨log', hperm', hruns⟩ := hbefore.in_turn hwidth [] (task :: after) next
  have hpart := (htask.part (.window width) results [] [] after next).trans
    (.quiet .windowFailed (.refl _))
  rw [List.append_nil] at hpart
  have hends := hruns.trans (.quiet (.enter hwidth) hpart)
  exact ⟨log' ++ last, (hperm'.append_right last).trans hperm.symm, .quiet (.window rfl) hends⟩

end Activity

end FederatedQuery
