import FederatedQuery.Execution.Computation
import FederatedQuery.Proofs.Activity

/-!
# Computations end

Whatever backends reply and in which order ever the parts of a task take their steps, the steps come
to an end, and then there is an outcome. For a task is a tree, of which each step leaves a part
behind; and a task that is not settled can go on, as long as there is room for a part in each
window.

## Main definitions

* `Activity.Ends`: all steps come to an end with an outcome.
* `Task.HasRoom`: there is room for a part in each window of a task.

## Main results

* `Activity.Ends.joined`: parts that go on side by side.
* `Task.HasRoom.ends`: tasks come to an end.
* `Plan.hasRoom_run`, `Context.hasRoom_introspect`: the tasks of computations have room.
-/

namespace FederatedQuery

variable {ρ : Type}

namespace Activity

/-- As long as there is no outcome a step can be taken, and whichever steps are taken, they come to
an end. -/
inductive Ends : Activity ρ → Prop
  | settled (outcome : Except ExecutionError ρ) : Ends (.settled outcome)
  | step {a : Activity ρ} (hgoes : ∀ cancelled, ∃ log b, Step cancelled a log b)
      (hends : ∀ cancelled log b, Step cancelled a log b → Ends b) : Ends a

/-- The activity has an outcome or can take a step. -/
def GoesOn (a : Activity ρ) : Prop :=
  (∃ outcome, a = .settled outcome) ∨ ∀ cancelled, ∃ log b, Step cancelled a log b

variable {a b : Activity ρ} {slots : List (Activity ρ)}

theorem Ends.goesOn (h : a.Ends) : a.GoesOn := by
  cases h with
  | settled outcome => exact .inl ⟨outcome, rfl⟩
  | step hgoes _ => exact .inr hgoes

theorem Ends.of_step (h : a.Ends) {cancelled : Bool} {log : Log} (hstep : Step cancelled a log b) :
    b.Ends := by
  cases h with
  | settled outcome => exact nomatch hstep
  | step _ hends => exact hends cancelled log b hstep

/-! ### Parts -/

/-- Steps of parts, and the removal of foremost parts, come to an end. -/
inductive SlotsEnd : List (Activity ρ) → Prop
  | intro {slots : List (Activity ρ)}
      (hstep : ∀ front slot back cancelled log slot', slots = front ++ slot :: back →
        Step cancelled slot log slot' → SlotsEnd (front ++ slot' :: back))
      (htail : ∀ first rest, slots = first :: rest → SlotsEnd rest) : SlotsEnd slots

theorem SlotsEnd.cons (ha : a.Ends) (hslots : SlotsEnd slots) : SlotsEnd (a :: slots) := by
  have hhead (a : Activity ρ) (h : ∀ cancelled log b, Step cancelled a log b →
      ∀ slots, SlotsEnd slots → SlotsEnd (b :: slots)) {slots : List (Activity ρ)}
      (hslots : SlotsEnd slots) : SlotsEnd (a :: slots) := by
    induction hslots with
    | @intro slots hstep htail ih =>
      refine .intro (fun front slot back cancelled log slot' heq hslot => ?_)
        fun first rest heq => (List.cons.inj heq).2 ▸ .intro hstep htail
      cases front with
      | nil =>
        obtain ⟨rfl, rfl⟩ := List.cons.inj heq
        exact h cancelled log slot' hslot slots (.intro hstep htail)
      | cons first front =>
        obtain ⟨rfl, hrest⟩ := List.cons.inj heq
        exact ih front slot back cancelled log slot' hrest hslot
  induction ha generalizing slots with
  | settled outcome => exact hhead (.settled outcome) (fun _ _ _ hstep => nomatch hstep) hslots
  | step _ _ ih => exact hhead _ (fun cancelled log b hstep _ => ih cancelled log b hstep) hslots

theorem slotsEnd (h : ∀ slot ∈ slots, slot.Ends) : SlotsEnd slots := by
  induction slots with
  | nil =>
    exact .intro (fun front slot back _ _ _ heq => by cases front <;> exact nomatch heq) nofun
  | cons slot slots ih =>
    obtain ⟨hslot, hslots⟩ := List.forall_mem_cons.1 h
    exact .cons hslot (ih hslots)

/-- Parts that all go on can take a step, or one has failed, or all have results. -/
theorem goesOn_slots (h : ∀ slot ∈ slots, slot.GoesOn) :
    (∃ front slot back, slots = front ++ slot :: back ∧
        ∀ cancelled, ∃ log slot', Step cancelled slot log slot') ∨
      (∃ error, .settled (.error error) ∈ slots) ∨
      ∃ done : List ρ, slots = done.map fun result => .settled (.ok result) := by
  induction slots with
  | nil => exact .inr (.inr ⟨[], rfl⟩)
  | cons slot slots ih =>
    obtain ⟨hslot, hslots⟩ := List.forall_mem_cons.1 h
    rcases hslot with ⟨error | result, rfl⟩ | hstep
    · exact .inr (.inl ⟨error, List.mem_cons_self⟩)
    · rcases ih hslots with ⟨front, next, back, rfl, hstep⟩ | ⟨error, herror⟩ | ⟨done, rfl⟩
      · exact .inl ⟨_ :: front, next, back, rfl, hstep⟩
      · exact .inr (.inl ⟨error, List.mem_cons_of_mem _ herror⟩)
      · exact .inr (.inr ⟨result :: done, rfl⟩)
    · exact .inl ⟨[], slot, slots, rfl, hstep⟩

end Activity

/-- There is room for a part. -/
def Join.HasRoom : Join → Prop
  | .all => True
  | .window width => 0 < width

namespace Activity

variable {how : Join} {queue : List (Task ρ)} {next : List ρ → Task ρ}

/-- Parts that go on side by side can go on, or those that have not been started can be. -/
theorem goesOn_joined (hroom : how.HasRoom) (results : List ρ)
    (hslots : ∀ slot ∈ slots, slot.GoesOn) (cancelled : Bool) :
    ∃ log b, Step cancelled (.joined how results slots queue next) log b := by
  cases how with
  | all =>
    rcases goesOn_slots hslots with ⟨front, slot, back, rfl, hstep⟩ | ⟨error, herror⟩ | ⟨done, rfl⟩
    · obtain ⟨log, slot', hslot⟩ := hstep cancelled
      exact ⟨log, _, .part hslot⟩
    · exact ⟨[], _, .allFailed herror⟩
    · exact ⟨[], _, .allDone⟩
  | window width =>
    cases slots with
    | nil =>
      cases queue with
      | nil => exact ⟨[], _, .windowDone⟩
      | cons task queue => exact ⟨[], _, .enter hroom⟩
    | cons slot slots =>
      rcases (List.forall_mem_cons.1 hslots).1 with ⟨error | result, rfl⟩ | hstep
      · exact ⟨[], _, .windowFailed⟩
      · exact ⟨[], _, .release⟩
      · obtain ⟨log, slot', hslot⟩ := hstep cancelled
        have hstep :
            Step cancelled (.joined (.window width) results ([] ++ slot :: slots) queue next) log
              (.joined (.window width) results ([] ++ slot' :: slots) queue next) := .part hslot
        exact ⟨log, _, hstep⟩

/-- Parts that go on side by side come to an end if they do after the next part is started. -/
theorem SlotsEnd.ends (hroom : how.HasRoom) (hnext : ∀ results, Ends (.ready (next results)))
    (henter : ∀ task rest, queue = task :: rest → ∀ results slots, (∀ slot ∈ slots, Ends slot) →
      Ends (.joined how results (slots ++ [.ready task]) rest next))
    (hend : SlotsEnd slots) (hslots : ∀ slot ∈ slots, slot.Ends) (results : List ρ) :
    Ends (.joined how results slots queue next) := by
  induction hend generalizing results with
  | @intro slots _ _ ihstep ihtail =>
    refine .step (goesOn_joined hroom results fun slot hslot => (hslots slot hslot).goesOn)
      fun cancelled log b hstep => ?_
    cases hstep with
    | @part _ _ front back slot slot' _ _ _ hslot =>
      refine ihstep front slot back cancelled log slot' rfl hslot (fun other hother => ?_) results
      rcases List.mem_append.1 hother with hfront | hrest
      · exact hslots other (List.mem_append_left _ hfront)
      rcases List.mem_cons.1 hrest with rfl | hback
      · exact (hslots slot (List.mem_append_right _ List.mem_cons_self)).of_step hslot
      · exact hslots other (List.mem_append_right _ (List.mem_cons_of_mem _ hback))
    | allFailed hslot => exact .settled _
    | allDone => exact hnext _
    | @release _ _ result rest =>
      exact ihtail _ rest rfl (List.forall_mem_cons.1 hslots).2 (results ++ [result])
    | windowFailed | broken => exact .settled _
    | enter _ => exact henter _ _ rfl results slots hslots
    | windowDone => exact hnext _

/-- **Parts that go on side by side come to an end.** -/
theorem Ends.joined (hroom : how.HasRoom) (hnext : ∀ results, Ends (.ready (next results)))
    (hqueue : ∀ task ∈ queue, Ends (.ready task)) (hslots : ∀ slot ∈ slots, slot.Ends)
    (results : List ρ) : Ends (.joined how results slots queue next) := by
  induction queue generalizing slots results with
  | nil =>
    have hempty (task : Task ρ) (rest : List (Task ρ)) : [] ≠ task :: rest := nofun
    exact (slotsEnd hslots).ends hroom hnext (fun task rest heq => absurd heq (hempty task rest))
      hslots results
  | cons task queue ih =>
    obtain ⟨htask, hqueue⟩ := List.forall_mem_cons.1 hqueue
    refine (slotsEnd hslots).ends hroom hnext (fun first rest heq results slots hslots => ?_) hslots
      results
    obtain ⟨rfl, rfl⟩ := List.cons.inj heq
    exact ih hqueue (List.forall_mem_append.2 ⟨hslots, List.forall_mem_singleton.2 htask⟩) results

end Activity

/-! ### Tasks -/

/-- There is room for a part in each window of the task. -/
inductive Task.HasRoom : Task ρ → Prop
  | done (result : ρ) : HasRoom (.done result)
  | fail (error : ExecutionError) : HasRoom (.fail error)
  | ask {request : Request} {next : Reply → Task ρ} (hnext : ∀ reply, HasRoom (next reply)) :
      HasRoom (.ask request next)
  | look {next : Bool → Task ρ} (hnext : ∀ cancelled, HasRoom (next cancelled)) :
      HasRoom (.look next)
  | join {how : Join} {parts : List (Task ρ)} {next : List ρ → Task ρ} (hroom : how.HasRoom)
      (hparts : ∀ part ∈ parts, HasRoom part) (hnext : ∀ results, HasRoom (next results)) :
      HasRoom (.join how parts next)

namespace Activity

/-- What is left of a task after its first step comes to an end. -/
def EndsAfter : Task ρ → Prop
  | .done _ | .fail _ => True
  | .ask _ next => ∀ reply, Ends (.ready (next reply))
  | .look _ => False
  | .join .all parts next => Ends (.joined .all [] (parts.map .ready) [] next)
  | .join (.window width) parts next => Ends (.joined (.window width) [] [] parts next)

theorem Ends.waiting (reply : Reply) {next : Reply → Task ρ} (h : Ends (.ready (next reply))) :
    Ends (.waiting reply next) := by
  refine .step (fun _ => ⟨[], _, .reply reply next⟩) fun cancelled log b hstep => ?_
  cases hstep with
  | reply => exact h

theorem Ends.ready {task : Task ρ} (h : ∀ cancelled, EndsAfter (task.heed cancelled)) :
    Ends (.ready task) := by
  refine .step (fun cancelled => ?_) fun cancelled log b hstep => ?_
  · have hafter := h cancelled
    revert hafter
    rcases htask : task.heed cancelled with result | error | ⟨request, next⟩ | next |
      ⟨_ | width, parts, next⟩
    · exact fun _ => ⟨[], _, .done htask⟩
    · exact fun _ => ⟨[], _, .fail htask⟩
    · exact fun _ => ⟨_, _, .ask htask []⟩
    · exact False.elim
    · exact fun _ => ⟨[], _, .all htask⟩
    · exact fun _ => ⟨[], _, .window htask⟩
  · have hafter := h cancelled
    cases hstep with
    | done _ => exact .settled _
    | fail _ => exact .settled _
    | ask htask reply =>
      rw [htask] at hafter
      exact .waiting reply (hafter reply)
    | all htask =>
      rw [htask] at hafter
      exact hafter
    | window htask =>
      rw [htask] at hafter
      exact hafter

/-- A task that begins with a look comes to an end if what follows the look does. -/
theorem Ends.look {next : Bool → Task ρ} (h : ∀ cancelled, Ends (.ready (next cancelled))) :
    Ends (.ready (.look next)) := by
  refine .step (fun cancelled => ?_) fun cancelled log b hstep =>
    (h cancelled).of_step (hstep.of_heed_eq rfl)
  rcases (h cancelled).goesOn with ⟨outcome, houtcome⟩ | hgoes
  · exact nomatch houtcome
  · obtain ⟨log, b, hstep⟩ := hgoes cancelled
    exact ⟨log, b, hstep.of_heed_eq rfl⟩

end Activity

namespace Task.HasRoom

open Activity

/-- **Tasks come to an end.** -/
theorem ends {task : Task ρ} (h : task.HasRoom) : Ends (.ready task) := by
  induction h with
  | done result => exact .ready fun _ => trivial
  | fail error => exact .ready fun _ => trivial
  | ask _ ih => exact .ready fun _ => ih
  | look _ ih => exact .look ih
  | @join how parts next hroom _ _ ihparts ihnext =>
    refine .ready fun _ => ?_
    cases how with
    | all => exact .joined hroom ihnext (List.forall_mem_nil _) (List.forall_mem_map.2 ihparts) []
    | window width => exact .joined hroom ihnext ihparts (List.forall_mem_nil _) []

variable {ε α : Type}

theorem andThen (x : Exchange ε α) (failure : ε → ExecutionError) {next : α → Task ρ}
    (h : ∀ result, (next result).HasRoom) : (x.andThen failure next).HasRoom := by
  induction x with
  | done result => exact h result
  | fail error => exact .fail _
  | ask request rest ih => exact .ask ih
  | look rest ih => exact .look ih

theorem bind {task : Task ρ} (htask : task.HasRoom) {next : ρ → Task ρ}
    (h : ∀ result, (next result).HasRoom) : (task.bind next).HasRoom := by
  induction htask with
  | done result => exact h result
  | fail error => exact .fail error
  | ask _ ih => exact .ask ih
  | look _ ih => exact .look ih
  | join hroom hparts _ _ ih => exact .join hroom hparts ih

/-- There is room for all parts at once. -/
theorem together {parts : List (Task ρ)} {next : List ρ → Task ρ}
    (hparts : ∀ part ∈ parts, part.HasRoom) (hnext : ∀ results, (next results).HasRoom) :
    (Task.together parts next).HasRoom := by
  refine .join ?_ hparts hnext
  unfold Join.ofCount
  split
  · trivial
  · next hmany => exact Nat.zero_lt_of_lt (Nat.lt_of_not_le hmany)

end Task.HasRoom

/-! ### Computations -/

theorem Row.hasRoom_attach (row : Row) {tasks : List (String × Task Dataset)}
    (h : ∀ entry ∈ tasks, entry.2.HasRoom) : (row.attach tasks).HasRoom := by
  induction tasks generalizing row with
  | nil => exact .done _
  | cons entry tasks ih =>
    obtain ⟨hentry, htasks⟩ := List.forall_mem_cons.1 h
    exact hentry.bind fun rows => ih _ htasks

/-- **Patterns** have room for their parts. -/
theorem Pattern.hasRoom_run (config : Config) (p : Pattern) (scope : Scope) :
    (p.run config scope).HasRoom := by
  rw [run]
  refine .look fun cancelled => ?_
  split
  · exact .fail _
  split
  · exact .fail _
  refine .andThen _ _ fun rows => ?_
  split
  · exact .done _
  split
  · exact .done _
  refine .join (Nat.lt_of_lt_of_le Nat.zero_lt_one (Nat.le_max_right ..)) (fun part hpart => ?_)
    fun parts => .done _
  obtain ⟨row, -, rfl⟩ := List.mem_map.1 hpart
  refine row.hasRoom_attach fun entry hentry => ?_
  obtain ⟨⟨⟨name, nested⟩, hnested⟩, -, rfl⟩ := List.mem_map.1 hentry
  exact hasRoom_run config _ _
termination_by sizeOf p.applies
decreasing_by
  rw [forGroup_applies]
  exact sizeOf_applies_lt hnested

/-- **Plans** have room for their parts. -/
theorem Plan.hasRoom_run (config : Config) (plan : Plan) : (plan.run config).HasRoom := by
  cases plan with
  | value e =>
    rw [run]
    split
    · exact .fail _
    · exact .done _
  | dataset p => exact p.hasRoom_run config []
  | scalar p => exact p.hasRoom_run config []
  | pipeline seed steps =>
    refine .together (fun part hpart => ?_) fun answers => ?_
    · obtain ⟨p, -, rfl⟩ := List.mem_map.1 hpart
      exact p.hasRoom_run config _
    · split
      · exact .fail _
      · refine .together (fun part hpart => ?_) fun answers => .done _
        obtain ⟨p, -, rfl⟩ := List.mem_map.1 hpart
        exact p.2.hasRoom_run config _

/-- **Introspection** has room for its parts. -/
theorem Context.hasRoom_introspect (context : Context) (e : Expression) :
    (context.introspect e).HasRoom := by
  refine .together (fun part hpart => ?_) fun parts => .done _
  obtain ⟨entry, -, rfl⟩ := List.mem_map.1 hpart
  exact .andThen _ _ fun x => .done _

end FederatedQuery
