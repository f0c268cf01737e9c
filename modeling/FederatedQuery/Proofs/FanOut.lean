import FederatedQuery.Proofs.Nesting
import FederatedQuery.Proofs.Outcomes
import FederatedQuery.Proofs.Parts

/-!
# Nested patterns of rows

The nested patterns of a pattern are run once for each of its rows. Rows are worked on side by side
in a window, the nested patterns of one row one after the other. In whatever order their requests
are answered, what comes out is the same as if one row were worked on after the other: the rows in
their order, each with its own datasets, or the first failure of the first row that has one. Only if
the program breaks off in one of the rows, it does not wait for the rows before that one.

## Main definitions

* `Task.UpToWidths`: tasks that are the same but for how many parts go on at once.
* `Pattern.ownRows`, `Pattern.attachAll`: the task that computes the rows of a pattern, and the one
  that computes their nested patterns.
* `Row.filled`: a row with its datasets.
* `Answered`: rows whose nested patterns all have datasets.
* `Pattern.Attaches`: what the nested patterns of rows come to.

## Main results

* `Pattern.run_eq_bind`: the nested patterns in the task of a pattern.
* `Task.UpToWidths.run_eq`, `Task.UpToWidths.follows`: the order of replies and the widths of
  windows do not matter.
* `Row.of_attach`: the nested patterns of one row.
* `Pattern.run_settles`: those of all rows of a pattern.
-/

namespace FederatedQuery

open Activity

variable {cancellable : Bool}

/-- A task after an exchange, and then another one. -/
theorem Exchange.bind_andThen {ε α ρ : Type} (x : Exchange ε α) (failure : ε → ExecutionError)
    (next : α → Task ρ) (f : ρ → Task ρ) :
    (x.andThen failure next).bind f = x.andThen failure fun result => (next result).bind f := by
  induction x with
  | done result => rfl
  | fail error => rfl
  | ask request more ih => exact congrArg (Task.ask request) (funext ih)
  | look more ih => exact congrArg Task.look (funext ih)

/-! ### Windows of other widths -/

/-- Tasks that are the same but for the widths of their windows. All of their parts are joined by
windows, so that failures count in the order of the parts. -/
inductive Task.UpToWidths {ρ : Type} : Task ρ → Task ρ → Prop
  | done (result : ρ) : UpToWidths (.done result) (.done result)
  | fail (error : ExecutionError) : UpToWidths (.fail error) (.fail error)
  | ask {request : Request} {next next' : Reply → Task ρ}
      (hnext : ∀ reply, UpToWidths (next reply) (next' reply)) :
      UpToWidths (.ask request next) (.ask request next')
  | look {next next' : Bool → Task ρ}
      (hnext : ∀ cancelled, UpToWidths (next cancelled) (next' cancelled)) :
      UpToWidths (.look next) (.look next')
  | window {ι : Type} {width width' : Nat} {items : List ι} {part part' : ι → Task ρ}
      {next next' : List ρ → Task ρ} (hwidth : 0 < width')
      (hparts : ∀ item, UpToWidths (part item) (part' item))
      (hnext : ∀ results, UpToWidths (next results) (next' results)) :
      UpToWidths (.join (.window width) (items.map part) next)
        (.join (.window width') (items.map part') next')

/-- Whatever comes out of a task comes out of another one as well, by some of the same requests,
unless the program breaks off. -/
def Task.Follows {ρ : Type} (cancellable : Bool) (task task' : Task ρ) : Prop :=
  ∀ log outcome, Runs cancellable (.ready task) log (.settled outcome) →
    outcome ≠ .error .overflow →
      ∃ log', log'.Subperm log ∧ Runs cancellable (.ready task') log' (.settled outcome)

theorem Task.Follows.of_heed {ρ : Type} {task task' : Task ρ}
    (h : ∀ cancelled, Follows cancellable (task.heed cancelled) (task'.heed cancelled)) :
    Follows cancellable task task' := by
  intro log outcome hruns hwhole
  obtain ⟨cancelled, hcancelled, hheed⟩ := Runs.settled_iff_heed.1 hruns
  obtain ⟨log', hsub, hheed'⟩ := h cancelled log outcome hheed hwhole
  exact ⟨log', hsub, Runs.settled_iff_heed.2 ⟨cancelled, hcancelled, hheed'⟩⟩

namespace Task.UpToWidths

variable {ρ ι : Type} {task task' : Task ρ} {part part' : ι → Task ρ}

theorem bind {next next' : ρ → Task ρ} (h : task.UpToWidths task')
    (hnext : ∀ result, (next result).UpToWidths (next' result)) :
    (task.bind next).UpToWidths (task'.bind next') := by
  induction h with
  | done result => exact hnext result
  | fail error => exact .fail error
  | ask _ ih => exact .ask ih
  | look _ ih => exact .look ih
  | window hwidth hparts _ _ ih => exact .window hwidth hparts ih

theorem andThen {ε α : Type} (x : Exchange ε α) (failure : ε → ExecutionError)
    {next next' : α → Task ρ} (hnext : ∀ result, (next result).UpToWidths (next' result)) :
    (x.andThen failure next).UpToWidths (x.andThen failure next') := by
  induction x with
  | done result => exact hnext result
  | fail error => exact .fail _
  | ask request more ih => exact .ask ih
  | look more ih => exact .look ih

/-- Parts that have results have the same ones if they are carried out one after the other. -/
theorem mapM_run_of_each {answer : Request → Reply} {items : List ι} {log : Log} {results : List ρ}
    (hparts : ∀ item log result, Runs false (.ready (part item)) log (.settled (.ok result)) →
      (∀ entry ∈ log, entry.2 = answer entry.1) → (part' item).run answer = .ok result)
    (h : Each false (items.map part) log (yields results))
    (hlog : ∀ entry ∈ log, entry.2 = answer entry.1) :
    (items.map part').mapM (Task.run answer) = .ok results := by
  induction items generalizing log results with
  | nil =>
    cases results with
    | nil => rfl
    | cons result results => exact nomatch h
  | cons item items ih =>
    cases results with
    | nil => exact nomatch h
    | cons result results =>
      cases h with
      | @cons _ _ first rest _ _ _ hruns hrest hperm =>
        have hall (entry : Request × Reply) (h : entry ∈ first ++ rest) :
            entry.2 = answer entry.1 :=
          hlog entry (hperm.symm.subset h)
        obtain ⟨hfirst, hothers⟩ := List.forall_mem_append.1 hall
        rw [List.map_cons, List.mapM_cons, hparts item first _ hruns hfirst, ih hrest hothers]
        rfl

/-- Parts that have results have the same ones if other windows are in them. -/
theorem each_of_each {items : List ι} {log : Log} {results : List ρ}
    (hparts : ∀ item, Follows cancellable (part item) (part' item))
    (h : Each cancellable (items.map part) log (yields results)) :
    ∃ log', log'.Subperm log ∧ Each cancellable (items.map part') log' (yields results) := by
  induction items generalizing log results with
  | nil =>
    cases results with
    | nil => exact ⟨[], List.nil_subperm, .nil⟩
    | cons result results => exact nomatch h
  | cons item items ih =>
    cases results with
    | nil => exact nomatch h
    | cons result results =>
      cases h with
      | cons hruns hrest hperm =>
        obtain ⟨first, hfirst, hruns⟩ := hparts item _ _ hruns nofun
        obtain ⟨rest, hlast, hrest⟩ := ih hrest
        exact ⟨first ++ rest, (hfirst.append hlast).trans hperm.symm.subperm,
          .cons hruns hrest (.refl _)⟩

/-- **The order of replies does not matter.** If replies depend on nothing but the request, only one
outcome is possible, unless the program breaks off. -/
theorem run_eq {answer : Request → Reply} (h : task.UpToWidths task') {log : Log}
    {outcome : Except ExecutionError ρ} (hruns : Runs false (.ready task) log (.settled outcome))
    (hwhole : outcome ≠ .error .overflow) (hlog : ∀ entry ∈ log, entry.2 = answer entry.1) :
    task'.run answer = outcome := by
  induction h generalizing log outcome with
  | done result =>
    obtain ⟨-, hdone | hdone⟩ := hruns.of_done
    · cases hdone
    · cases hdone
      rfl
  | fail error =>
    obtain ⟨-, hfail | hfail⟩ := hruns.of_fail
    · cases hfail
    · cases hfail
      rfl
  | @ask request _ next' _ ih =>
    obtain ⟨-, hready⟩ | ⟨reply, rest, rfl, ⟨-, hwaiting⟩ | hnext⟩ := hruns.of_ask
    · cases hready
    · cases hwaiting
    · obtain ⟨hreply, hrest⟩ := List.forall_mem_cons.1 hlog
      rw [Task.run, ← show reply = answer request from hreply]
      exact ih reply hnext hwhole hrest
  | look _ ih =>
    obtain ⟨-, hready⟩ | ⟨cancelled, hcancelled, hnext⟩ := hruns.of_look
    · cases hready
    · rw [Bool.eq_false_of_not_eq_true fun h => Bool.false_ne_true (hcancelled h)] at hnext
      exact ih false hnext hwhole hlog
  | @window _ _ _ items part part' _ _ _ _ _ ihparts ihnext =>
    rw [Task.run_join]
    have hparts (item) (log : Log) (result)
        (h : Runs false (.ready (part item)) log (.settled (.ok result))) :
        (∀ entry ∈ log, entry.2 = answer entry.1) → (part' item).run answer = .ok result :=
      ihparts item h (by rintro ⟨⟩)
    obtain ⟨results, first, rest, rfl, heach, hrest⟩ | ⟨error, first, rfl, hfails, hsub⟩ |
      ⟨hbroken, -⟩ := hruns.of_window
    · obtain ⟨hfirst, hlast⟩ := List.forall_mem_append.1 hlog
      rw [mapM_run_of_each hparts heach hfirst]
      exact ihnext results hrest hwhole hlast
    · cases hfails with
      | @intro before after failing results front last hitems hbefore hfailing hperm =>
      obtain ⟨earlier, others, rfl, rfl, hothers⟩ := List.map_eq_append_iff.1 hitems
      obtain ⟨item, later, rfl, rfl, rfl⟩ := List.map_eq_cons_iff.1 hothers
      have hfirst (entry : Request × Reply) (h : entry ∈ front ++ last) :
          entry.2 = answer entry.1 :=
        hlog entry (hsub.subset (hperm.symm.subset h))
      obtain ⟨hfront, hlast⟩ := List.forall_mem_append.1 hfirst
      have hresults := mapM_run_of_each hparts hbefore hfront
      have hfailed := ihparts item hfailing hwhole hlast
      rw [List.map_append, List.mapM_append, hresults, List.map_cons, List.mapM_cons, hfailed]
      rfl
    · exact absurd hbroken hwhole

/-- After a look, what comes out comes out as well with windows of other widths. The first step
answers all looks that a task begins with in the same way. -/
theorem follows_heed (h : task.UpToWidths task') (cancelled : Bool) :
    Follows cancellable (task.heed cancelled) (task'.heed cancelled) := by
  induction h generalizing cancelled with
  | done | fail => exact fun log _ hruns _ => ⟨log, .refl _, hruns⟩
  | look _ ih => exact ih cancelled cancelled
  | ask _ ih =>
    intro log outcome hruns hwhole
    obtain ⟨-, hready⟩ | ⟨reply, rest, rfl, ⟨-, hwaiting⟩ | hnext⟩ := Runs.of_ask hruns
    · cases hready
    · cases hwaiting
    · obtain ⟨log', hsub, hnext'⟩ := Follows.of_heed (ih reply) rest outcome hnext hwhole
      exact ⟨_, (List.subperm_cons _).2 hsub, .asked rfl reply hnext'⟩
  | @window _ _ width' items part part' _ next' hwidth _ _ ihparts ihnext =>
    intro log outcome hruns hwhole
    have hparts (item) := Follows.of_heed (ihparts item)
    obtain ⟨results, first, rest, rfl, hfirst, hrest⟩ | ⟨error, first, rfl, hfails, hsub⟩ |
      ⟨hbroken, -⟩ := Runs.of_window hruns
    · obtain ⟨first', hfirst', heach⟩ := each_of_each hparts hfirst
      obtain ⟨rest', hrest', hnext⟩ := Follows.of_heed (ihnext results) rest outcome hrest hwhole
      obtain ⟨log', hperm, hwindow⟩ := heach.window_in_turn hwidth next' hnext
      exact ⟨log', hperm.subperm.trans (hfirst'.append hrest'), hwindow⟩
    · cases hfails with
      | @intro before after failing results front last hitems hbefore hfailing hperm =>
      obtain ⟨earlier, others, rfl, rfl, hothers⟩ := List.map_eq_append_iff.1 hitems
      obtain ⟨item, later, rfl, rfl, rfl⟩ := List.map_eq_cons_iff.1 hothers
      obtain ⟨front', hfront', hbefore'⟩ := each_of_each hparts hbefore
      obtain ⟨last', hlast', hfailing'⟩ := hparts item last _ hfailing hwhole
      have hfails' : FirstFails cancellable ((earlier ++ item :: later).map part')
          (front' ++ last') error :=
        .intro List.map_append hbefore' hfailing' (.refl _)
      obtain ⟨log', hperm', hwindow⟩ := hfails'.window_in_turn hwidth next'
      have hless := (hperm'.subperm.trans (hfront'.append hlast')).trans hperm.symm.subperm
      exact ⟨log', hless.trans hsub, hwindow⟩
    · exact absurd hbroken hwhole

/-- **The widths of windows do not matter.** What comes out comes out as well with windows of other
widths, by some of the same requests, unless the program breaks off. -/
theorem follows (h : task.UpToWidths task') : Follows cancellable task task' :=
  Follows.of_heed h.follows_heed

end Task.UpToWidths

/-! ### The nested patterns of one row -/

namespace Row

/-- The row with the datasets of its nested patterns, under their names. -/
def filled (row : Row) (tasks : List (String × Task Dataset)) (datasets : List Dataset) : Row :=
  row.extend ((tasks.map Prod.fst).zip (datasets.map Value.dataset))

theorem upToWidths_attach (row : Row) {tasks tasks' : List (String × Task Dataset)}
    (h : List.Forall₂ (fun entry entry' => entry.1 = entry'.1 ∧ entry.2.UpToWidths entry'.2)
      tasks tasks') : (row.attach tasks).UpToWidths (row.attach tasks') := by
  induction h generalizing row with
  | nil => exact .done _
  | @cons entry entry' _ _ hentry _ ih =>
    obtain ⟨name, task⟩ := entry
    obtain ⟨name', task'⟩ := entry'
    obtain ⟨rfl, htask⟩ := hentry
    exact htask.bind fun dataset => ih _

/-- **The nested patterns of one row.** They are run one after the other, up to the first one that
fails. -/
theorem of_attach {row : Row} {tasks : List (String × Task Dataset)} {log : Log}
    {outcome : Except ExecutionError Dataset}
    (h : Runs cancellable (.ready (row.attach tasks)) log (.settled outcome)) :
    (∃ datasets, datasets.length = tasks.length ∧
      Each cancellable (tasks.map Prod.snd) log (yields datasets) ∧
      outcome = .ok [row.filled tasks datasets]) ∨
    ∃ error, outcome = .error error ∧ FirstFails cancellable (tasks.map Prod.snd) log error := by
  induction tasks generalizing row log with
  | nil =>
    obtain ⟨rfl, h | h⟩ := Runs.of_done h
    · exact nomatch h
    · cases h
      exact .inl ⟨[], rfl, .nil, rfl⟩
  | cons entry tasks ih =>
    obtain ⟨name, task⟩ := entry
    obtain ⟨error, rfl, hfails⟩ | ⟨first, dataset, rest, rfl, hfirst, hrest⟩ :=
      Runs.of_bind_settled h
    · exact .inr ⟨error, rfl, .head hfails _⟩
    · obtain ⟨datasets, hlength, heach, rfl⟩ | ⟨error, rfl, hfails⟩ := ih hrest
      · exact .inl ⟨dataset :: datasets, congrArg (· + 1) hlength,
          .cons hfirst heach (.refl _), rfl⟩
      · exact .inr ⟨error, rfl, .cons hfirst hfails⟩

end Row

/-! ### The nested patterns of all rows -/

/-- All nested patterns of all rows have datasets, each by a run of its own. -/
structure Answered (cancellable : Bool) (tasks : Row → List (String × Task Dataset))
    (rows : Dataset) (log : Log) (answers : List (List Dataset)) : Prop where
  shape : List.Forall₂ (fun row datasets => datasets.length = (tasks row).length) rows answers
  runs : Each cancellable (rows.flatMap fun row => (tasks row).map Prod.snd) log
    (yields answers.flatten)

/-- The rows with the datasets of their nested patterns, in order. -/
def Dataset.filled (rows : Dataset) (tasks : Row → List (String × Task Dataset))
    (answers : List (List Dataset)) : Dataset :=
  List.zipWith (fun row datasets => row.filled (tasks row) datasets) rows answers

variable {tasks : Row → List (String × Task Dataset)}

/-- Rows whose nested patterns have been run. -/
theorem answered_of_each {rows : Dataset} {log : Log} {parts : List Dataset}
    (h : Each cancellable (rows.map fun row => row.attach (tasks row)) log (yields parts)) :
    ∃ answers, Answered cancellable tasks rows log answers ∧
      parts.flatten = rows.filled tasks answers := by
  induction rows generalizing log parts with
  | nil =>
    cases parts with
    | nil =>
      cases h
      exact ⟨[], ⟨.nil, .nil⟩, rfl⟩
    | cons part parts => cases h
  | cons row rows ih =>
    cases parts with
    | nil => cases h
    | cons part parts =>
      cases h with
      | cons hruns hrest hlog =>
        obtain ⟨datasets, hlength, heach, hpart⟩ | ⟨error, hpart, -⟩ := Row.of_attach hruns
        · cases hpart
          obtain ⟨answers, hanswers, hflatten⟩ := ih hrest
          refine ⟨datasets :: answers, ⟨.cons hlength hanswers.shape, ?_⟩, ?_⟩
          · have hboth := (heach.append hanswers.runs).perm hlog
            rw [yields, yields, ← List.map_append] at hboth
            exact hboth
          · rw [List.flatten_cons, hflatten]
            rfl
        · cases hpart

/-- Rows without nested patterns have all their datasets. -/
theorem answered_nothing (cancellable : Bool) (rows : Dataset) :
    Answered cancellable (fun _ => []) rows [] (rows.map fun _ => []) where
  shape := by
    rw [List.forall₂_map_right_iff, List.forall₂_same]
    exact fun _ _ => rfl
  runs := by
    induction rows with
    | nil => exact .nil
    | cons row rows ih => exact ih

theorem Dataset.filled_nothing (rows : Dataset) :
    rows.filled (fun _ => []) (rows.map fun _ => []) = rows := by
  induction rows with
  | nil => rfl
  | cons row rows ih => exact congrArg (row :: ·) ih

namespace Pattern

/-- The task that computes the nested patterns of rows, in a window of the given width. -/
def fanOut (p : Pattern) (config : Config) (width : Nat) (grouping : Grouping) (scope : Scope)
    (rows : Dataset) : Task Dataset :=
  .join (.window width) (rows.map fun row => row.attach (p.nestedTasks config grouping scope row))
    fun parts => .done parts.flatten

/-- The task that computes the nested patterns of rows, if there are any. -/
def attachAll (p : Pattern) (config : Config) (grouping : Option Grouping) (scope : Scope)
    (rows : Dataset) : Task Dataset :=
  match grouping with
  | none => .done rows
  | some grouping =>
    if p.nestedPatterns.isEmpty then .done rows
    else p.fanOut config config.width grouping scope rows

/-- **The nested patterns in the task of a pattern.** -/
theorem run_eq_fanOut (p : Pattern) (config : Config) (scope : Scope) :
    p.run config scope = .look fun cancelled =>
      if cancelled then .fail .cancelled
      else
        match p.compile config.limits with
        | .error error => .fail (.compile error)
        | .ok c => (c.finished config p.source.external scope).andThen id
            (p.attachAll config c.grouping scope) := by
  rw [run]
  refine congrArg Task.look (funext fun cancelled => ?_)
  cases cancelled with
  | true => rfl
  | false =>
    cases p.compile config.limits with
    | error error => rfl
    | ok c =>
      refine congrArg ((c.finished config p.source.external scope).andThen id)
        (funext fun rows => ?_)
      cases c.grouping with
      | none => rfl
      | some grouping =>
        have htasks (row : Row) := List.attach_map_val (l := p.nestedPatterns) (f := fun entry =>
          (entry.1, (p.forGroup entry.2 (grouping.condition
            ((row.get? grouping.name).getD .null))).run config (row :: scope)))
        exact congrArg (fun tasks : Row → List (String × Task Dataset) =>
          if p.nestedPatterns.isEmpty then Task.done rows
          else .join (.window config.width) (rows.map fun row => row.attach (tasks row))
            fun parts => .done parts.flatten) (funext htasks)

/-- **The width of the windows.** However many groups are worked on at once, the tasks of a pattern
are the same up to the widths of their windows. -/
theorem upToWidths_run (config : Config) (count : Nat) (p : Pattern) (scope : Scope) :
    (p.run config scope).UpToWidths
      (p.run { config with maxConcurrentTasks := count } scope) := by
  rw [run_eq_fanOut, run_eq_fanOut]
  refine .look fun cancelled => ?_
  dsimp only [Config.limits]
  split
  · exact .fail _
  split
  · exact .fail _
  refine .andThen _ _ fun rows => ?_
  unfold attachAll
  split
  · exact .done _
  split
  · exact .done _
  refine .window (Nat.le_max_right count 1) (fun row => ?_) fun parts => .done _
  refine Row.upToWidths_attach row ?_
  rw [nestedTasks, nestedTasks, List.forall₂_map_left_iff, List.forall₂_map_right_iff,
    List.forall₂_same]
  exact fun entry hentry => ⟨rfl, upToWidths_run config count _ _⟩
termination_by sizeOf p.applies
decreasing_by
  rw [forGroup_applies]
  exact sizeOf_applies_lt hentry

/-! ### What the nested patterns come to -/

/-- The task that computes the rows of a pattern without their nested patterns. -/
def ownRows (p : Pattern) (config : Config) (scope : Scope) : Task Dataset :=
  .look fun cancelled =>
    if cancelled then .fail .cancelled
    else
      match p.compile config.limits with
      | .error error => .fail (.compile error)
      | .ok c => (c.finished config p.source.external scope).andThen id .done

/-- The grouping of a pattern, if it compiles to one. -/
def grouping? (p : Pattern) (config : Config) : Option Grouping :=
  (p.compile config.limits).toOption.bind Compiled.grouping

/-- The rows of a pattern are computed first, and then their nested patterns. -/
theorem run_eq_bind (p : Pattern) (config : Config) (scope : Scope) :
    p.run config scope =
      (p.ownRows config scope).bind (p.attachAll config (p.grouping? config) scope) := by
  rw [run_eq_fanOut, ownRows, grouping?]
  refine congrArg Task.look (funext fun cancelled => ?_)
  cases cancelled with
  | true => rfl
  | false =>
    cases p.compile config.limits with
    | error error => rfl
    | ok c => exact (Exchange.bind_andThen _ id .done _).symm

/-- What the nested patterns of rows come to. -/
inductive Attaches (cancellable : Bool) (p : Pattern) (config : Config) (scope : Scope)
    (rows : Dataset) : Option Grouping → Log → Except ExecutionError Dataset → Prop
  /-- Rows that are no groups stay as they are. -/
  | none : Attaches cancellable p config scope rows none [] (.ok rows)
  /-- Each row gets its own datasets, and the rows stay in order. -/
  | filled {grouping : Grouping} {log : Log} {answers : List (List Dataset)}
      (h : Answered cancellable (p.nestedTasks config grouping scope) rows log answers) :
      Attaches cancellable p config scope rows (some grouping) log
        (.ok (rows.filled (p.nestedTasks config grouping scope) answers))
  /-- The first failure of the first row that has one counts; the rows before it have all their
  datasets. -/
  | failed {grouping : Grouping} {log first last : Log} {front back : Dataset} {row : Row}
      {answers : List (List Dataset)} {error : ExecutionError} (hrows : rows = front ++ row :: back)
      (hfront : Answered cancellable (p.nestedTasks config grouping scope) front first answers)
      (hrow : FirstFails cancellable ((p.nestedTasks config grouping scope row).map Prod.snd) last
        error)
      (hlog : (first ++ last).Subperm log) :
      Attaches cancellable p config scope rows (some grouping) log (.error error)
  /-- The program breaks off in a row, whatever goes on in the other ones. -/
  | broken {grouping : Grouping} {log last : Log} {row : Row} (hrow : row ∈ rows)
      (hbroken : FirstFails cancellable ((p.nestedTasks config grouping scope row).map Prod.snd)
        last .overflow)
      (hlog : last.Subperm log) :
      Attaches cancellable p config scope rows (some grouping) log (.error .overflow)

variable {p : Pattern} {config : Config} {scope : Scope} {rows : Dataset} {log : Log}
  {outcome : Except ExecutionError Dataset}

/-- **The nested patterns of all rows.** -/
theorem attaches_fanOut {width : Nat} {grouping : Grouping}
    (h : Runs cancellable (.ready (p.fanOut config width grouping scope rows)) log
      (.settled outcome)) :
    p.Attaches cancellable config scope rows (some grouping) log outcome := by
  obtain ⟨parts, first, rest, rfl, heach, hrest⟩ | ⟨error, first, rfl, hfails, hlog⟩ |
    ⟨rfl, part, hpart, first, hlog, hruns⟩ := Runs.of_window h
  · obtain ⟨rfl, hdone | hdone⟩ := hrest.of_done
    · exact nomatch hdone
    cases hdone
    obtain ⟨answers, hanswers, hflatten⟩ := answered_of_each heach
    rw [List.append_nil, hflatten]
    exact .filled hanswers
  · cases hfails with
    | @intro before after task parts front last htasks hbefore htask hperm =>
    obtain ⟨rows, others, rfl, rfl, hothers⟩ := List.map_eq_append_iff.1 htasks
    obtain ⟨row, back, rfl, rfl, rfl⟩ := List.map_eq_cons_iff.1 hothers
    obtain ⟨answers, hanswers, -⟩ := answered_of_each hbefore
    obtain ⟨datasets, -, -, hok⟩ | ⟨error, hfailed, hfails⟩ := Row.of_attach htask
    · exact nomatch hok
    · cases hfailed
      exact .failed rfl hanswers hfails (hperm.symm.subperm.trans hlog)
  · obtain ⟨row, hrow, rfl⟩ := List.mem_map.1 hpart
    obtain ⟨datasets, -, -, hok⟩ | ⟨error, hfailed, hfails⟩ := Row.of_attach hruns
    · exact nomatch hok
    · cases hfailed
      exact .broken hrow hfails hlog

theorem attaches_attachAll {grouping : Option Grouping}
    (h : Runs cancellable (.ready (p.attachAll config grouping scope rows)) log
      (.settled outcome)) : p.Attaches cancellable config scope rows grouping log outcome := by
  cases grouping with
  | none =>
    obtain ⟨rfl, hdone | hdone⟩ := Runs.of_done h
    · exact nomatch hdone
    · cases hdone
      exact .none
  | some grouping =>
    rw [attachAll] at h
    split at h
    · next hempty =>
      obtain ⟨rfl, hdone | hdone⟩ := Runs.of_done h
      · exact nomatch hdone
      cases hdone
      have hnothing : p.nestedTasks config grouping scope = fun _ => [] := by
        funext row
        rw [nestedTasks, List.isEmpty_iff.1 hempty, List.map_nil]
      have hanswered := answered_nothing cancellable rows
      rw [← hnothing] at hanswered
      have hfilled := Attaches.filled hanswered
      rwa [hnothing, Dataset.filled_nothing] at hfilled
    · exact attaches_fanOut h

/-- **Nested patterns in any order.** Take any steps that the task of a pattern can take, in any
order and with any replies, up to where it settles. Either its own rows have come to nothing, and
their error is what comes out; or the pattern has its own rows, and what comes out is what their
nested patterns come to: the rows in their order, each with its own datasets under their names, one
run for each of them, or the first failure of the first row that has one. Only if the program breaks
off in one of the rows, it does not wait for the rows before that one.

Unless the program breaks off, the same comes out, by some of the same requests, however many groups
are worked on at once, so also if one row is worked on after the other; and if the replies depend on
nothing but the requests, it is what the task comes to in its order. -/
theorem run_settles
    (h : Runs cancellable (.ready (p.run config scope)) log (.settled outcome)) :
    ((∃ error, outcome = .error error ∧
        Runs cancellable (.ready (p.ownRows config scope)) log (.settled (.error error))) ∨
      ∃ rows first rest, log = first ++ rest ∧
        Runs cancellable (.ready (p.ownRows config scope)) first (.settled (.ok rows)) ∧
        p.Attaches cancellable config scope rows (p.grouping? config) rest outcome) ∧
    (outcome ≠ .error .overflow →
      (∀ count, ∃ log', log'.Subperm log ∧
        Runs cancellable (.ready (p.run { config with maxConcurrentTasks := count } scope)) log'
          (.settled outcome)) ∧
      ∀ answer, cancellable = false → (∀ entry ∈ log, entry.2 = answer entry.1) →
        (p.run config scope).run answer = outcome) := by
  refine ⟨?_, fun hwhole => ⟨fun count => ?_, ?_⟩⟩
  · rw [run_eq_bind] at h
    obtain hfails | ⟨first, rows, rest, hlog, hrows, hrest⟩ := Runs.of_bind_settled h
    · exact .inl hfails
    · exact .inr ⟨rows, first, rest, hlog, hrows, attaches_attachAll hrest⟩
  · exact (upToWidths_run config count p scope).follows log outcome h hwhole
  · rintro answer rfl hlog
    exact (upToWidths_run config config.maxConcurrentTasks p scope).run_eq h hwhole hlog

end Pattern

/-! ### Two pages -/

namespace Sample

/-- The reply that lists groups, with the values of one dimension. -/
def listing (name : String) (values : List String) : Reply :=
  [.ok (.array (values.map fun value => .object [("event", .object [(name, .string value)])]))]

/-- The row of a page. -/
def pageRow (name : String) : Row := [("page", .string name)]

/-- The languages of a page. -/
def languagesOf (name : String) : Pattern :=
  byPage.forGroup byLanguage (frontPage.grouping.condition (.string name))

/-- The task that computes the languages of a page. -/
def languagesTask (name : String) : Task Dataset :=
  (pageRow name).attach [("Languages", (languagesOf name).run .standard [pageRow name])]

/-- A page with its only language. -/
def pageWith (name language : String) : Row :=
  (pageRow name).put "Languages" (.dataset [[("language", .string language)]])

/-- A row with a nested pattern that takes one request. -/
theorem heed_attach_one {row : Row} {name : String} {task : Task Dataset} {request : Request}
    {next : Reply → Task Dataset} (hask : task.heed false = .ask request next) :
    ∃ more, (row.attach [(name, task)]).heed false = .ask request more ∧
      ∀ reply dataset, (next reply).heed false = .done dataset →
        (more reply).heed false = .done [row.put name (.dataset dataset)] := by
  have hfirst := Task.heed_bind false
    (fun dataset => (row.put name (.dataset dataset)).attach []) task
  rw [hask] at hfirst
  refine ⟨_, hfirst, fun reply dataset hdone => ?_⟩
  have hlast := Task.heed_bind false
    (fun dataset => (row.put name (.dataset dataset)).attach []) (next reply)
  rw [hdone] at hlast
  exact hlast

/-- The only request for the languages of a page. -/
theorem heed_languagesTask (name language : String) : ∃ c more,
    (languagesOf name).compile Config.standard.limits = .ok c ∧
    (languagesTask name).heed false = .ask (edits.request c.query.toJson) more ∧
    (more (listing "language" [language])).heed false = .done [pageWith name language] := by
  obtain ⟨c, next, hcompile, hask, hdone⟩ : ∃ c next,
      (languagesOf name).compile Config.standard.limits = .ok c ∧
      ((languagesOf name).run .standard [pageRow name]).heed false =
        .ask (edits.request c.query.toJson) next ∧
      (next (listing "language" [language])).heed false =
        .done [[("language", .string language)]] := by
    rw [Pattern.run]
    exact ⟨_, _, rfl, rfl, rfl⟩
  obtain ⟨more, hmore, hlast⟩ := heed_attach_one hask
  exact ⟨c, more, hcompile, hmore, hlast _ _ hdone⟩

/-- The requests for two pages and their languages. -/
def twoPagesLog (own front back : Compiled) : Log :=
  [(edits.request own.query.toJson, listing "page" ["Front", "Back"]),
    (edits.request front.query.toJson, listing "language" ["en"]),
    (edits.request back.query.toJson, listing "language" ["de"])]

/-- The languages of two pages: those of the second page come while the first one still waits. -/
theorem runs_twoPages : ∃ own front back next more,
    byPage.compile Config.standard.limits = .ok own ∧
    (languagesOf "Front").compile Config.standard.limits = .ok front ∧
    (languagesOf "Back").compile Config.standard.limits = .ok back ∧
    Runs false (.ready (byPage.run .standard [])) (twoPagesLog own front back)
      (.joined (.window 4) [] [.waiting (listing "language" ["en"]) next,
        .settled (.ok [pageWith "Back" "de"])] [] more) ∧
    Runs false (.joined (.window 4) [] [.waiting (listing "language" ["en"]) next,
        .settled (.ok [pageWith "Back" "de"])] [] more) []
      (.settled (.ok [pageWith "Front" "en", pageWith "Back" "de"])) := by
  obtain ⟨own, next, more, hown, hask, hwindow, hdone⟩ : ∃ own next more,
      byPage.compile Config.standard.limits = .ok own ∧
      (byPage.run .standard []).heed false = .ask (edits.request own.query.toJson) next ∧
      (next (listing "page" ["Front", "Back"])).heed false = .join (.window 4)
        [languagesTask "Front", languagesTask "Back"] more ∧
      (more [[pageWith "Front" "en"], [pageWith "Back" "de"]]).heed false =
        .done [pageWith "Front" "en", pageWith "Back" "de"] := by
    rw [Pattern.run_eq_fanOut]
    exact ⟨_, _, _, rfl, rfl, rfl, rfl⟩
  obtain ⟨front, frontMore, hfront, hfrontAsk, hfrontDone⟩ := heed_languagesTask "Front" "en"
  obtain ⟨back, backMore, hback, hbackAsk, hbackDone⟩ := heed_languagesTask "Back" "de"
  refine ⟨own, front, back, frontMore, more, hown, hfront, hback, ?_, ?_⟩
  · have hsecond : Runs false _ _ _ := (Runs.asked hbackAsk (listing "language" ["de"])
      (.quiet (.done hbackDone) (.refl _))).part (.window 4) []
        [.waiting (listing "language" ["en"]) frontMore] [] [] more
    have hfirst : Runs false _ _ _ := (Runs.cons (.ask hfrontAsk (listing "language" ["en"]))
      (.refl _)).part (.window 4) [] [] [.ready (languagesTask "Back")]
        [] more
    exact .asked hask _ (.quiet (.window hwindow) (.quiet (.enter (by decide))
      (.quiet (.enter (by decide)) (hfirst.trans hsecond))))
  · have hfirst : Runs false _ _ _ := (Runs.quiet (.reply (listing "language" ["en"]) frontMore)
      (.quiet (.done hfrontDone) (.refl _))).part (.window 4) [] []
        [.settled (.ok [pageWith "Back" "de"])] [] more
    exact hfirst.trans (.quiet .release (.quiet .release (.quiet .windowDone
      (.quiet (.done hdone) (.refl _)))))

end Sample

namespace Pattern

open Sample in
/-- Each of two pages has its own language, and the pages stay in their order, though the language
of the second page comes while the first one still waits. The same comes out if the second page is
worked on after the first one. -/
theorem run_settles_twoPages : ∃ own front back next more,
    byPage.compile Config.standard.limits = .ok own ∧
    (languagesOf "Front").compile Config.standard.limits = .ok front ∧
    (languagesOf "Back").compile Config.standard.limits = .ok back ∧
    Runs false (.ready (byPage.run .standard [])) (twoPagesLog own front back)
      (.joined (.window 4) [] [.waiting (listing "language" ["en"]) next,
        .settled (.ok [pageWith "Back" "de"])] [] more) ∧
    Runs false (.joined (.window 4) [] [.waiting (listing "language" ["en"]) next,
        .settled (.ok [pageWith "Back" "de"])] [] more) []
      (.settled (.ok [pageWith "Front" "en", pageWith "Back" "de"])) ∧
    (∃ rows first rest, twoPagesLog own front back = first ++ rest ∧
      Runs false (.ready (byPage.ownRows .standard [])) first (.settled (.ok rows)) ∧
      byPage.Attaches false .standard [] rows (byPage.grouping? .standard) rest
        (.ok [pageWith "Front" "en", pageWith "Back" "de"])) ∧
    ∃ log', log'.Subperm (twoPagesLog own front back) ∧
      Runs false (.ready (byPage.run { Config.standard with maxConcurrentTasks := 1 } [])) log'
        (.settled (.ok [pageWith "Front" "en", pageWith "Back" "de"])) := by
  obtain ⟨own, front, back, next, more, hown, hfront, hback, hwaits, hends⟩ := runs_twoPages
  have hruns := hwaits.trans hends
  rw [List.append_nil] at hruns
  obtain ⟨⟨error, herror, -⟩ | hattaches, hwhole⟩ := run_settles hruns
  · exact nomatch herror
  · exact ⟨own, front, back, next, more, hown, hfront, hback, hwaits, hends, hattaches,
      (hwhole nofun).1 1⟩

end Pattern

end FederatedQuery
