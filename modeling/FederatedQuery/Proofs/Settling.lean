import FederatedQuery.Proofs.Outcomes
import FederatedQuery.Proofs.Worlds
import FederatedQuery.Simulation.Computation

/-!
# What computations settle with

When replies come decides in which order the parts of a task go on. If the reply to a request
depends on nothing but the request, it does not decide what comes out: whatever a task that has
been started leads to, it still leads to after it has gone on. Errors are left aside here, since
of several failures the first one counts.

A computation with no token cannot be cancelled. It settles with what its tasks lead to, unless
it runs out of time.

## Main definitions

* `Running.outcome?`, `Stage.outcome?`: what a computation leads to.
* `Job.outcome`: what comes out of a job.

## Main results

* `Running.leads_start`, `Running.leads_resume`: tasks that are started and go on.
* `World.compute_outcome`: whole computations.
-/

namespace FederatedQuery

variable {ρ : Type} {answer : Request → Reply}

/-- The result of a task, if it succeeds. -/
def Task.result? (answer : Request → Reply) (task : Task ρ) : Option ρ :=
  (task.run answer).toOption

theorem Task.result?_join (how : Join) (parts : List (Task ρ)) (next : List ρ → Task ρ) :
    (join how parts next).result? answer =
      (parts.mapM (result? answer)).bind fun results => (next results).result? answer := by
  rw [result?, run_join, Except.toOption_bind, Except.toOption_mapM]
  rfl

namespace Simulation

namespace Running

variable (answer) in
mutual

/-- The result that a started task leads to, if it leads to success. -/
def outcome? : Running ρ → Option ρ
  | .settled outcome => outcome.toOption
  | .waiting arrival next => (next arrival.reply).result? answer
  | .joined .all _ slots _ next =>
    (outcomes? slots).bind fun started => (next started).result? answer
  | .joined (.window _) results slots queue next =>
    (outcomes? slots).bind fun started => (queue.mapM (Task.result? answer)).bind fun others =>
      (next (results ++ started ++ others)).result? answer

/-- The results that started tasks lead to. -/
def outcomes? : List (Running ρ) → Option (List ρ)
  | [] => some []
  | slot :: rest =>
    (outcome? slot).bind fun result => (outcomes? rest).bind fun results => some (result :: results)

end

/-- The results of parts of which some have a result and some have been started. -/
def allOutcomes? (answer : Request → Reply) (results : List ρ) (slots : List (Running ρ))
    (queue : List (Task ρ)) : Option (List ρ) :=
  (outcomes? answer slots).bind fun started => (queue.mapM (Task.result? answer)).bind fun others =>
    some (results ++ started ++ others)

theorem outcome?_joined (width : Nat) (results : List ρ) (slots : List (Running ρ))
    (queue : List (Task ρ)) (next : List ρ → Task ρ) :
    (joined (.window width) results slots queue next).outcome? answer =
      (allOutcomes? answer results slots queue).bind fun all => (next all).result? answer := by
  rw [outcome?, allOutcomes?]
  cases outcomes? answer slots with
  | none => rfl
  | some started => cases queue.mapM (Task.result? answer) <;> rfl

theorem outcomes?_append (slots others : List (Running ρ)) :
    outcomes? answer (slots ++ others) =
      (outcomes? answer slots).bind fun a =>
        (outcomes? answer others).bind fun b => some (a ++ b) := by
  induction slots with
  | nil => simp [outcomes?]
  | cons slot slots ih =>
    rw [List.cons_append, outcomes?, outcomes?, ih]
    cases outcome? answer slot with
    | none => rfl
    | some result => cases outcomes? answer slots <;> cases outcomes? answer others <;> rfl

theorem outcomes?_of_results? {slots : List (Running ρ)} {results : List ρ}
    (h : results? slots = some results) : outcomes? answer slots = some results := by
  induction slots generalizing results with
  | nil => exact h
  | cons slot slots ih =>
    cases slot with
    | settled outcome =>
      cases outcome with
      | error error => exact nomatch h
      | ok result =>
        obtain ⟨rest, hrest, rfl⟩ := Option.map_eq_some_iff.1 h
        rw [outcomes?, ih hrest]
        rfl
    | _ => exact nomatch h

/-- Nothing comes of parts if the program has broken off in one of them. -/
theorem outcomes?_of_isBroken {front back : List (Running ρ)} {slot : Running ρ}
    (h : slot.isBroken = true) : outcomes? answer (front ++ slot :: back) = none := by
  have hslot : slot.outcome? answer = none := by
    unfold isBroken at h
    split at h
    · rfl
    · exact absurd h Bool.false_ne_true
  rw [outcomes?_append, outcomes?, hslot]
  cases outcomes? answer front <;> rfl

/-- Moving the results of the foremost parts over changes no result. -/
theorem outcomes?_collect (answer : Request → Reply) (results : List ρ)
    (slots : List (Running ρ)) (queue : List (Task ρ)) :
    ((collect results slots).toOption.bind fun p => allOutcomes? answer p.1 p.2 queue) =
      allOutcomes? answer results slots queue := by
  induction slots generalizing results with
  | nil => rfl
  | cons slot slots ih =>
    unfold collect
    split
    · next result rest heq =>
      cases heq
      rw [ih, allOutcomes?, allOutcomes?, outcomes?, outcome?]
      cases outcomes? answer slots with
      | none => rfl
      | some started => simp [Except.toOption]
    · next error rest heq =>
      cases heq
      rw [allOutcomes?, outcomes?, outcome?]
      rfl
    · rfl

/-- Starting the foremost part of a queue changes no result. -/
theorem allOutcomes?_start {task : Task ρ} {last : Running ρ}
    (h : last.outcome? answer = task.result? answer) (results : List ρ)
    (slots : List (Running ρ)) (queue : List (Task ρ)) :
    allOutcomes? answer results (slots ++ [last]) queue =
      allOutcomes? answer results slots (task :: queue) := by
  rw [allOutcomes?, allOutcomes?, outcomes?_append, List.mapM_cons, ← h, outcomes?, outcomes?]
  cases outcomes? answer slots with
  | none => rfl
  | some started =>
    cases last.outcome? answer with
    | none => rfl
    | some result => cases queue.mapM (Task.result? answer) <;> simp

/-- A started task, in its world, leads to a result, all requests being answered in the
given way. -/
structure Leads (answer : Request → Reply) (result : Option ρ) (x : Running ρ × World) : Prop where
  outcome : x.1.outcome? answer = result
  answers : x.2.AnswersWith answer

/-- Started tasks lead to results. -/
structure LeadAll (answer : Request → Reply) (results : Option (List ρ))
    (x : Except ExecutionError (List (Running ρ)) × World) : Prop where
  outcomes : (x.1.toOption.bind (outcomes? answer)) = results
  answers : x.2.AnswersWith answer

/-- The parts of a window lead to results. -/
structure LeadOn (answer : Request → Reply) (results : Option (List ρ))
    (x : Except ExecutionError (List ρ × List (Running ρ) × List (Task ρ)) × World) : Prop where
  outcomes : (x.1.toOption.bind fun p => allOutcomes? answer p.1 p.2.1 p.2.2) = results
  answers : x.2.AnswersWith answer

variable {now : Nat}

/-- A window leads to what comes after the results of its parts. -/
theorem LeadOn.joined {width : Nat} {results : Option (List ρ)} {next : List ρ → Task ρ}
    {x : Except ExecutionError (List ρ × List (Running ρ) × List (Task ρ)) × World}
    (h : LeadOn answer results x)
    (hnext : ∀ results w, w.AnswersWith answer →
      Leads answer ((next results).result? answer) (start none now (next results) w)) :
    Leads answer (results.bind fun results => (next results).result? answer)
      (match x with
      | (.error error, w) => (.settled (.error error), w)
      | (.ok (results, [], []), w) => start none now (next results) w
      | (.ok (results, slots, queue), w) =>
        (.joined (.window width) results slots queue next, w)) := by
  obtain ⟨houtcomes, hanswers⟩ := h
  split
  · cases houtcomes
    exact ⟨rfl, hanswers⟩
  · next results w =>
    rw [← houtcomes]
    have hall : allOutcomes? answer results [] [] = some results := by
      simp [allOutcomes?, outcomes?]
    simp only [Except.toOption, Option.bind_some, hall]
    exact hnext results w hanswers
  · next results slots queue w _ =>
    refine ⟨?_, hanswers⟩
    rw [outcome?_joined, ← houtcomes]
    rfl

mutual

/-- **Starting.** A task that is started leads to its result. -/
theorem leads_start : (task : Task ρ) → (w : World) → w.AnswersWith answer →
    Leads answer (task.result? answer) (start none now task w)
  | .done result, w, hw => ⟨rfl, hw⟩
  | .fail error, w, hw => ⟨rfl, hw⟩
  | .ask request next, w, hw => by
      have hreply := hw.reply_ask now request
      have hw := hw.ask now request
      rw [start]
      revert hreply hw
      rcases w.ask now request with ⟨arrival, w⟩
      intro hreply hw
      have htask : (Task.ask request next).result? answer =
          (next arrival.reply).result? answer := by
        rw [show arrival.reply = answer request from hreply]
        rfl
      rw [htask]
      simp only
      split
      · exact leads_start (next arrival.reply) w hw
      · exact ⟨rfl, hw⟩
  | .look next, w, hw => leads_start (next false) w hw
  | .join .all parts next, w, hw => by
      have hparts := leadAll_start parts w hw
      rw [start, Task.result?_join]
      revert hparts
      rcases startAll none now parts w with ⟨error | slots, w⟩
      · rintro ⟨houtcomes, hw⟩
        rw [← houtcomes]
        exact ⟨rfl, hw⟩
      · rintro ⟨houtcomes, hw⟩
        rw [← houtcomes]
        simp only
        split
        · next results hresults =>
          simp only [Except.toOption, Option.bind_some, outcomes?_of_results? hresults]
          exact leads_start (next results) w hw
        · exact ⟨rfl, hw⟩
  | .join (.window width) parts next, w, hw => by
      have hparts := leadOn_fill width parts [] [] w hw
      have hall : allOutcomes? answer [] [] parts = parts.mapM (Task.result? answer) := by
        simp [allOutcomes?, outcomes?]
      rw [hall] at hparts
      rw [start, Task.result?_join]
      exact hparts.joined fun results w hw => leads_start (next results) w hw

theorem leadAll_start : (tasks : List (Task ρ)) → (w : World) → w.AnswersWith answer →
    LeadAll answer (tasks.mapM (Task.result? answer)) (startAll none now tasks w)
  | [], w, hw => ⟨rfl, hw⟩
  | task :: rest, w, hw => by
      have htask := leads_start task w hw
      rw [startAll, List.mapM_cons]
      revert htask
      rcases start none now task w with ⟨first, w⟩
      rintro ⟨houtcome, hw⟩
      rw [← houtcome]
      have hrest := leadAll_start rest w hw
      simp only
      split
      · next heq =>
        cases heq
        exact ⟨rfl, hw⟩
      · next heq =>
        cases heq
        revert hrest
        rcases startAll none now rest w with ⟨error | slots, w⟩
        · rintro ⟨houtcomes, hw⟩
          rw [← houtcomes]
          refine ⟨?_, hw⟩
          cases first.outcome? answer <;> rfl
        · rintro ⟨houtcomes, hw⟩
          rw [← houtcomes]
          exact ⟨rfl, hw⟩

theorem leadOn_fill (width : Nat) : (tasks : List (Task ρ)) → (results : List ρ) →
    (slots : List (Running ρ)) → (w : World) → w.AnswersWith answer →
    LeadOn answer (allOutcomes? answer results slots tasks)
      (fill none now width tasks results slots w)
  | [], results, slots, w, hw => ⟨rfl, hw⟩
  | task :: rest, results, slots, w, hw => by
      rw [fill]
      split
      · have htask := leads_start task w hw
        revert htask
        rcases start none now task w with ⟨last, w⟩
        rintro ⟨houtcome, hw⟩
        rw [← allOutcomes?_start houtcome results slots rest]
        simp only
        split
        · next hbroken =>
          rw [allOutcomes?, outcomes?_of_isBroken hbroken]
          exact ⟨rfl, hw⟩
        rw [← outcomes?_collect]
        split
        · next error heq =>
          rw [heq]
          exact ⟨rfl, hw⟩
        · next results slots heq =>
          rw [heq]
          exact leadOn_fill width rest results slots w hw
      · exact ⟨rfl, hw⟩

end

theorem outcomes?_eq_mapM (slots : List (Running ρ)) :
    outcomes? answer slots = (slots.map (outcome? answer)).mapM id := by
  induction slots with
  | nil => rfl
  | cons slot slots ih =>
    rw [List.map_cons, List.mapM_cons, outcomes?, ih]
    rfl

/-- Going on with some tasks, in any order and any number of times, changes no result. -/
theorem leadAll_resumeInTurn {ways : List (World → Running ρ × World)} {outcomes : List (Option ρ)}
    (hways : ∀ (i : Nat) (way : World → Running ρ × World), ways[i]? = some way →
      ∃ outcome, outcomes[i]? = some outcome ∧
        ∀ w : World, w.AnswersWith answer → Leads answer outcome (way w))
    (turns : List Nat) {slots : List (Running ρ)} (hslots : slots.map (outcome? answer) = outcomes)
    {w : World} (hw : w.AnswersWith answer) :
    LeadAll answer (outcomes.mapM id) (resumeInTurn ways turns slots w) := by
  induction turns generalizing slots w with
  | nil =>
    refine ⟨?_, hw⟩
    rw [← hslots, ← outcomes?_eq_mapM]
    rfl
  | cons i turns ih =>
    rw [resumeInTurn]
    split
    · exact ih hslots hw
    · next way hway =>
      obtain ⟨outcome, houtcome, hway⟩ := hways i way hway
      obtain ⟨hslot, hw⟩ := hway w hw
      revert hslot hw
      rcases way w with ⟨slot, w⟩
      intro hslot hw
      obtain ⟨hi, rfl⟩ := List.getElem?_eq_some_iff.1 houtcome
      have hset : (slots.set i slot).map (outcome? answer) = outcomes := by
        rw [List.map_set, hslots, show slot.outcome? answer = outcomes[i] from hslot]
        exact List.set_getElem_self hi
      rw [← hslots, List.length_map] at hi
      simp only
      split
      · next hbroken =>
        refine ⟨?_, hw⟩
        rw [← hset, ← outcomes?_eq_mapM, List.set_eq_take_append_cons_drop, if_pos hi,
          outcomes?_of_isBroken hbroken]
        rfl
      split
      · next error herror =>
        have hcollect := outcomes?_collect answer [] (slots.set i slot) []
        refine ⟨?_, hw⟩
        rw [← hset, ← outcomes?_eq_mapM]
        rw [herror, allOutcomes?] at hcollect
        simpa [Except.toOption] using hcollect
      · exact ih hset hw

mutual

/-- **Going on.** A task that goes on still leads to what it has led to before. -/
theorem leads_resume : (task : Running ρ) → (w : World) → w.AnswersWith answer →
    Leads answer (task.outcome? answer) (resume none now task w)
  | .settled outcome, w, hw => ⟨rfl, hw⟩
  | .waiting arrival next, w, hw => by
      rw [resume]
      split
      · exact leads_start (next arrival.reply) w hw
      · exact ⟨rfl, hw⟩
  | .joined .all results slots queue next, w, hw => by
      have hslots := leadAll_resume slots w hw
      rw [resume, outcome?]
      revert hslots
      rcases resumeAll none now slots w with ⟨error | slots, w⟩
      · rintro ⟨houtcomes, hw⟩
        rw [← houtcomes]
        exact ⟨rfl, hw⟩
      · rintro ⟨houtcomes, hw⟩
        rw [← houtcomes]
        simp only
        split
        · next results hresults =>
          simp only [Except.toOption, Option.bind_some, outcomes?_of_results? hresults]
          exact leads_start (next results) w hw
        · exact ⟨rfl, hw⟩
  | .joined (.window width) results slots queue next, w, hw => by
      have hslots := leadAll_resumeInTurn (leads_waysOn slots) (turns now slots) rfl hw
      rw [← outcomes?_eq_mapM] at hslots
      rw [resume, outcome?_joined]
      revert hslots
      rcases resumeInTurn (waysOn none now slots) (turns now slots) slots w with
        ⟨error | others, w⟩
      · rintro ⟨houtcomes, hw⟩
        rw [allOutcomes?, ← houtcomes]
        exact ⟨rfl, hw⟩
      · rintro ⟨houtcomes, hw⟩
        have hcollect := outcomes?_collect answer results others queue
        have hsame : allOutcomes? answer results others queue =
            allOutcomes? answer results slots queue := by
          rw [allOutcomes?, allOutcomes?, ← houtcomes]
          rfl
        rw [← hsame, ← hcollect]
        simp only
        split
        · next error herror =>
          rw [herror]
          exact ⟨rfl, hw⟩
        · next results slots hok =>
          rw [hok]
          exact (leadOn_fill width queue results slots w hw).joined
            fun results w hw => leads_start (next results) w hw

theorem leadAll_resume : (slots : List (Running ρ)) → (w : World) → w.AnswersWith answer →
    LeadAll answer (outcomes? answer slots) (resumeAll none now slots w)
  | [], w, hw => ⟨rfl, hw⟩
  | slot :: rest, w, hw => by
      have hslot := leads_resume slot w hw
      rw [resumeAll, outcomes?]
      revert hslot
      rcases resume none now slot w with ⟨first, w⟩
      rintro ⟨houtcome, hw⟩
      rw [← houtcome]
      have hrest := leadAll_resume rest w hw
      simp only
      split
      · next heq =>
        cases heq
        exact ⟨rfl, hw⟩
      · next heq =>
        cases heq
        revert hrest
        rcases resumeAll none now rest w with ⟨error | slots, w⟩
        · rintro ⟨houtcomes, hw⟩
          rw [← houtcomes]
          refine ⟨?_, hw⟩
          cases first.outcome? answer <;> rfl
        · rintro ⟨houtcomes, hw⟩
          rw [← houtcomes]
          exact ⟨rfl, hw⟩

theorem leads_waysOn : (slots : List (Running ρ)) → (i : Nat) →
    (way : World → Running ρ × World) → (waysOn none now slots)[i]? = some way →
    ∃ outcome, (slots.map (outcome? answer))[i]? = some outcome ∧
      ∀ w, w.AnswersWith answer → Leads answer outcome (way w)
  | slot :: _, 0, way, h => by
    exact ⟨_, rfl, fun w hw => Option.some.inj h ▸ leads_resume slot w hw⟩
  | _ :: rest, i + 1, way, h => leads_waysOn rest i way h

end

end Running

namespace Job

/-- What comes out of a job from the plan on. -/
def outcomeAfter (answer : Request → Reply) (job : Job) (known : Context) :
    Except ExecutionError Value := do
  let plan ← job.expression.planWith job.context known
  let rows ← (plan.run job.config).run answer
  .ok (plan.result rows)

/-- What comes out of a job that has enough time and is not cancelled. -/
def outcome (answer : Request → Reply) (job : Job) : Except ExecutionError Value := do
  job.expression.admit false
  let known ← (job.context.introspect job.expression).run answer
  job.outcomeAfter answer known

end Job

namespace Stage

/-- The value that a stage of a job leads to, if it leads to success. -/
def outcome? (answer : Request → Reply) (job : Job) : Stage → Option Value
  | .introspecting task =>
    (task.outcome? answer).bind fun known => (job.outcomeAfter answer known).toOption
  | .running plan task => (task.outcome? answer).map fun rows => plan.result rows
  | .settled outcome => outcome.toOption

/-- A stage, in its world, leads to a value. -/
structure Leads (answer : Request → Reply) (job : Job) (value : Option Value)
    (x : Stage × World) : Prop where
  outcome : x.1.outcome? answer job = value
  answers : x.2.AnswersWith answer

variable {job : Job}

theorem leads_ofRun (plan : Plan) {result : Option Dataset} {x : Running Dataset × World}
    (h : Running.Leads answer result x) :
    Leads answer job (result.map fun rows => plan.result rows) (ofRun plan x) := by
  obtain ⟨task, w⟩ := x
  obtain ⟨houtcome, hw⟩ := h
  rw [← houtcome]
  unfold ofRun
  split
  · next outcome _ heq =>
    cases heq
    refine ⟨?_, hw⟩
    cases outcome <;> rfl
  · next heq =>
    cases heq
    exact ⟨rfl, hw⟩

theorem leads_ofIntrospection (now : Nat) (htoken : job.token = none) {result : Option Context}
    {x : Running Context × World} (h : Running.Leads answer result x) :
    Leads answer job (result.bind fun known => (job.outcomeAfter answer known).toOption)
      (ofIntrospection job now x) := by
  obtain ⟨task, w⟩ := x
  obtain ⟨houtcome, hw⟩ := h
  rw [← houtcome]
  unfold ofIntrospection
  split
  · next heq =>
    cases heq
    exact ⟨rfl, hw⟩
  · next known _ heq =>
    cases heq
    have hknown : ((Running.settled (.ok known)).outcome? answer).bind
        (fun known => (job.outcomeAfter answer known).toOption) =
          (job.outcomeAfter answer known).toOption := rfl
    rw [hknown, Job.outcomeAfter]
    cases hplan : job.expression.planWith job.context known with
    | error error => exact ⟨rfl, hw⟩
    | ok plan =>
      have hrun : Leads answer job _
          (ofRun plan (Running.start none now (plan.run job.config) w)) :=
        leads_ofRun plan (Running.leads_start (plan.run job.config) w hw)
      have hvalue : ((plan.run job.config).run answer >>= fun rows =>
          Except.ok (plan.result rows)).toOption =
            ((plan.run job.config).result? answer).map fun rows => plan.result rows := by
        rw [Task.result?]
        cases (plan.run job.config).run answer <;> rfl
      rw [← hvalue] at hrun
      rw [htoken]
      exact hrun
  · next heq =>
    cases heq
    exact ⟨rfl, hw⟩

theorem leads_resume (now : Nat) (htoken : job.token = none) (stage : Stage) {w : World}
    (hw : w.AnswersWith answer) :
    Leads answer job (stage.outcome? answer job) (stage.resume job now w) := by
  cases stage with
  | introspecting task =>
    rw [resume, htoken]
    exact leads_ofIntrospection now htoken (Running.leads_resume task w hw)
  | running plan task =>
    rw [resume, htoken]
    exact leads_ofRun plan (Running.leads_resume task w hw)
  | settled outcome => exact ⟨rfl, hw⟩

theorem settle_outcome (htoken : job.token = none) (now : Nat) (stage : Stage) {w : World}
    (hw : w.AnswersWith answer) :
    (stage.settle job now w).1.toOption = stage.outcome? answer job ∨
      (stage.settle job now w).1 = .error (.timeout job.config.timeout) := by
  have hcancel (moment : Nat) (w : World) : job.cancelFromOutside moment w = w := by
    rw [Job.cancelFromOutside, htoken]
  fun_induction settle job now stage w with
  | case1 => exact .inl rfl
  | case2 => exact .inr rfl
  | case3 _ _ _ _ _ _ hcancelled =>
    rw [htoken] at hcancelled
    exact nomatch hcancelled
  | case4 _ _ _ _ _ _ _ _ _ _ hcancelled =>
    rw [htoken] at hcancelled
    exact nomatch hcancelled
  | case5 now w stage _ _ _ _ moment _ _ _ next after hnext ih =>
    have hleads := leads_resume moment htoken stage hw
    have hsame : job.cancelFromOutside moment (job.cancelFromOutside now w) = w := by
      rw [hcancel, hcancel]
    rw [← hsame, show resume job moment stage _ = _ from hnext] at hleads
    rw [← hleads.outcome]
    exact ih hleads.answers
  | case6 => exact .inr rfl

end Stage

/-- **What comes out of a computation.** In a world in which the reply to a request depends on
nothing but the request, a computation without a token settles with what comes out of its job,
whenever the replies come, unless it runs out of time. -/
theorem World.compute_outcome {w : World} (hw : w.AnswersWith answer) {job : Job}
    (htoken : job.token = none) :
    (w.compute job).1.toOption = (job.outcome answer).toOption ∨
      (w.compute job).1 = .error (.timeout job.config.timeout) := by
  have hcancelled : w.isCancelled job.token = false := by
    rw [htoken]
    rfl
  rw [compute, hcancelled, Job.outcome]
  cases job.expression.admit false with
  | error error => exact .inl rfl
  | ok =>
    have hstart : Running.Leads answer _
        (Running.start none 0 (job.context.introspect job.expression) w) :=
      Running.leads_start (job.context.introspect job.expression) w hw
    have hinitial := Stage.leads_ofIntrospection 0 htoken hstart
    rw [← htoken] at hinitial
    have hsettle := Stage.settle_outcome htoken 0 (Stage.initial job w).1 hinitial.answers
    rw [Stage.initial, hinitial.outcome] at hsettle
    rw [Except.toOption_bind, Except.toOption_bind]
    exact hsettle

end Simulation

end FederatedQuery
