import FederatedQuery.Proofs.Phases
import FederatedQuery.Proofs.Sample
import FederatedQuery.Proofs.Settling

/-!
# Computing pipelines

A pipeline means that its applies are performed one after the other, each on the row with the seed
and the results of all applies before it. Computing it, in the phases of its plan, never leads to
another row, but it leads to this one only if there is a plan and each step of it sees enough: a
value over aggregates must do without constants, derived values and totals of other sources, and a
derived value and the rows of a dataset without datasets.

## Main definitions

* `Sample.editsJob`: pipelines over a backend that has counted seven edits.

## Main results

* `Performs.exists_pipeline`: pipelines that have a plan.
* `Job.outcome_pipeline`, `World.compute_pipeline`: the value of a pipeline.
* `World.compute_offsetEdits`: a pipeline whose total needs a constant has no value.
-/

namespace FederatedQuery

variable {answer : Request → Reply} {natives : Natives} {seed final : Row}
  {applies : List (String × Expression)}

open Plan

/-! ### The plan of a pipeline -/

theorem Plan.ofExpression_eq_ok {context : Context} {e : Expression}
    (hunwind : Pipeline.unwind? e = some (seed, applies)) {plan : Plan} :
    ofExpression context e = .ok plan ↔ ∃ p : Pipeline,
      applies.foldlM (fun p (name, body) => p.addApply name body)
        (Pipeline.mk (.ofContext context) [] []) = .ok p ∧ plan = .pipeline seed p.steps := by
  rw [ofExpression, hunwind]
  refine Except.bind_eq_ok.trans (exists_congr fun p => and_congr_right fun _ => ?_)
  rw [Except.ok.injEq, eq_comm]

/-- Applies that can be performed have a plan, unless there are aggregates over several sources in
one of them. -/
theorem Performs.exists_pipeline {config : Config} {context : Context} {e : Expression}
    (h : Performs answer config natives (.ofContext context) seed applies final)
    (hunwind : Pipeline.unwind? e = some (seed, applies))
    (hone : ∀ a ∈ applies, a.2.aggregateRoots.length ≤ 1) :
    ∃ steps, ofExpression context e = .ok (.pipeline seed steps) := by
  obtain ⟨p, hp⟩ := h.exists_plan hone (p := Pipeline.mk (.ofContext context) [] []) rfl
  exact ⟨p.steps, (Plan.ofExpression_eq_ok hunwind).2 ⟨p, hp, rfl⟩⟩

/-- The outcome of the steps of a pipeline whose applies have been performed. -/
theorem Performs.run_eq_ok {config : Config} {b : Bindings}
    (h : Performs answer config natives b seed applies final)
    (htakes : seed.Takes (applies.map Prod.fst)) {p : Pipeline}
    (hplan : applies.foldlM (fun p (name, body) => p.addApply name body)
      (Pipeline.mk b [] []) = .ok p)
    (hdelivers : ∀ pattern, .totals pattern ∈ p.steps → pattern.Delivers answer config natives)
    (rows : Dataset) :
    (runSteps config seed p.steps).run answer = .ok rows ↔ rows = [final] ∧
      ∀ step ∈ p.steps, step.SeesEnough answer config natives seed final
        (datasetNames p.steps) := by
  -- the value of a result is the one that it has in the end
  have hvalue (n : String) (v : Value) (hn : final.get? n = some v) :
      (final.get? n).getD .null = v := by
    rw [hn, Option.getD_some]
  have hempty : Pipeline.Performed answer config natives seed
      (fun n => (final.get? n).getD .null) [] (Pipeline.mk b [] []) :=
    ⟨List.Perm.nil, List.Sublist.slnil, nofun, nofun⟩
  have hnodup : ([] ++ applies.map Prod.fst).Nodup := htakes.nodup
  obtain ⟨names, hnames, hfinal, hperformed⟩ := h.performed hvalue rfl rfl hnodup hempty hplan
  rw [List.nil_append] at hfinal hperformed
  have hrun := hperformed.run_eq_ok (htakes.sublist hnames) hdelivers rows
  rw [← hfinal] at hrun
  exact hrun

namespace Simulation

variable {w : World} {job : Job} {known : Context}

/-- **The outcome of a pipeline.** A job leads to the row of its applies if there is a plan whose
steps see enough of that row, and to no other value. -/
theorem Job.outcome_pipeline (hvalid : job.expression.validate = .ok ())
    (hknown : (job.context.introspect job.expression).run answer = .ok known)
    (hunwind : Pipeline.unwind? job.expression = some (seed, applies))
    (htakes : seed.Takes (applies.map Prod.fst))
    (hperforms : Performs answer job.config natives (.ofContext (job.context.update known)) seed
      applies final)
    (hdelivers : ∀ steps, ofExpression (job.context.update known) job.expression =
      .ok (.pipeline seed steps) → ∀ pattern, .totals pattern ∈ steps →
        pattern.Delivers answer job.config natives) (v : Value) :
    job.outcome answer = .ok v ↔ v = .dataset [final] ∧
      ∃ steps, ofExpression (job.context.update known) job.expression =
          .ok (.pipeline seed steps) ∧
        ∀ step ∈ steps, step.SeesEnough answer job.config natives seed final
          (datasetNames steps) := by
  have houtcome : job.outcome answer = job.outcomeAfter answer known := by
    rw [outcome, Expression.admit, hvalid, hknown]
    rfl
  rw [houtcome, outcomeAfter, Except.bind_eq_ok]
  simp only [Expression.planWith, Except.mapError_eq_ok]
  constructor
  · rintro ⟨plan, hplan, hv⟩
    obtain ⟨p, hp, rfl⟩ := (Plan.ofExpression_eq_ok hunwind).1 hplan
    obtain ⟨rows, hrows, hv⟩ := Except.bind_eq_ok.1 hv
    obtain ⟨rfl, hsees⟩ := (hperforms.run_eq_ok htakes hp (hdelivers p.steps hplan) rows).1 hrows
    exact ⟨(Except.ok.inj hv).symm, p.steps, hplan, hsees⟩
  · rintro ⟨rfl, steps, hplan, hsees⟩
    obtain ⟨p, hp, hsteps⟩ := (Plan.ofExpression_eq_ok hunwind).1 hplan
    obtain rfl := (Plan.pipeline.inj hsteps).2
    have hrows := (hperforms.run_eq_ok htakes hp (hdelivers p.steps hplan) [final]).2 ⟨rfl, hsees⟩
    exact ⟨_, hplan, Except.bind_eq_ok.2 ⟨_, hrows, rfl⟩⟩

end Simulation

/-! ### Pipelines over seven edits -/

namespace Sample

open Simulation

/-- A backend that has counted seven edits, whatever the column for their number is called. -/
def sevenEdits : Backend :=
  let counted := .object [("Edits", .int 7), ("!T_0", .int 7)]
  let item := .object [("timestamp", .string "1970-01-01T00:00:00.000Z"), ("result", counted)]
  ⟨[⟨.object [], .now [.ok (.array [item])], none⟩], [], none⟩

/-- The world with this backend. -/
def sevenEditsWorld : World := ⟨[("wiki", sevenEdits)], [], []⟩

/-- The replies of the backend. -/
def sevenEditsReply (request : Request) : Reply :=
  ((sevenEditsWorld.backend request.backend).answer request.query).1.reply

theorem sevenEditsWorld_answersWith : sevenEditsWorld.AnswersWith sevenEditsReply := by
  refine (World.isSteady_of_backends ?_).answersWith
  rw [sevenEditsWorld, List.forall_mem_singleton]
  refine Backend.isSteady_of_rules ?_ rfl
  rw [sevenEdits, List.forall_mem_singleton]

/-- The job of a pipeline over the datasource of edits, onto an empty row. -/
def editsJob (applies : List (String × Expression)) : Job :=
  { expression := applies.foldl (fun e a => .apply e a.2 a.1) (.literal (.dataset [[]]))
    context := [("edits", edits)]
    config := .standard
    token := none
    cancelAt := none }

/-- The number of edits, as it is for each query. -/
def sevenOfEach : Natives := fun _ _ => [.number (Float.ofInt 7)]

/-- The number of edits and the same number once more. -/
def copiedEdits : List (String × Expression) :=
  [("Edits", .count (.ref "edits")), ("Copy", .ref "Edits")]

/-- The query for a value over the number of edits. -/
def editsTotal (e : Expression) : Pattern := .scalars (.ofExternal edits) "edits" [("Edits", e)]

/-- The row of the number of edits and its copy. -/
def copiedRow : Row := [("Copy", .number (Float.ofInt 7)), ("Edits", .number (Float.ofInt 7))]

theorem copiedEdits_plan : ofExpression [("edits", edits)] (editsJob copiedEdits).expression =
    .ok (.pipeline [] [.totals (editsTotal (.count (.ref "edits"))),
      .derived "Copy" (.ref "Edits")]) :=
  rfl

theorem copiedEdits_performs : Performs sevenEditsReply .standard sevenOfEach
    (.ofContext [("edits", edits)]) [] copiedEdits copiedRow :=
  .total rfl rfl rfl rfl (.derived rfl rfl rfl .nil)

/-- The query fetches one row, with the number of edits as its only native column. -/
theorem copiedEdits_fetches : ∃ c row, (editsTotal (.count (.ref "edits"))).Fetches
    sevenEditsReply .standard c [row] ∧
      c.columns.map (Row.get? row) = [some (.number (Float.ofInt 7))] :=
  ⟨_, _, ⟨rfl, rfl, by decide⟩, rfl⟩

/-- The sum of the number of edits and the constant. -/
def offsetTotal : Expression :=
  .binary (.arithmetic .add) (.count (.ref "edits")) (.ref "Offset")

/-- A constant and the number of edits with the constant added to it. -/
def offsetEdits : List (String × Expression) :=
  [("Offset", .literal (.number 5)), ("Edits", offsetTotal)]

/-- The row of the constant and the sum. -/
def offsetRow : Row := [("Edits", .number (Float.ofInt 7 + 5)), ("Offset", .number 5)]

theorem offsetEdits_plan : ofExpression [("edits", edits)] (editsJob offsetEdits).expression =
    .ok (.pipeline [] [.derived "Offset" (.literal (.number 5)),
      .totals (editsTotal offsetTotal)]) :=
  rfl

theorem offsetEdits_performs : Performs sevenEditsReply .standard sevenOfEach
    (.ofContext [("edits", edits)]) [] offsetEdits offsetRow :=
  .derived rfl rfl rfl (.total rfl rfl rfl rfl .nil)

/-- The query fetches the number of edits into a hidden column. -/
theorem offsetEdits_fetches : ∃ c row, (editsTotal offsetTotal).Fetches
    sevenEditsReply .standard c [row] ∧
      c.columns.map (Row.get? row) = [some (.number (Float.ofInt 7))] :=
  ⟨_, _, ⟨rfl, rfl, by decide⟩, rfl⟩

end Sample

/-! ### The value of a pipeline -/

namespace Simulation

variable {w : World} {job : Job} {known : Context}

/-- **Computing a pipeline.** Take a pipeline whose results have different names, none of them a
name of the seed or one that begins like those of hidden columns, and whose applies, performed one
after the other on the seed, yield a row. Unless time runs out, computing the pipeline yields this
row if it has a plan and each step of the plan sees enough of the row, and fails otherwise. -/
theorem World.compute_pipeline (hw : w.AnswersWith answer) (htoken : job.token = none)
    (hvalid : job.expression.validate = .ok ())
    (hknown : (job.context.introspect job.expression).run answer = .ok known)
    (hunwind : Pipeline.unwind? job.expression = some (seed, applies))
    (htakes : seed.Takes (applies.map Prod.fst))
    (hperforms : Performs answer job.config natives (.ofContext (job.context.update known)) seed
      applies final)
    (hdelivers : ∀ steps, ofExpression (job.context.update known) job.expression =
      .ok (.pipeline seed steps) → ∀ pattern, .totals pattern ∈ steps →
        pattern.Delivers answer job.config natives) :
    (w.compute job).1 = .error (.timeout job.config.timeout) ∨
      ∀ v, (w.compute job).1 = .ok v ↔ v = .dataset [final] ∧
        ∃ steps, ofExpression (job.context.update known) job.expression =
            .ok (.pipeline seed steps) ∧
          ∀ step ∈ steps, step.SeesEnough answer job.config natives seed final
            (datasetNames steps) := by
  obtain hcompute | htimeout := World.compute_outcome hw htoken
  · right
    intro v
    rw [← Except.toOption_eq_some_iff, hcompute, Except.toOption_eq_some_iff]
    exact Job.outcome_pipeline hvalid hknown hunwind htakes hperforms hdelivers v
  · exact .inl htimeout

open Sample in
/-- A derived value sees the totals. -/
theorem World.compute_pipeline_copiedEdits :
    sevenEditsWorld.AnswersWith sevenEditsReply ∧ (editsJob copiedEdits).token = none ∧
      (editsJob copiedEdits).expression.validate = .ok () ∧
      ((editsJob copiedEdits).context.introspect (editsJob copiedEdits).expression).run
        sevenEditsReply = .ok [] ∧
      Pipeline.unwind? (editsJob copiedEdits).expression = some ([], copiedEdits) ∧
      Row.Takes [] (copiedEdits.map Prod.fst) ∧
      Performs sevenEditsReply .standard sevenOfEach (.ofContext [("edits", edits)]) [] copiedEdits
        copiedRow ∧
      (∀ steps, ofExpression [("edits", edits)] (editsJob copiedEdits).expression =
        .ok (.pipeline [] steps) → ∀ pattern, .totals pattern ∈ steps →
          pattern.Delivers sevenEditsReply .standard sevenOfEach) ∧
      ((sevenEditsWorld.compute (editsJob copiedEdits)).1 = .error (.timeout 30000) ∨
        (sevenEditsWorld.compute (editsJob copiedEdits)).1 = .ok (.dataset [copiedRow])) := by
  obtain ⟨c, row, hfetches, hnatives⟩ := copiedEdits_fetches
  have hw := sevenEditsWorld_answersWith
  have htakes : Row.Takes [] (copiedEdits.map Prod.fst) :=
    ⟨by decide, fun _ _ => rfl, by decide, fun _ _ => rfl⟩
  have hdelivers : ∀ steps, ofExpression [("edits", edits)] (editsJob copiedEdits).expression =
      .ok (.pipeline [] steps) → ∀ pattern, .totals pattern ∈ steps →
        pattern.Delivers sevenEditsReply .standard sevenOfEach := by
    rintro steps hplan pattern hpattern
    obtain rfl := (Plan.pipeline.inj (Except.ok.inj (copiedEdits_plan.symm.trans hplan))).2
    obtain heq | hrest := List.mem_cons.1 hpattern
    · obtain rfl := Step.totals.inj heq
      exact ⟨c, row, [], hfetches, hnatives⟩
    · exact nomatch List.mem_singleton.1 hrest
  have htoken : (editsJob copiedEdits).token = none := rfl
  have hknown : ((editsJob copiedEdits).context.introspect (editsJob copiedEdits).expression).run
      sevenEditsReply = .ok [] := rfl
  refine ⟨hw, htoken, rfl, hknown, rfl, htakes, copiedEdits_performs, hdelivers, ?_⟩
  refine (World.compute_pipeline hw htoken rfl hknown rfl htakes copiedEdits_performs
    hdelivers).imp_right fun h => (h _).2 ⟨rfl, _, copiedEdits_plan, ?_⟩
  rw [List.forall_mem_cons, List.forall_mem_singleton]
  refine ⟨⟨?_, ?_⟩, _, rfl⟩
  · intro name e hmem
    obtain ⟨⟩ | ⟨_, ⟨⟩⟩ := hmem
    rfl
  · intro c' first others hfetches'
    obtain ⟨-, hrows⟩ := hfetches.unique hfetches'
    obtain ⟨-, rfl⟩ := List.cons.inj hrows
    exact nofun

open Sample in
/-- A total does not see a constant: the pipeline has a row, but computing it does not yield it. -/
theorem World.compute_offsetEdits :
    sevenEditsWorld.AnswersWith sevenEditsReply ∧
      Pipeline.unwind? (editsJob offsetEdits).expression = some ([], offsetEdits) ∧
      ("edits" :: offsetEdits.map Prod.fst).Nodup ∧
      Performs sevenEditsReply .standard sevenOfEach (.ofContext [("edits", edits)]) [] offsetEdits
        offsetRow ∧
      (∀ steps, ofExpression [("edits", edits)] (editsJob offsetEdits).expression =
        .ok (.pipeline [] steps) → ∀ pattern, .totals pattern ∈ steps →
          pattern.Delivers sevenEditsReply .standard sevenOfEach) ∧
      (sevenEditsWorld.compute (editsJob offsetEdits)).1 ≠ .ok (.dataset [offsetRow]) := by
  obtain ⟨c, row, hfetches, hnatives⟩ := offsetEdits_fetches
  have hw := sevenEditsWorld_answersWith
  have htakes : Row.Takes [] (offsetEdits.map Prod.fst) :=
    ⟨by decide, fun _ _ => rfl, by decide, fun _ _ => rfl⟩
  have hdelivers : ∀ steps, ofExpression [("edits", edits)] (editsJob offsetEdits).expression =
      .ok (.pipeline [] steps) → ∀ pattern, .totals pattern ∈ steps →
        pattern.Delivers sevenEditsReply .standard sevenOfEach := by
    rintro steps hplan pattern hpattern
    obtain rfl := (Plan.pipeline.inj (Except.ok.inj (offsetEdits_plan.symm.trans hplan))).2
    obtain heq | hrest := List.mem_cons.1 hpattern
    · exact nomatch heq
    · obtain rfl := Step.totals.inj (List.mem_singleton.1 hrest)
      exact ⟨c, row, [], hfetches, hnatives⟩
  refine ⟨hw, rfl, by decide, offsetEdits_performs, hdelivers, fun hv => ?_⟩
  have htoken : (editsJob offsetEdits).token = none := rfl
  have hknown : ((editsJob offsetEdits).context.introspect (editsJob offsetEdits).expression).run
      sevenEditsReply = .ok [] := rfl
  obtain hcompute | htimeout := World.compute_outcome hw htoken
  · rw [← Except.toOption_eq_some_iff, hcompute, Except.toOption_eq_some_iff,
      Job.outcome_pipeline rfl hknown rfl htakes offsetEdits_performs hdelivers] at hv
    obtain ⟨-, steps, hplan, hsees⟩ := hv
    obtain rfl := (Plan.pipeline.inj (Except.ok.inj (offsetEdits_plan.symm.trans hplan))).2
    obtain ⟨hsome, -⟩ := hsees _ (List.mem_cons_of_mem _ List.mem_cons_self)
    exact nomatch hsome "Edits" offsetTotal List.mem_cons_self
  · exact nomatch htimeout.symm.trans hv

end Simulation

end FederatedQuery
