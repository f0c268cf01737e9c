import FederatedQuery.Proofs.FirstRequest
import FederatedQuery.Proofs.Nesting
import FederatedQuery.Proofs.Parts
import Mathlib.Algebra.Ring.Nat

/-!
# Nested requests under way

Each pattern with nested ones has a window of its own, in which it works on no more groups at once
than the settings say. But in each of those groups a nested pattern may open another window, and the
datasets of a pipeline all have windows at the same time. So the number of nested requests that are
under way at once is bounded by the product of the widths of windows inside of each other, and for
pipelines by the sum of such products.

## Main definitions

* `Activity.outstanding`: the number of requests under way.
* `Task.Within`: a bound for that number.
* `Pattern.levels`, `Plan.capacity`: the bounds for patterns and plans.

## Main results

* `Task.Within.window`, `Task.Within.together`: bounds for joins.
* `Pattern.within_run`: bounds for patterns.
* `Plan.nestedOutstanding_le`: bounds for plans.
-/

namespace FederatedQuery

variable {ρ : Type} {cancellable : Bool}

/-! ### Requests under way -/

namespace Activity

mutual

/-- The number of requests under way that lie inside of at least so many joins. -/
def outstanding : Nat → Activity ρ → Nat
  | _, .settled _ => 0
  | _, .ready _ => 0
  | depth, .waiting _ _ => if depth = 0 then 1 else 0
  | depth, .joined _ _ slots _ _ => outstandingAll (depth - 1) slots

/-- The number of such requests of several tasks. -/
def outstandingAll : Nat → List (Activity ρ) → Nat
  | _, [] => 0
  | depth, slot :: rest => outstanding depth slot + outstandingAll depth rest

end

theorem outstandingAll_append (depth : Nat) (slots others : List (Activity ρ)) :
    outstandingAll depth (slots ++ others) =
      outstandingAll depth slots + outstandingAll depth others := by
  induction slots with
  | nil => simp [outstandingAll]
  | cons slot slots ih => simp [outstandingAll, ih, Nat.add_assoc]

theorem outstandingAll_le {depth n : Nat} {slots : List (Activity ρ)}
    (h : ∀ slot ∈ slots, slot.outstanding depth ≤ n) :
    outstandingAll depth slots ≤ slots.length * n := by
  induction slots with
  | nil => simp [outstandingAll]
  | cons slot slots ih =>
    obtain ⟨hslot, hslots⟩ := List.forall_mem_cons.1 h
    calc outstandingAll depth (slot :: slots)
      _ ≤ n + slots.length * n := Nat.add_le_add hslot (ih hslots)
      _ = (slot :: slots).length * n := by rw [List.length_cons, Nat.succ_mul, Nat.add_comm]

@[simp] theorem outstanding_bind (depth : Nat) (a : Activity ρ) (f : ρ → Task ρ) :
    (a.bind f).outstanding depth = a.outstanding depth := by
  cases a with
  | settled outcome => cases outcome <;> rfl
  | _ => rfl

end Activity

/-! ### Bounds -/

/-- In whatever way a task is carried out, no more than `n` requests inside of so many joins are
under way at once. -/
def Task.Within (depth n : Nat) (task : Task ρ) : Prop :=
  ∀ log a, Activity.Runs true (.ready task) log a → a.outstanding depth ≤ n

open Activity

namespace Task.Within

variable {depth n m : Nat}

theorem done (result : ρ) : (Task.done result).Within depth n := by
  intro log a h
  obtain ⟨-, rfl | rfl⟩ := h.of_done <;> exact Nat.zero_le n

theorem fail (error : ExecutionError) : (Task.fail (ρ := ρ) error).Within depth n := by
  intro log a h
  obtain ⟨-, rfl | rfl⟩ := h.of_fail <;> exact Nat.zero_le n

theorem look {next : Bool → Task ρ} (h : ∀ cancelled, (next cancelled).Within depth n) :
    (Task.look next).Within depth n := by
  intro log a hruns
  obtain ⟨-, rfl⟩ | ⟨cancelled, -, hruns⟩ := hruns.of_look
  · exact Nat.zero_le n
  · exact h cancelled log a hruns

theorem ask {request : Request} {next : Reply → Task ρ} (hn : depth = 0 → 1 ≤ n)
    (h : ∀ reply, (next reply).Within depth n) : (Task.ask request next).Within depth n := by
  intro log a hruns
  obtain ⟨-, rfl⟩ | ⟨reply, rest, -, ⟨-, rfl⟩ | hruns⟩ := hruns.of_ask
  · exact Nat.zero_le n
  · rw [outstanding]
    split
    · next hdepth => exact hn hdepth
    · exact Nat.zero_le n
  · exact h reply rest a hruns

theorem andThen {ε α : Type} {x : Exchange ε α} {failure : ε → ExecutionError} {next : α → Task ρ}
    (hn : depth = 0 → 1 ≤ n) (h : ∀ result, (next result).Within depth n) :
    (x.andThen failure next).Within depth n := by
  induction x with
  | done result => exact h result
  | fail error => exact .fail _
  | ask request more ih => exact .ask hn ih
  | look more ih => exact .look ih

theorem bind {task : Task ρ} {next : ρ → Task ρ} (htask : task.Within depth n)
    (h : ∀ result, (next result).Within depth n) : (task.bind next).Within depth n := by
  intro log a hruns
  obtain ⟨a', hfirst, rfl⟩ | ⟨first, result, rest, -, -, hruns⟩ :=
    Runs.of_bind (show Runs true ((Activity.ready task).bind next) log a from hruns)
  · rw [outstanding_bind]
    exact htask log a' hfirst
  · exact h result rest a hruns

/-- A join stays within a bound if its parts do while they go on. -/
theorem join {how : Join} {parts : List (Task ρ)} {next : List ρ → Task ρ}
    (hslots : ∀ started queue results slots log, parts = started ++ queue →
      Each true started log (yields results ++ slots) → Holds results slots queue how →
      outstandingAll (depth - 1) slots ≤ n)
    (hnext : ∀ results, (next results).Within depth n) :
    (Task.join how parts next).Within depth n := by
  intro log a hruns
  cases hruns.joined with
  | start => exact Nat.zero_le n
  | going hparts heach hholds => exact hslots _ _ _ _ log hparts heach hholds
  | failed => exact Nat.zero_le n
  | finished heach hrest => exact hnext _ _ a hrest

/-- **Windows.** There are no more parts at once than the window is wide. -/
theorem window {width : Nat} {parts : List (Task ρ)} {next : List ρ → Task ρ}
    (hparts : ∀ part ∈ parts, part.Within (depth - 1) m) (hn : width * m ≤ n)
    (hnext : ∀ results, (next results).Within depth n) :
    (Task.join (.window width) parts next).Within depth n := by
  refine .join (fun started queue results slots log hstarted heach hroom => ?_) hnext
  refine (outstandingAll_le fun slot hslot => ?_).trans ((Nat.mul_le_mul_right m hroom).trans hn)
  obtain ⟨part, hpart, log, -, hruns⟩ := heach.exists_of_mem (List.mem_append_right _ hslot)
  exact hparts part (hstarted ▸ List.mem_append_left _ hpart) log slot hruns

/-- **Parts that all go on at once.** -/
theorem together {α : Type} {xs : List α} {task : α → Task ρ} {size : α → Nat}
    {next : List ρ → Task ρ} (hparts : ∀ x ∈ xs, (task x).Within (depth - 1) (size x))
    (hn : (xs.map size).sum ≤ n) (hnext : ∀ results, (next results).Within depth n) :
    (Task.together (xs.map task) next).Within depth n := by
  have heach {xs : List α} {log : Log} {states : List (Activity ρ)}
      (hparts : ∀ x ∈ xs, (task x).Within (depth - 1) (size x))
      (h : Each true (xs.map task) log states) :
      outstandingAll (depth - 1) states ≤ (xs.map size).sum := by
    induction xs generalizing log states with
    | nil =>
      cases h
      exact Nat.le_refl _
    | cons x xs ih =>
      obtain ⟨hx, hxs⟩ := List.forall_mem_cons.1 hparts
      cases h with
      | cons hruns hrest _ => exact Nat.add_le_add (hx _ _ hruns) (ih hxs hrest)
  refine .join (fun started queue results slots log hstarted hstates _ => ?_) hnext
  obtain ⟨front, back, rfl, rfl, rfl⟩ := List.map_eq_append_iff.1 hstarted
  have hfront := heach (fun x hx => hparts x (List.mem_append_left _ hx)) hstates
  rw [outstandingAll_append] at hfront
  rw [List.map_append, List.sum_append] at hn
  omega

end Task.Within

/-! ### Patterns -/

/-- The nested patterns of a row take turns. -/
theorem Row.within_attach {depth n : Nat} {row : Row} {tasks : List (String × Task Dataset)}
    (h : ∀ entry ∈ tasks, entry.2.Within depth n) : (row.attach tasks).Within depth n := by
  induction tasks generalizing row with
  | nil => exact .done _
  | cons entry tasks ih =>
    obtain ⟨hentry, htasks⟩ := List.forall_mem_cons.1 h
    exact hentry.bind fun rows => ih htasks

namespace Pattern

/-- The number of levels of patterns inside of a pattern. -/
def levels (p : Pattern) : Nat :=
  (p.nestedPatterns.attach.map fun ⟨(_, nested), _⟩ => nested.levels + 1).foldr max 0
termination_by sizeOf p.applies
decreasing_by exact sizeOf_applies_lt (by assumption)

theorem levels_eq (p : Pattern) :
    p.levels = (p.nestedPatterns.map fun entry => entry.2.levels + 1).foldr max 0 := by
  rw [levels]
  exact congrArg (List.foldr max 0)
    (List.attach_map_val (l := p.nestedPatterns) (f := fun entry => entry.2.levels + 1))

theorem levels_lt {p nested : Pattern} {name : String} (h : (name, nested) ∈ p.nestedPatterns) :
    nested.levels < p.levels := by
  have hle {n : Nat} {ns : List Nat} (h : n ∈ ns) : n ≤ ns.foldr max 0 := by
    induction ns with
    | nil => exact nomatch h
    | cons m ns ih =>
      obtain rfl | h := List.mem_cons.1 h
      · exact Nat.le_max_left _ _
      · exact (ih h).trans (Nat.le_max_right _ _)
  rw [levels_eq p]
  exact hle (List.mem_map.2 ⟨(name, nested), h, rfl⟩)

@[simp] theorem levels_forGroup (outer nested : Pattern) (condition : Expression) :
    (outer.forGroup nested condition).levels = nested.levels := by
  rw [levels_eq, levels_eq]
  rfl

/-- How many nested requests of a pattern may be under way at once, given the width of windows. -/
def capacity (width : Nat) (p : Pattern) : Nat := if p.levels = 0 then 0 else width ^ p.levels

/-- **Bounds for patterns.** Whether the requests for the rows of the pattern itself are counted or
not, those of nested patterns stay within the capacity. -/
theorem within_run (config : Config) (p : Pattern) (scope : Scope) {depth n : Nat}
    (hdepth : depth ≤ 1) (hown : depth = 0 → 1 ≤ n) (hn : p.capacity config.width ≤ n) :
    (p.run config scope).Within depth n := by
  rw [run]
  refine .look fun cancelled => ?_
  split
  · exact .fail _
  split
  · exact .fail _
  refine .andThen hown fun rows => ?_
  split
  · exact .done _
  split
  · exact .done _
  next hnested =>
  have hwidth : 1 ≤ config.width := Nat.le_max_right _ _
  obtain ⟨entry, hentry⟩ : ∃ entry, entry ∈ p.nestedPatterns :=
    List.exists_mem_of_ne_nil _ fun h => hnested (List.isEmpty_iff.2 h)
  have hlevels : 0 < p.levels := (Nat.zero_le _).trans_lt (levels_lt hentry)
  rw [capacity, if_neg hlevels.ne'] at hn
  have hproduct : config.width * config.width ^ (p.levels - 1) ≤ n := by
    rwa [← Nat.pow_succ', Nat.succ_eq_add_one, Nat.sub_add_cancel hlevels]
  refine .window (fun part hpart => ?_) hproduct fun parts => .done _
  obtain ⟨row, -, rfl⟩ := List.mem_map.1 hpart
  refine Row.within_attach fun entry hentry => ?_
  obtain ⟨⟨⟨name, nested⟩, hmem⟩, -, rfl⟩ := List.mem_map.1 hentry
  have hsub : depth - 1 = 0 := by omega
  refine within_run config _ _ (hsub.trans_le (Nat.zero_le 1))
    (fun _ => Nat.one_le_pow _ _ hwidth) ?_
  rw [capacity, levels_forGroup]
  split
  · exact Nat.zero_le _
  · exact Nat.pow_le_pow_right hwidth (Nat.le_sub_one_of_lt (levels_lt hmem))
termination_by sizeOf p.applies
decreasing_by
  rw [forGroup_applies]
  exact sizeOf_applies_lt hmem

end Pattern

/-! ### Plans -/

namespace Plan

/-- The number of requests for nested patterns that are under way. In a pipeline the patterns of its
steps go on side by side themselves. -/
def nestedOutstanding (a : Activity Dataset) : Plan → Nat
  | .value _ | .dataset _ | .scalar _ => a.outstanding 1
  | .pipeline .. => a.outstanding 2

/-- How many nested requests of a plan may be under way at once, given the width of windows. -/
def capacity (width : Nat) : Plan → Nat
  | .value _ => 0
  | .dataset p | .scalar p => p.capacity width
  | .pipeline _ steps =>
    max ((steps.filterMap Step.totals?).map (Pattern.capacity width)).sum
      ((steps.filterMap Step.dataset?).map fun p => p.2.capacity width).sum

end Plan

/-! ### Languages of pages -/

namespace Sample

/-- The edits by page, and for each page by language. -/
def languagesOfPages : Expression := .apply (editsBy "page") (editsBy "language") "Languages"

/-- The pattern of the edits by page, and for each page by language. -/
def languagesOfPagesPattern : Pattern :=
  patternBy "page" [("Languages", .nested (patternBy "language" []))]

theorem pattern_languagesOfPages :
    (Bindings.ofContext [("edits", edits)]).pattern languagesOfPages =
      .ok languagesOfPagesPattern := by
  rw [Bindings.pattern]
  change ((((Bindings.ofContext [("edits", edits)]).pattern (editsBy "language") >>= fun nested =>
    Except.ok ("Languages", Body.nested nested)) >>= fun apply => Except.ok [apply]) >>=
      fun applies => Except.ok (patternBy "page" applies)) = _
  rw [pattern_editsBy]
  rfl

/-- The languages of pages, twice. -/
def languagesTwice : List (String × Expression) :=
  [("Pages", languagesOfPages), ("Again", languagesOfPages)]

/-- The plan for the languages of pages, twice. -/
def languagesTwicePlan : Plan :=
  .pipeline [] [.dataset "Pages" languagesOfPagesPattern, .dataset "Again" languagesOfPagesPattern]

theorem languagesTwice_plan :
    Plan.ofExpression [("edits", edits)] (editsJob languagesTwice).expression =
      .ok languagesTwicePlan := by
  have hunwind : Pipeline.unwind? (editsJob languagesTwice).expression =
      some ([], languagesTwice) := rfl
  refine (Plan.ofExpression_eq_ok hunwind).2 ⟨⟨.ofContext [("edits", edits)], _, []⟩, ?_, rfl⟩
  refine Except.bind_eq_ok.2 ⟨_, Pipeline.addApply_of_pattern "Pages" rfl rfl
    pattern_languagesOfPages, ?_⟩
  exact Except.bind_eq_ok.2 ⟨_, Pipeline.addApply_of_pattern "Again" rfl rfl
    pattern_languagesOfPages, rfl⟩

theorem languagesOfPagesPattern_levels : languagesOfPagesPattern.levels = 1 := by
  rw [Pattern.levels_eq]
  change max ((patternBy "language" []).levels + 1) 0 = 1
  rw [Pattern.levels_eq]
  rfl

/-- Settings by which one group is worked on at a time. -/
def oneByOne : Config := { Config.standard with maxConcurrentTasks := 1 }

/-- The languages of the front page. -/
def languagesOfFrontPage : Pattern :=
  languagesOfPagesPattern.forGroup (patternBy "language" []) frontPage.condition

/-- A pattern of the languages of pages comes to wait for the languages of the front page. -/
theorem runs_languagesOfPages (scope : Scope) : ∃ log reply more next,
    Activity.Runs true (.ready (languagesOfPagesPattern.run oneByOne scope)) log
      (.joined (.window 1) [] [.waiting reply more] [] next) := by
  have hinner : ∃ request next,
      (languagesOfFrontPage.run oneByOne (frontPage.row :: scope)).heed false =
        .ask request next := by
    rw [Pattern.run]
    exact ⟨_, _, rfl⟩
  obtain ⟨request, inner, hinner⟩ := hinner
  have hslot : ∃ more, Activity.Step false
      (.ready (frontPage.row.attach
        [("Languages", languagesOfFrontPage.run oneByOne (frontPage.row :: scope))]))
      [(request, [])] (.waiting [] more) := by
    have hattach := Task.heed_bind false
      (fun dataset => (frontPage.row.put "Languages" (.dataset dataset)).attach [])
      (languagesOfFrontPage.run oneByOne (frontPage.row :: scope))
    rw [hinner] at hattach
    exact ⟨_, .ask hattach []⟩
  obtain ⟨more, hslot⟩ := hslot
  have hpages : ∃ own next next', Activity.Step false
      (.ready (languagesOfPagesPattern.run oneByOne scope)) [(own, frontPageReply)]
        (.waiting frontPageReply next) ∧
      (next frontPageReply).heed false = .join (.window 1) [frontPage.row.attach
        [("Languages", languagesOfFrontPage.run oneByOne (frontPage.row :: scope))]] next' := by
    rw [Pattern.run]
    exact ⟨_, _, _, .ask rfl frontPageReply, rfl⟩
  obtain ⟨own, next, next', hasks, hwindow⟩ := hpages
  have hwaits := (Activity.Runs.single (fun _ => rfl) hslot).part (.window 1) [] [] [] [] next'
  have hopens := Activity.Runs.quiet (.window hwindow) (.quiet (.enter Nat.zero_lt_one) hwaits)
  exact ⟨_, [], more, next', .cons hasks (.quiet (.reply frontPageReply next) hopens)⟩

/-- Both datasets come to wait for the languages of the front page. -/
theorem runs_languagesTwice : ∃ log a,
    Activity.Runs true (.ready (languagesTwicePlan.run oneByOne)) log a ∧
      languagesTwicePlan.nestedOutstanding a = 2 := by
  obtain ⟨log, reply, more, next, hruns⟩ := runs_languagesOfPages [[]]
  have hjoins : ∃ derives next',
      (languagesTwicePlan.run oneByOne).heed false = .join .all [] derives ∧
      (derives []).heed false = .join .all [languagesOfPagesPattern.run oneByOne [[]],
        languagesOfPagesPattern.run oneByOne [[]]] next' := ⟨_, _, rfl, rfl⟩
  obtain ⟨derives, next', htotals, hdatasets⟩ := hjoins
  have hdone : Activity.Step false (.joined .all [] [] [] derives) [] (.ready (derives [])) :=
    @Activity.Step.allDone _ _ [] [] [] _
  have hall : Activity.Runs true (.ready (languagesTwicePlan.run oneByOne)) _ _ :=
    .quiet (.all htotals) (.quiet hdone (.quiet (.all hdatasets) (.refl _)))
  have hfirst := hruns.part .all [] [] [.ready (languagesOfPagesPattern.run oneByOne [[]])] [] next'
  have hsecond :=
    hruns.part .all [] [.joined (.window 1) [] [.waiting reply more] [] next] [] [] next'
  exact ⟨_, _, hall.trans (hfirst.trans hsecond), rfl⟩

end Sample

namespace Plan

/-- **Bounds for plans.** In whatever order the requests of a plan are answered, those for nested
patterns that are under way stay within its capacity. -/
theorem nestedOutstanding_le {plan : Plan} {config : Config} {log : Log} {a : Activity Dataset}
    (h : Activity.Runs true (.ready (plan.run config)) log a) :
    plan.nestedOutstanding a ≤ plan.capacity config.width := by
  have hpattern (p : Pattern) (scope : Scope) :
      (p.run config scope).Within 1 (p.capacity config.width) :=
    p.within_run config scope (Nat.le_refl 1) (fun h => absurd h Nat.one_ne_zero) (Nat.le_refl _)
  cases plan with
  | value e =>
    rw [run] at h
    split at h
    · exact Task.Within.fail _ _ _ h
    · exact Task.Within.done _ _ _ h
  | dataset p => exact hpattern p [] _ _ h
  | scalar p => exact hpattern p [] _ _ h
  | pipeline seed steps =>
    refine Task.Within.together (fun p _ => hpattern p _) (Nat.le_max_left _ _)
      (fun answers => ?_) _ _ h
    split
    · exact .fail _
    · exact .together (fun p _ => hpattern p.2 _) (Nat.le_max_right _ _) fun answers => .done _

/-- **Single windows.** A plan of one pattern keeps to the width of its window if no nested pattern
has nested ones, or if windows let through one group at a time. -/
theorem outstanding_le_width {p : Pattern} {config : Config} {log : Log} {a : Activity Dataset}
    (h : Activity.Runs true (.ready ((Plan.dataset p).run config)) log a)
    (hp : p.levels ≤ 1 ∨ config.width = 1) : a.outstanding 1 ≤ config.width := by
  refine (p.within_run config [] (Nat.le_refl 1) nofun (Nat.le_refl _) _ _ h).trans ?_
  have hwidth : 1 ≤ config.width := Nat.le_max_right _ _
  rw [Pattern.capacity]
  split
  · exact Nat.zero_le _
  rcases hp with hlevels | hone
  · exact (Nat.pow_le_pow_right hwidth hlevels).trans (Nat.pow_one _).le
  · rw [hone, Nat.one_pow]

open Sample in
/-- Where each pattern works on one group at a time, the two datasets of languages have no more than
two nested requests under way. -/
theorem nestedOutstanding_le_languagesTwice : ∃ log a,
    Activity.Runs true (.ready (languagesTwicePlan.run oneByOne)) log a ∧
      languagesTwicePlan.nestedOutstanding a ≤ 2 := by
  obtain ⟨log, a, hruns, -⟩ := runs_languagesTwice
  have hcapacity : languagesOfPagesPattern.capacity 1 = 1 := by
    rw [Pattern.capacity, Nat.one_pow, languagesOfPagesPattern_levels]
    rfl
  refine ⟨log, a, hruns, (nestedOutstanding_le hruns).trans_eq ?_⟩
  change max 0 (languagesOfPagesPattern.capacity 1 + (languagesOfPagesPattern.capacity 1 + 0)) = 2
  rw [hcapacity]
  rfl

open Sample in
/-- The width of windows does not bound the nested requests of a plan. -/
theorem width_lt_nestedOutstanding :
    (editsJob languagesTwice).expression.validate = .ok () ∧
      Plan.ofExpression [("edits", edits)] (editsJob languagesTwice).expression =
        .ok languagesTwicePlan ∧
      oneByOne.width = 1 ∧
      ∃ log a, Activity.Runs true (.ready (languagesTwicePlan.run oneByOne)) log a ∧
        oneByOne.width < languagesTwicePlan.nestedOutstanding a := by
  obtain ⟨log, a, hruns, houtstanding⟩ := runs_languagesTwice
  refine ⟨rfl, languagesTwice_plan, rfl, log, a, hruns, ?_⟩
  rw [houtstanding]
  exact Nat.one_lt_two

end Plan

end FederatedQuery
