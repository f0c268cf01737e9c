import FederatedQuery.Proofs.Settling

/-!
# What computations keep

A computation acts on its world in two ways only: it hands requests to backends, and its token is
cancelled. What holds of the world before, and is kept by each of these, therefore holds at every
moment of the computation and after it, however its parts are joined and whenever replies come.
Above all, requests that have been made stay made.

## Main definitions

* `World.IsKept`: what requests and cancellations keep.

## Main results

* `Running.keeps_start`, `Running.keeps_resume`: tasks that are started and go on.
* `World.keeps_compute`: whole computations.
* `World.isKept_requests`: requests stay made.
-/

namespace FederatedQuery.Simulation

/-- What holds of a world goes on to hold, whatever is asked and cancelled in it. -/
structure World.IsKept (P : World → Prop) : Prop where
  ask : ∀ w now request, P w → P (w.ask now request).2
  cancel : ∀ w token, P w → P (w.cancel token)

variable {P : World → Prop}

/-- Requests that have been made stay made. -/
theorem World.isKept_requests (requests : List Request) :
    World.IsKept fun w => requests <+: w.requests :=
  ⟨fun _ _ _ h => h.trans (List.prefix_append _ _), fun _ _ h => h⟩

namespace Running

variable {ρ : Type} {token : Option String} {now : Nat}

/-! ### Parts in their order -/

/-- The foremost task and those after it. -/
theorem keeps_cons {x : Running ρ × World} (hx : P x.2)
    {others : World → Except ExecutionError (List (Running ρ)) × World}
    (hothers : ∀ w, P w → P (others w).2) :
    P (match x with
      | (.settled (.error error), w) =>
        ((.error error, w) : Except ExecutionError (List (Running ρ)) × World)
      | (first, w) =>
        match others w with
        | (.ok slots, w) => (.ok (first :: slots), w)
        | (.error error, w) => (.error error, w)).2 := by
  rcases x with ⟨first, w⟩
  have hrest := hothers w hx
  split
  · next heq => exact (Prod.mk.inj heq).2 ▸ hx
  · next heq =>
    obtain ⟨rfl, rfl⟩ := Prod.mk.inj heq
    revert hrest
    rcases others w with ⟨error | slots, w⟩ <;> exact id

/-- The parts that go on at once, and what comes after them. -/
theorem keeps_all {x : Except ExecutionError (List (Running ρ)) × World} (hx : P x.2)
    {next : List ρ → Task ρ} (hnext : ∀ results w, P w → P (start token now (next results) w).2)
    (results : List ρ) (queue : List (Task ρ)) :
    P (match x with
      | (.error error, w) => (Running.settled (.error error), w)
      | (.ok slots, w) =>
        match results? slots with
        | some results => start token now (next results) w
        | none => (.joined .all results slots queue next, w)).2 := by
  rcases x with ⟨error | slots, w⟩
  · exact hx
  · simp only
    split
    · next results _ => exact hnext results w hx
    · exact hx

/-- The parts of a window, and what comes after them. -/
theorem keeps_window
    {x : Except ExecutionError (List ρ × List (Running ρ) × List (Task ρ)) × World} (hx : P x.2)
    {next : List ρ → Task ρ} (hnext : ∀ results w, P w → P (start token now (next results) w).2)
    (width : Nat) :
    P (match x with
      | (.error error, w) => (Running.settled (.error error), w)
      | (.ok (results, [], []), w) => start token now (next results) w
      | (.ok (results, slots, queue), w) =>
        (.joined (.window width) results slots queue next, w)).2 := by
  split
  · exact hx
  · next results w => exact hnext results w hx
  · exact hx

/-- The foremost part of a queue and those after it. -/
theorem keeps_fill_cons {width : Nat} {task : Task ρ} {rest : List (Task ρ)} {results : List ρ}
    {slots : List (Running ρ)} {w : World} (htask : P (start token now task w).2)
    (hrest : ∀ results slots w, P w → P (fill token now width rest results slots w).2)
    (hwidth : slots.length < width) :
    P (fill token now width (task :: rest) results slots w).2 := by
  rw [fill, if_pos hwidth]
  revert htask
  rcases start token now task w with ⟨last, w⟩
  intro hw
  simp only
  split
  · exact hw
  split
  · exact hw
  · next results slots _ => exact hrest results slots w hw

/-! ### Starting -/

mutual

/-- **Starting.** A task that is started keeps what requests keep. -/
theorem keeps_start (hP : World.IsKept P) : (task : Task ρ) → (w : World) → P w →
    P (start token now task w).2
  | .done result, w, hw => hw
  | .fail error, w, hw => hw
  | .ask request next, w, hw => by
      have hasked := hP.ask w now request hw
      rw [start]
      revert hasked
      rcases w.ask now request with ⟨arrival, w⟩
      intro hw
      simp only
      split
      · exact keeps_start hP (next arrival.reply) w hw
      · exact hw
  | .look next, w, hw => keeps_start hP (next (w.isCancelled token)) w hw
  | .join .all parts next, w, hw => by
      rw [start]
      exact keeps_all (keeps_startAll hP parts w hw)
        (fun results w hw => keeps_start hP (next results) w hw) [] []
  | .join (.window width) parts next, w, hw => by
      rw [start]
      exact keeps_window (keeps_fill hP width parts [] [] w hw)
        (fun results w hw => keeps_start hP (next results) w hw) width

theorem keeps_startAll (hP : World.IsKept P) : (tasks : List (Task ρ)) → (w : World) → P w →
    P (startAll token now tasks w).2
  | [], w, hw => hw
  | task :: rest, w, hw => by
      rw [startAll]
      exact keeps_cons (keeps_start hP task w hw) fun w hw => keeps_startAll hP rest w hw

theorem keeps_fill (hP : World.IsKept P) (width : Nat) : (tasks : List (Task ρ)) →
    (results : List ρ) → (slots : List (Running ρ)) → (w : World) → P w →
    P (fill token now width tasks results slots w).2
  | [], results, slots, w, hw => hw
  | task :: rest, results, slots, w, hw => by
      by_cases hwidth : slots.length < width
      · exact keeps_fill_cons (keeps_start hP task w hw)
          (fun results slots w hw => keeps_fill hP width rest results slots w hw) hwidth
      · rw [fill, if_neg hwidth]
        exact hw

end

/-! ### Going on -/

/-- Tasks that go on in turn keep what each way of going on keeps. -/
theorem keeps_resumeInTurn {ways : List (World → Running ρ × World)}
    (hways : ∀ way ∈ ways, ∀ w, P w → P (way w).2) (turns : List Nat)
    {slots : List (Running ρ)} {w : World} (hw : P w) : P (resumeInTurn ways turns slots w).2 := by
  induction turns generalizing slots w with
  | nil => exact hw
  | cons i turns ih =>
    rw [resumeInTurn]
    split
    · exact ih hw
    · next way hway =>
      have hslot := hways way (List.mem_of_getElem? hway) w hw
      revert hslot
      rcases way w with ⟨slot, w⟩
      intro hw
      simp only
      split
      · exact hw
      split
      · exact hw
      · exact ih hw

mutual

/-- **Going on.** A task that goes on keeps what requests keep. -/
theorem keeps_resume (hP : World.IsKept P) : (task : Running ρ) → (w : World) → P w →
    P (resume token now task w).2
  | .settled outcome, w, hw => hw
  | .waiting arrival next, w, hw => by
      rw [resume]
      split
      · exact keeps_start hP (next arrival.reply) w hw
      · exact hw
  | .joined .all results slots queue next, w, hw => by
      rw [resume]
      exact keeps_all (keeps_resumeAll hP slots w hw)
        (fun results w hw => keeps_start hP (next results) w hw) results queue
  | .joined (.window width) results slots queue next, w, hw => by
      have hslots : P (resumeInTurn (waysOn token now slots) (turns now slots) slots w).2 :=
        keeps_resumeInTurn (keeps_waysOn hP slots) (turns now slots) hw
      rw [resume]
      revert hslots
      rcases resumeInTurn (waysOn token now slots) (turns now slots) slots w with
        ⟨error | slots, w⟩
      · exact id
      · intro hw
        simp only
        split
        · exact hw
        · next results slots _ =>
          exact keeps_window (keeps_fill hP width queue results slots w hw)
            (fun results w hw => keeps_start hP (next results) w hw) width

theorem keeps_resumeAll (hP : World.IsKept P) : (slots : List (Running ρ)) → (w : World) → P w →
    P (resumeAll token now slots w).2
  | [], w, hw => hw
  | slot :: rest, w, hw => by
      rw [resumeAll]
      exact keeps_cons (keeps_resume hP slot w hw) fun w hw => keeps_resumeAll hP rest w hw

theorem keeps_waysOn (hP : World.IsKept P) : (slots : List (Running ρ)) →
    ∀ way ∈ waysOn token now slots, ∀ w, P w → P (way w).2
  | slot :: rest, way, hway, w, hw => by
      obtain rfl | hrest := List.mem_cons.1 hway
      · exact keeps_resume hP slot w hw
      · exact keeps_waysOn hP rest way hrest w hw

end

end Running

namespace Stage

variable {job : Job}

theorem keeps_ofRun {plan : Plan} {x : Running Dataset × World} (hx : P x.2) :
    P (ofRun plan x).2 := by
  unfold ofRun
  split <;> exact hx

theorem keeps_ofIntrospection (hP : World.IsKept P) {now : Nat} {x : Running Context × World}
    (hx : P x.2) : P (ofIntrospection job now x).2 := by
  unfold ofIntrospection
  split
  · exact hx
  · split
    · exact hx
    · exact keeps_ofRun (Running.keeps_start hP _ _ hx)
  · exact hx

theorem keeps_resume (hP : World.IsKept P) (now : Nat) (stage : Stage) {w : World} (hw : P w) :
    P (stage.resume job now w).2 := by
  cases stage with
  | introspecting task => exact keeps_ofIntrospection hP (Running.keeps_resume hP task w hw)
  | running plan task => exact keeps_ofRun (Running.keeps_resume hP task w hw)
  | settled outcome => exact hw

theorem keeps_cancelFromOutside (hP : World.IsKept P) (now : Nat) {w : World} (hw : P w) :
    P (job.cancelFromOutside now w) := by
  unfold Job.cancelFromOutside
  split
  · split
    · exact hP.cancel w _ hw
    · exact hw
  · exact hw

/-- What requests and cancellations keep is kept until a computation is settled. -/
theorem keeps_settle (hP : World.IsKept P) (now : Nat) (stage : Stage) {w : World} (hw : P w) :
    P (stage.settle job now w).2 := by
  fun_induction settle job now stage w with
  | case1 => exact hw
  | case2 => exact hw
  | case3 => exact keeps_cancelFromOutside hP _ hw
  | case4 => exact keeps_cancelFromOutside hP _ (keeps_cancelFromOutside hP _ hw)
  | case5 now w stage _ _ _ _ moment _ _ _ next after hnext ih =>
    have hlater : P (job.cancelFromOutside moment (job.cancelFromOutside now w)) :=
      keeps_cancelFromOutside hP moment (keeps_cancelFromOutside hP now hw)
    have hresume : P (stage.resume job moment _).2 := keeps_resume hP moment stage hlater
    rw [show resume job moment stage _ = _ from hnext] at hresume
    exact ih hresume
  | case6 => exact keeps_cancelFromOutside hP _ hw

end Stage

/-- **Whole computations.** What requests and cancellations keep, a computation keeps. -/
theorem World.keeps_compute (hP : World.IsKept P) {w : World} (job : Job) (hw : P w) :
    P (w.compute job).2 := by
  unfold compute
  split
  · exact hw
  · exact Stage.keeps_settle hP 0 _ (Stage.keeps_ofIntrospection hP (Running.keeps_start hP _ w hw))

end FederatedQuery.Simulation
