import FederatedQuery.Proofs.FanOut
import FederatedQuery.Proofs.Operations

/-!
# Where a program breaks off

A computation fails with an error that is told, or the program breaks off in it. This file follows
failures of composed tasks back to those of their parts. Nothing breaks off in introspection, and in
patterns and plans nothing does but an offset that is advanced although there is no word after it.

## Main definitions

* `Exchange.Fails`, `Task.Fails`: failures after steps in any order, if the replies are allowed.

## Main results

* `Paging.nextOffset?_eq_none_iff`: the only offset that cannot be advanced.
* `Pattern.executes_of_fails`, `Plan.executes_of_fails`, `Job.Settles.executes`: where the program
  breaks off.
-/

namespace FederatedQuery

open Activity

variable {ok : Reply → Prop}

/-! ### Failures of exchanges -/

/-- The failures that an exchange may have if the replies are allowed. -/
inductive Exchange.Fails {ε α : Type} (ok : Reply → Prop) : Exchange ε α → ε → Prop
  | fail (error : ε) : Fails ok (.fail error) error
  | ask {request : Request} {next : Reply → Exchange ε α} {reply : Reply} {error : ε}
      (hreply : ok reply) (hnext : Fails ok (next reply) error) :
      Fails ok (.ask request next) error
  | look {next : Bool → Exchange ε α} {error : ε} (cancelled : Bool)
      (hnext : Fails ok (next cancelled) error) : Fails ok (.look next) error

namespace Exchange.Fails

variable {ε α β : Type} {error : ε}

/-- An exchange after another one fails if either of them does. -/
theorem of_bind {x : Exchange ε α} {f : α → Exchange ε β} (h : (x >>= f).Fails ok error) :
    x.Fails ok error ∨ ∃ result, x.Returns ok result ∧ (f result).Fails ok error := by
  induction x with
  | done result => exact .inr ⟨result, .done result, h⟩
  | fail other =>
    cases h with
    | fail => exact .inl (.fail error)
  | ask request next ih =>
    cases h with
    | ask hreply hnext =>
      exact (ih _ hnext).imp (.ask hreply) fun ⟨result, hresult, hf⟩ =>
        ⟨result, .ask hreply hresult, hf⟩
  | look next ih =>
    cases h with
    | look cancelled hnext =>
      exact (ih cancelled hnext).imp (.look cancelled) fun ⟨result, hresult, hf⟩ =>
        ⟨result, .look cancelled hresult, hf⟩

theorem of_fail {other : ε} (h : (Exchange.fail other : Exchange ε α).Fails ok error) :
    other = error := by
  cases h with
  | fail => rfl

theorem of_ask {request : Request} {next : Reply → Exchange ε α}
    (h : (Exchange.ask request next).Fails ok error) :
    ∃ reply, ok reply ∧ (next reply).Fails ok error := by
  cases h with
  | ask hreply hnext => exact ⟨_, hreply, hnext⟩

/-- A request, and what depends on the items of the reply. -/
theorem of_items {request : Request} {f : Except String (List Json) → Exchange ε α}
    (h : (Exchange.items request >>= f).Fails ok error) :
    ∃ reply : Reply, ok reply ∧ (f reply.items).Fails ok error :=
  of_ask h

theorem of_look {next : Bool → Exchange ε α} (h : (Exchange.look next).Fails ok error) :
    ∃ cancelled, (next cancelled).Fails ok error := by
  cases h with
  | look cancelled hnext => exact ⟨cancelled, hnext⟩

theorem of_ofExcept {x : Except ε α} (h : (Exchange.ofExcept x).Fails ok error) :
    x = .error error := by
  cases x with
  | ok result => exact nomatch h
  | error other =>
    cases h with
    | fail => rfl

end Exchange.Fails

/-! ### Failures of tasks -/

/-- Parts that have results have them by runs of their own. -/
theorem Activity.Each.returns {ρ : Type} {tasks : List (Task ρ)} {log : Log} {results : List ρ}
    (h : Each true tasks log (yields results)) (hok : ∀ entry ∈ log, ok entry.2) :
    tasks.Forall₂ (Task.Returns ok) results := by
  induction results generalizing tasks log with
  | nil =>
    cases h
    exact .nil
  | cons result results ih =>
    cases h with
    | cons hruns hrest hlog =>
      obtain ⟨hfirst, hlast⟩ := List.forall_mem_append.1 fun entry hentry =>
        hok entry (hlog.symm.subset hentry)
      exact .cons ⟨_, hruns, hfirst⟩ (ih hrest hlast)

/-- A failure that a task has after steps in any order, if the replies are allowed. -/
def Task.Fails {ρ : Type} (ok : Reply → Prop) (task : Task ρ) (error : ExecutionError) : Prop :=
  ∃ log, Runs true (.ready task) log (.settled (.error error)) ∧ ∀ entry ∈ log, ok entry.2

namespace Task.Fails

variable {ρ : Type} {task : Task ρ} {error : ExecutionError}

theorem of_done {result : ρ} (h : (Task.done result).Fails ok error) : False := by
  obtain ⟨log, hruns, -⟩ := h
  obtain ⟨-, h | h⟩ := hruns.of_done
  · exact nomatch h
  · exact nomatch h

theorem of_fail {other : ExecutionError} (h : (Task.fail other : Task ρ).Fails ok error) :
    other = error := by
  obtain ⟨log, hruns, -⟩ := h
  obtain ⟨-, h | h⟩ := hruns.of_fail
  · exact nomatch h
  · cases h
    rfl

theorem of_ask {request : Request} {next : Reply → Task ρ}
    (h : (Task.ask request next).Fails ok error) :
    ∃ reply, ok reply ∧ (next reply).Fails ok error := by
  obtain ⟨log, hruns, hok⟩ := h
  obtain ⟨-, h⟩ | ⟨reply, rest, rfl, ⟨-, h⟩ | hnext⟩ := hruns.of_ask
  · exact nomatch h
  · exact nomatch h
  · obtain ⟨hreply, hrest⟩ := List.forall_mem_cons.1 hok
    exact ⟨reply, hreply, rest, hnext, hrest⟩

theorem of_look {next : Bool → Task ρ} (h : (Task.look next).Fails ok error) :
    ∃ cancelled, (next cancelled).Fails ok error := by
  obtain ⟨log, hruns, hok⟩ := h
  obtain ⟨-, h⟩ | ⟨cancelled, -, hnext⟩ := hruns.of_look
  · exact nomatch h
  · exact ⟨cancelled, log, hnext, hok⟩

theorem of_bind {next : ρ → Task ρ} (h : (task.bind next).Fails ok error) :
    task.Fails ok error ∨ ∃ result, task.Returns ok result ∧ (next result).Fails ok error := by
  obtain ⟨log, hruns, hok⟩ := h
  obtain ⟨_, ⟨⟩, hfails⟩ | ⟨first, result, rest, rfl, hfirst, hrest⟩ := Runs.of_bind_settled hruns
  · exact .inl ⟨log, hfails, hok⟩
  · obtain ⟨hbefore, hafter⟩ := List.forall_mem_append.1 hok
    exact .inr ⟨result, ⟨first, hfirst, hbefore⟩, rest, hrest, hafter⟩

theorem of_andThen {ε α : Type} {x : Exchange ε α} {failure : ε → ExecutionError}
    {next : α → Task ρ} (h : (x.andThen failure next).Fails ok error) :
    (∃ e, x.Fails ok e ∧ failure e = error) ∨
      ∃ result, x.Returns ok result ∧ (next result).Fails ok error := by
  induction x with
  | done result => exact .inr ⟨result, .done result, h⟩
  | fail e => exact .inl ⟨e, .fail e, of_fail h⟩
  | ask request more ih =>
    obtain ⟨reply, hreply, hnext⟩ := of_ask h
    obtain ⟨e, he, heq⟩ | ⟨result, hresult, hfails⟩ := ih reply hnext
    · exact .inl ⟨e, .ask hreply he, heq⟩
    · exact .inr ⟨result, .ask hreply hresult, hfails⟩
  | look more ih =>
    obtain ⟨cancelled, hnext⟩ := of_look h
    obtain ⟨e, he, heq⟩ | ⟨result, hresult, hfails⟩ := ih cancelled hnext
    · exact .inl ⟨e, .look cancelled he, heq⟩
    · exact .inr ⟨result, .look cancelled hresult, hfails⟩

/-- A join fails if one of its parts does, or the task does that goes on with their results. -/
theorem of_join {how : Join} {parts : List (Task ρ)} {next : List ρ → Task ρ}
    (h : (Task.join how parts next).Fails ok error) :
    (∃ part ∈ parts, part.Fails ok error) ∨
      ∃ results, parts.Forall₂ (Task.Returns ok) results ∧ (next results).Fails ok error := by
  obtain ⟨log, hruns, hok⟩ := h
  generalize hlast : Activity.settled (.error error) = b at hruns
  cases hruns.joined with
  | start | going => exact nomatch hlast
  | failed hparts heach _ =>
    cases hlast
    obtain ⟨part, hpart, log', hlog, hruns⟩ :=
      heach.exists_of_mem (List.mem_append_right _ List.mem_cons_self)
    exact .inl ⟨part, hparts ▸ List.mem_append_left _ hpart, log', hruns,
      fun entry hentry => hok entry (hlog.subset hentry)⟩
  | finished heach hrest =>
    cases hlast
    obtain ⟨hbefore, hafter⟩ := List.forall_mem_append.1 hok
    exact .inr ⟨_, heach.returns hbefore, _, hrest, hafter⟩

end Task.Fails

/-- The nested patterns of a row fail if one of them does. -/
theorem Row.exists_fails_of_attach {row : Row} {tasks : List (String × Task Dataset)}
    {error : ExecutionError} (h : (row.attach tasks).Fails ok error) :
    ∃ entry ∈ tasks, entry.2.Fails ok error := by
  induction tasks generalizing row with
  | nil => exact h.of_done.elim
  | cons entry tasks ih =>
    obtain h | ⟨dataset, -, h⟩ := h.of_bind
    · exact ⟨entry, List.mem_cons_self, h⟩
    · obtain ⟨other, hother, h⟩ := ih h
      exact ⟨other, List.mem_cons_of_mem _ hother, h⟩

/-! ### Answers -/

/-- The last offset is the only one that cannot be advanced. -/
theorem Paging.nextOffset?_eq_none_iff {offset : Json} :
    nextOffset? offset = none ↔ offset = .int (Word.half - 1) := by
  cases offset with
  | int n =>
    rw [nextOffset?, Json.int.injEq]
    cases hsigned : Word.isSigned n with
    | false =>
      refine iff_of_false (Option.some_ne_none _) fun hlast => ?_
      rw [hlast] at hsigned
      exact absurd hsigned (by decide)
    | true =>
      rw [Word.isSigned, Bool.and_eq_true, decide_eq_true_iff, decide_eq_true_iff] at hsigned
      cases hnext : Word.isSigned (n + 1) with
      | true =>
        rw [Word.isSigned, Bool.and_eq_true, decide_eq_true_iff, decide_eq_true_iff] at hnext
        exact iff_of_false (Option.some_ne_none _) (by omega)
      | false =>
        rw [Word.isSigned, Bool.and_eq_false_iff, decide_eq_false_iff_not,
          decide_eq_false_iff_not] at hnext
        exact iff_of_true rfl (by omega)
  | _ => exact iff_of_false (Option.some_ne_none _) Json.noConfusion

/-- Identifiers cannot be advanced if one of them is the last offset. -/
theorem Paging.exists_of_nextIdentifiers? {p : Paging} {identifiers : Json.Fields}
    (h : p.nextIdentifiers? identifiers = none) :
    p.fromNext = false ∧ ∃ segment, (segment, .int (Word.half - 1)) ∈ identifiers := by
  rw [nextIdentifiers?] at h
  split at h
  · exact nomatch h
  next hlast =>
  refine ⟨Bool.eq_false_of_not_eq_true hlast, ?_⟩
  induction identifiers with
  | nil => exact nomatch h
  | cons entry identifiers ih =>
    obtain ⟨segment, offset⟩ := entry
    rw [advance?_cons] at h
    cases hnext : nextOffset? offset with
    | none =>
      rw [nextOffset?_eq_none_iff] at hnext
      exact ⟨segment, hnext ▸ List.mem_cons_self⟩
    | some next =>
      rw [hnext, Option.bind_some, Option.map_eq_none_iff] at h
      obtain ⟨other, hother⟩ := ih h
      exact ⟨other, List.mem_cons_of_mem _ hother⟩

/-- A page that cannot be made up is an answer of the wrong format. -/
theorem Page.exists_fault_of_ofItems {timeAttribute : String} {items : List Json}
    {error : ExecutionError} (h : ofItems timeAttribute items = .error error) :
    ∃ fault, error = .invalidAnswer fault := by
  obtain ⟨page, item, -, h⟩ := Except.exists_of_foldlM_eq_error h
  rw [addItem] at h
  split at h
  · cases h
    exact ⟨_, rfl⟩
  obtain h | ⟨rows, -, h⟩ := Except.bind_eq_error.1 h
  · obtain ⟨event, -, h⟩ := Except.exists_of_mapM_eq_error h
    rw [rowOf] at h
    split at h
    · cases h
      exact ⟨_, rfl⟩
    · exact nomatch h
  · exact nomatch h

namespace Compiled

variable {config : Config} {c : Compiled} {error : ExecutionError}

/-- Rows that cannot be made out are an answer of the wrong format. -/
theorem exists_fault_of_rows {items : List Json} (h : c.rows items = .error error) :
    ∃ fault, error = .invalidAnswer fault := by
  have hseries {items : List Json} (h : items.mapM c.seriesRow = .error error) :
      ∃ fault, error = .invalidAnswer fault := by
    obtain ⟨item, -, h⟩ := Except.exists_of_mapM_eq_error h
    rw [seriesRow] at h
    split at h
    · cases h
      exact ⟨_, rfl⟩
    split at h
    · split at h
      · cases h
      · cases h
        exact ⟨_, rfl⟩
    · cases h
  rw [rows] at h
  split at h
  · cases h
  · obtain h | ⟨rows, -, h⟩ := Except.bind_eq_error.1 h
    · exact hseries h
    · cases h
  · obtain h | ⟨rows, -, h⟩ := Except.bind_eq_error.1 h
    · exact hseries h
    · cases h
  · obtain ⟨item, -, h⟩ := Except.exists_of_mapM_eq_error (Except.map_eq_error.1 h)
    rw [topRows] at h
    split at h
    · cases h
      exact ⟨_, rfl⟩
    obtain ⟨record, -, h⟩ := Except.exists_of_mapM_eq_error h
    split at h
    · cases h
    · cases h
      exact ⟨_, rfl⟩
  · obtain ⟨item, -, h⟩ := Except.exists_of_mapM_eq_error h
    rw [groupRow] at h
    split at h
    · cases h
    · cases h
      exact ⟨_, rfl⟩

/-- **Reading pages.** The program breaks off where the last offset is to be advanced. -/
theorem executes_of_readPages {x : External} {p : Paging} (hpaging : c.paging = some p)
    {identifiers : Json.Fields} {rows : List Row}
    (h : ReadsFrom ok config.maxRows p identifiers rows)
    (hfails : (c.readPages x config.maxRows p identifiers rows).Fails ok .overflow) :
    c.Executes ok config (.advance (Word.half - 1)) := by
  rw [readPages] at hfails
  obtain ⟨cancelled, hfails⟩ := hfails.of_look
  split at hfails
  · cases hfails.of_fail
  obtain ⟨reply, hreply, hfails⟩ := hfails.of_ask
  split at hfails
  · cases hfails.of_fail
  next items hitems =>
  split at hfails
  · next herror =>
    obtain ⟨fault, hfault⟩ := Page.exists_fault_of_ofItems (hfails.of_fail ▸ herror)
    cases hfault
  next page hpage =>
  dsimp only at hfails
  split at hfails
  · cases hfails.of_fail
  next hfits =>
  split at hfails
  · cases hfails
  next hopen =>
  split at hfails
  · cases hfails
  next hfull =>
  split at hfails
  · next hnone =>
    obtain ⟨hlast, segment, hoffset⟩ := Paging.exists_of_nextIdentifiers? hnone
    exact .advance hpaging h hreply hitems hpage (Nat.le_of_not_lt hfits) hopen
      (Nat.le_of_not_lt hfull) hlast hoffset (by decide)
  next next hnext =>
  split at hfails
  · cases hfails
  next hchanged =>
  exact executes_of_readPages hpaging (.next h hreply hitems hpage (Nat.le_of_not_lt hfits) hopen
    (Nat.le_of_not_lt hfull) hnext hchanged) hfails
termination_by config.maxRows + 1 - rows.length
decreasing_by
  have := p.threshold_pos
  simp only [List.length_append] at *
  omega

/-- The program breaks off in reading pages only. -/
theorem executes_of_finished {x : External} {scope : Scope}
    (h : (c.finished config x scope).Fails ok .overflow) :
    c.Executes ok config (.advance (Word.half - 1)) := by
  obtain h | ⟨rows, -, h⟩ := h.of_bind
  · rw [fetch] at h
    split at h
    · next paging hpaging => exact executes_of_readPages hpaging .first h
    · obtain ⟨reply, -, h⟩ := h.of_items
      split at h
      · exact nomatch h.of_fail
      · obtain ⟨fault, hfault⟩ := exists_fault_of_rows h.of_ofExcept
        exact nomatch hfault
  · split at h
    · exact nomatch h.of_fail
    · obtain ⟨error, -, herror⟩ := Except.mapError_eq_error.1 h.of_ofExcept
      exact nomatch herror

end Compiled

/-! ### Patterns and plans -/

/-- **Patterns** break off where the last offset is to be advanced. -/
theorem Pattern.executes_of_fails {config : Config} {p : Pattern} {scope : Scope}
    (h : (p.run config scope).Fails ok .overflow) :
    p.Executes ok config scope (.advance (Word.half - 1)) := by
  rw [run_eq_fanOut] at h
  obtain ⟨cancelled, h⟩ := h.of_look
  split at h
  · cases h.of_fail
  split at h
  · cases h.of_fail
  next c hcompile =>
  obtain ⟨error, hfails, rfl⟩ | ⟨rows, hrows, h⟩ := h.of_andThen
  · exact .fetch hcompile (Compiled.executes_of_finished hfails)
  unfold attachAll at h
  split at h
  · exact h.of_done.elim
  next grouping hgrouping =>
  split at h
  · exact h.of_done.elim
  obtain ⟨part, hpart, h⟩ | ⟨results, -, h⟩ := h.of_join
  · obtain ⟨row, hrow, rfl⟩ := List.mem_map.1 hpart
    obtain ⟨task, htask, h⟩ := Row.exists_fails_of_attach h
    obtain ⟨entry, hentry, rfl⟩ := List.mem_map.1 htask
    exact .nested hcompile hrows hrow hgrouping hentry (executes_of_fails h)
  · exact h.of_done.elim
termination_by sizeOf p.applies
decreasing_by
  rw [forGroup_applies]
  exact sizeOf_applies_lt hentry

/-- **Plans** break off where the last offset is to be advanced. -/
theorem Plan.executes_of_fails {config : Config} {plan : Plan}
    (h : (plan.run config).Fails ok .overflow) :
    plan.Executes ok config (.advance (Word.half - 1)) := by
  cases plan with
  | value e =>
    rw [run] at h
    split at h
    · exact nomatch h.of_fail
    · exact h.of_done.elim
  | dataset p => exact .dataset (Pattern.executes_of_fails h)
  | scalar p => exact .scalar (Pattern.executes_of_fails h)
  | pipeline seed steps =>
    obtain ⟨part, hpart, h⟩ | ⟨answers, hanswers, h⟩ := Task.Fails.of_join h
    · obtain ⟨p, hp, rfl⟩ := List.mem_map.1 hpart
      exact .totals hp (Pattern.executes_of_fails h)
    rw [List.forall₂_map_left_iff] at hanswers
    split at h
    · exact nomatch h.of_fail
    next row hrow =>
    obtain ⟨part, hpart, h⟩ | ⟨datasets, -, h⟩ := Task.Fails.of_join h
    · obtain ⟨⟨name, p⟩, hp, rfl⟩ := List.mem_map.1 hpart
      exact .datasets hanswers hrow hp (Pattern.executes_of_fails h)
    · exact h.of_done.elim

/-- Nothing breaks off in introspection. -/
theorem Context.not_fails_introspect (context : Context) (e : Expression) :
    ¬(context.introspect e).Fails ok .overflow := by
  intro h
  obtain ⟨part, hpart, h⟩ | ⟨parts, -, h⟩ := Task.Fails.of_join h
  · obtain ⟨⟨name, x⟩, -, rfl⟩ := List.mem_map.1 hpart
    obtain ⟨error, -, herror⟩ | ⟨known, -, h⟩ := h.of_andThen
    · exact nomatch herror
    · exact h.of_done
  · exact h.of_done

/-! ### Whole computations -/

namespace Simulation

/-- **Computations** break off where the last offset is to be advanced. -/
theorem Job.Settles.executes {job : Job} {log : Log} (h : job.Settles log (.error .overflow))
    (hok : ∀ entry ∈ log, ok entry.2) : job.Executes ok (.advance (Word.half - 1)) := by
  generalize houtcome : (.error .overflow : Except ExecutionError Value) = outcome at h
  cases h with
  | refused h =>
    cases houtcome
    unfold Expression.admit at h
    split at h
    · exact nomatch h
    · split at h
      · exact nomatch h
      · exact nomatch h
  | cancelled | timeout => exact nomatch houtcome
  | settled h =>
    cases h with
    | unknown h =>
      cases houtcome
      exact absurd ⟨log, h, hok⟩ (job.context.not_fails_introspect job.expression)
    | unplanned _ h =>
      cases houtcome
      obtain ⟨error, -, herror⟩ := Except.mapError_eq_error.1 h
      exact nomatch herror
    | @carriedOut first rest known plan outcome hknown hplan h =>
      obtain ⟨hbefore, hafter⟩ := List.forall_mem_append.1 hok
      cases outcome with
      | ok rows => exact nomatch houtcome
      | error error =>
        cases houtcome
        exact ⟨known, plan, ⟨first, hknown, hbefore⟩, hplan,
          Plan.executes_of_fails ⟨rest, h, hafter⟩⟩

end Simulation

end FederatedQuery
