import FederatedQuery.Execution.Pattern
import FederatedQuery.Proofs.Sample

/-!
# Queries inside of groups

The patterns nested in a pattern are run for the groups that its rows stand for. Whatever a backend
replies, each request is one of a pattern that is reached from the outermost one by going into
groups. It asks for exactly those rows of the datasource that pass the filter of the outermost
pattern, lie in each of the groups on the way, and pass the filter of each nested pattern on the
way.

The filter of a nested pattern is left out where the filter around it is the same, that is, equal up
to the sign of zeros. So conditions are read here by valuations that give the same truth to what is
the same.

## Main definitions

* `Expression.truth`, `Expression.Valuation`: the truth of conditions.
* `Task.Asks`: the requests that a task may make.
* `Pattern.Reaches`: the patterns that are run inside of groups.

## Main results

* `Expression.truth_eq_of_same`: conditions that are the same.
* `Pattern.Reaches.admits`: the rows that a reached pattern asks for.
* `Pattern.asks_run`: the requests of a pattern.
-/

namespace FederatedQuery

/-! ### Truth -/

namespace Expression

/-- Whether a condition holds, given which conditions without a connective hold. -/
def truth (value : Expression → Bool) : Expression → Bool
  | .binary (.connective .and) a b => truth value a && truth value b
  | .binary (.connective .or) a b => truth value a || truth value b
  | .not a => !truth value a
  | e => value e

/-- A truth value for each condition without a connective, the same one for those that are the
same. -/
structure Valuation where
  value : Expression → Bool
  value_eq_of_same : ∀ {a b : Expression}, a.same b = true → value a = value b

/-- Expressions that are the same are of one kind. -/
theorem op_eq_of_same {a b : Expression} (h : a.same b = true) : a.op = b.op := by
  cases a with
  | binary op =>
    cases b with
    | binary op' =>
      simp only [same, Bool.and_eq_true, beq_iff_eq] at h
      exact congrArg Op.binary h.1.1
    | _ => exact nomatch h
  | _ => cases b <;> first | rfl | exact nomatch h

/-- **The truth of conditions that are the same.** -/
theorem truth_eq_of_same (v : Valuation) {a b : Expression} (h : a.same b = true) :
    a.truth v.value = b.truth v.value := by
  induction a generalizing b with
  | not a ih =>
    cases b with
    | not b => exact congrArg (! ·) (ih h)
    | _ => exact nomatch h
  | binary op a₁ a₂ ih₁ ih₂ =>
    cases b with
    | binary op' b₁ b₂ =>
      have hleaf := v.value_eq_of_same h
      simp only [same, Bool.and_eq_true, beq_iff_eq] at h
      obtain ⟨⟨rfl, h₁⟩, h₂⟩ := h
      rcases op with m | r | c | c | o
      case connective =>
        cases c with
        | and => rw [truth, truth, ih₁ h₁, ih₂ h₂]
        | or => rw [truth, truth, ih₁ h₁, ih₂ h₂]
      all_goals exact hleaf
    | _ => exact nomatch h
  | _ => cases b <;> first | exact v.value_eq_of_same h | exact nomatch h

end Expression

/-! ### Rows that pass -/

namespace Source

/-- Whether a row passes the filter of a source, given which conditions hold of it. -/
def admits (value : Expression → Bool) (s : Source) : Bool := s.filter.all (Expression.truth value)

theorem admits_narrow (value : Expression → Bool) (s : Source) (condition : Expression) :
    (s.narrow condition).admits value = (s.admits value && condition.truth value) := by
  obtain ⟨x, filter⟩ := s
  cases filter <;> rfl

end Source

namespace Pattern

@[simp] theorem forGroup_external (outer nested : Pattern) (condition : Expression) :
    (outer.forGroup nested condition).source.external = outer.source.external := by
  rw [forGroup]
  split
  · rfl
  · dsimp only
    split <;> rfl

/-- **Going into a group.** No condition is lost where a filter is left out. -/
theorem forGroup_admits (v : Expression.Valuation) (outer nested : Pattern)
    (condition : Expression) :
    (outer.forGroup nested condition).source.admits v.value = (outer.source.admits v.value &&
      (condition.truth v.value && nested.source.admits v.value)) := by
  rw [forGroup]
  split
  · next hfilter =>
    rw [Source.admits_narrow, Source.admits, Source.admits, hfilter, Option.all_none,
      Bool.and_true]
  · next own hfilter =>
    have hown : nested.source.admits v.value = own.truth v.value := by
      rw [Source.admits, hfilter, Option.all_some]
    dsimp only
    split
    · next hsame =>
      -- the filter around the nested pattern is the same as its own
      obtain ⟨filter, hfilter, hsame⟩ : ∃ filter, outer.source.filter = some filter ∧
          filter.same own = true := by
        cases hfilter : outer.source.filter with
        | none =>
          rw [hfilter] at hsame
          exact nomatch hsame
        | some filter =>
          rw [hfilter] at hsame
          exact ⟨filter, rfl, hsame⟩
      have houter : outer.source.admits v.value = own.truth v.value := by
        rw [Source.admits, hfilter, Option.all_some, Expression.truth_eq_of_same v hsame]
      rw [Source.admits_narrow, houter, hown]
      cases own.truth v.value <;> simp
    · rw [Source.admits_narrow, Source.admits_narrow, hown, Bool.and_assoc]

end Pattern

/-! ### Requests -/

/-- An exchange asks a request if it does so after some replies. -/
inductive Exchange.Asks {ε α : Type} (request : Request) : Exchange ε α → Prop
  | here (next : Reply → Exchange ε α) : Asks request (.ask request next)
  | later {other : Request} {next : Reply → Exchange ε α} (reply : Reply)
      (hnext : Asks request (next reply)) : Asks request (.ask other next)
  | look {next : Bool → Exchange ε α} (cancelled : Bool) (hnext : Asks request (next cancelled)) :
      Asks request (.look next)

/-- An exchange yields a result if it does so after some replies. -/
inductive Exchange.Yields {ε α : Type} (result : α) : Exchange ε α → Prop
  | done : Yields result (.done result)
  | ask {request : Request} {next : Reply → Exchange ε α} (reply : Reply)
      (hnext : Yields result (next reply)) : Yields result (.ask request next)
  | look {next : Bool → Exchange ε α} (cancelled : Bool) (hnext : Yields result (next cancelled)) :
      Yields result (.look next)

/-- A task asks a request if it does so after some replies, or one of its parts does, or what
comes after some results of its parts. -/
inductive Task.Asks {ρ : Type} (request : Request) : Task ρ → Prop
  | here (next : Reply → Task ρ) : Asks request (.ask request next)
  | later {other : Request} {next : Reply → Task ρ} (reply : Reply)
      (hnext : Asks request (next reply)) : Asks request (.ask other next)
  | look {next : Bool → Task ρ} (cancelled : Bool) (hnext : Asks request (next cancelled)) :
      Asks request (.look next)
  | part {how : Join} {parts : List (Task ρ)} {next : List ρ → Task ρ} {task : Task ρ}
      (hmem : task ∈ parts) (hpart : Asks request task) : Asks request (.join how parts next)
  | rest {how : Join} {parts : List (Task ρ)} {next : List ρ → Task ρ} (results : List ρ)
      (hnext : Asks request (next results)) : Asks request (.join how parts next)

section

variable {ε α β ρ : Type} {request : Request}

theorem Exchange.Asks.of_bind {x : Exchange ε α} {f : α → Exchange ε β}
    (h : (x >>= f).Asks request) : x.Asks request ∨ ∃ result, (f result).Asks request := by
  induction x with
  | done result => exact .inr ⟨result, h⟩
  | fail error => exact nomatch h
  | ask other next ih =>
    cases h with
    | here => exact .inl (.here next)
    | later reply hnext => exact (ih reply hnext).imp_left (.later reply)
  | look next ih =>
    cases h with
    | look cancelled hnext => exact (ih cancelled hnext).imp_left (.look cancelled)

theorem Exchange.Asks.of_andThen {x : Exchange ε α} {failure : ε → ExecutionError}
    {next : α → Task ρ} (h : (x.andThen failure next).Asks request) :
    x.Asks request ∨ ∃ result, x.Yields result ∧ (next result).Asks request := by
  induction x with
  | done result => exact .inr ⟨result, .done, h⟩
  | fail error => exact nomatch h
  | ask other more ih =>
    cases h with
    | here => exact .inl (.here more)
    | later reply hnext =>
      obtain h | ⟨result, hyields, h⟩ := ih reply hnext
      · exact .inl (.later reply h)
      · exact .inr ⟨result, .ask reply hyields, h⟩
  | look more ih =>
    cases h with
    | look cancelled hnext =>
      obtain h | ⟨result, hyields, h⟩ := ih cancelled hnext
      · exact .inl (.look cancelled h)
      · exact .inr ⟨result, .look cancelled hyields, h⟩

theorem Exchange.not_asks_ofExcept (x : Except ε α) : ¬(ofExcept x).Asks request := by
  cases x <;> exact nofun

theorem Task.Asks.of_bind {next : ρ → Task ρ} (task : Task ρ) (h : (task.bind next).Asks request) :
    task.Asks request ∨ ∃ result, (next result).Asks request := by
  match task with
  | .done result => exact .inr ⟨result, h⟩
  | .fail error => exact nomatch h
  | .ask other more =>
    cases h with
    | here => exact .inl (.here more)
    | later reply hnext => exact (of_bind (more reply) hnext).imp_left (.later reply)
  | .look more =>
    cases h with
    | look cancelled hnext => exact (of_bind (more cancelled) hnext).imp_left (.look cancelled)
  | .join how parts more =>
    cases h with
    | part hmem hpart => exact .inl (.part hmem hpart)
    | rest results hnext => exact (of_bind (more results) hnext).imp_left (.rest results)

/-- The tasks whose rows are attached to a row make all requests that are made for it. -/
theorem Row.asks_attach {row : Row} {tasks : List (String × Task Dataset)}
    (h : (row.attach tasks).Asks request) : ∃ entry ∈ tasks, entry.2.Asks request := by
  induction tasks generalizing row with
  | nil => exact nomatch h
  | cons entry tasks ih =>
    obtain h | ⟨rows, h⟩ := Task.Asks.of_bind _ h
    · exact ⟨entry, List.mem_cons_self, h⟩
    · obtain ⟨other, hother, h⟩ := ih h
      exact ⟨other, List.mem_cons_of_mem _ hother, h⟩

end

/-! ### Patterns inside of groups -/

/-- A step from a pattern to one that is nested in it, into the group that a row stands for. -/
structure GroupStep where
  grouping : Grouping
  row : Row
  nested : Pattern

namespace GroupStep

/-- The condition of lying in the group; the key of the group stands in the row. -/
def condition (s : GroupStep) : Expression :=
  s.grouping.condition ((s.row.get? s.grouping.name).getD .null)

/-- Whether a row lies in the group and passes the filter of the nested pattern itself. -/
def admits (value : Expression → Bool) (s : GroupStep) : Bool :=
  s.condition.truth value && s.nested.source.admits value

end GroupStep

namespace Pattern

/-- The patterns that are run in the course of a pattern, given the rows around it, and the ways
to them. A step goes from a pattern that is run to one that is nested in it, into the group of one
of the rows that it may yield; this row is then one of those around. -/
inductive Reaches (config : Config) : Pattern → Scope → List GroupStep → Pattern → Prop
  | self (p : Pattern) (scope : Scope) : Reaches config p scope [] p
  | nested {p q : Pattern} {scope : Scope} {c : Compiled} {rows : Dataset} {name : String}
      {step : GroupStep} {path : List GroupStep} (hcompile : p.compile config.limits = .ok c)
      (hgrouping : c.grouping = some step.grouping)
      (hyields : (c.finished config p.source.external scope).Yields rows)
      (hrow : step.row ∈ rows) (hnested : (name, step.nested) ∈ p.nestedPatterns)
      (hinner : Reaches config (p.forGroup step.nested step.condition) (step.row :: scope) path q) :
      Reaches config p scope (step :: path) q

namespace Reaches

variable {config : Config} {p q : Pattern} {scope : Scope} {path : List GroupStep}

/-- All patterns on a way ask the same datasource. -/
theorem external (h : p.Reaches config scope path q) :
    q.source.external = p.source.external := by
  induction h with
  | self => rfl
  | nested _ _ _ _ _ _ ih => exact ih.trans (forGroup_external _ _ _)

/-- **The rows of a reached pattern.** They are those that pass the filter of the first pattern,
lie in the groups on the way, and pass the filters of the nested patterns on the way. -/
theorem admits (v : Expression.Valuation) (h : p.Reaches config scope path q) :
    q.source.admits v.value = (p.source.admits v.value && path.all (GroupStep.admits v.value)) := by
  induction h with
  | self => rw [List.all_nil, Bool.and_true]
  | nested _ _ _ _ _ _ ih =>
    rw [ih, forGroup_admits, List.all_cons, Bool.and_assoc]
    rfl

end Reaches

end Pattern

namespace Compiled

variable {request : Request}

/-- The requests for the rows of a compiled pattern: its query, or a page of it. -/
def Requests (c : Compiled) (x : External) (request : Request) : Prop :=
  request = x.request c.query.toJson ∨
    ∃ identifiers, request = x.request (c.query.atPage identifiers).toJson

/-- Reading pages makes no request but those for pages. -/
theorem asks_readPages (c : Compiled) (x : External) (maxRows : Nat) (paging : Paging)
    (identifiers : Json.Fields) (rows : List Row)
    (h : (c.readPages x maxRows paging identifiers rows).Asks request) : c.Requests x request := by
  rw [readPages] at h
  cases h with
  | look cancelled h =>
    dsimp only at h
    split at h
    · cases h
    cases h with
    | here => exact .inr ⟨identifiers, rfl⟩
    | later reply h =>
      dsimp only at h
      -- after an error, a broken page, too many rows or one of four ends nothing is asked for
      split at h
      · cases h
      split at h
      · cases h
      split at h
      · cases h
      split at h
      · cases h
      split at h
      · cases h
      split at h
      · cases h
      split at h
      · cases h
      exact asks_readPages c x maxRows paging _ _ h
termination_by maxRows + 1 - rows.length
decreasing_by
  have := paging.threshold_pos
  simp only [List.length_append] at *
  omega

theorem asks_fetch {c : Compiled} {config : Config} {x : External}
    (h : (c.fetch config x).Asks request) : c.Requests x request := by
  rw [fetch] at h
  split at h
  · exact asks_readPages c x _ _ _ _ h
  · obtain h | ⟨items, h⟩ := Exchange.Asks.of_bind h
    · cases h with
      | here => exact .inl rfl
      | later reply h => cases h
    · cases items with
      | error message => cases h
      | ok items => exact absurd h (Exchange.not_asks_ofExcept _)

theorem asks_finished {c : Compiled} {config : Config} {x : External} {scope : Scope}
    (h : (c.finished config x scope).Asks request) : c.Requests x request := by
  obtain h | ⟨rows, h⟩ := Exchange.Asks.of_bind h
  · exact asks_fetch h
  · split at h
    · cases h
    · exact absurd h (Exchange.not_asks_ofExcept _)

end Compiled

namespace Pattern

/-- **The requests of a pattern.** Each is one for the rows of a pattern that is reached. -/
theorem asks_run {p : Pattern} {config : Config} {scope : Scope} {request : Request}
    (h : (p.run config scope).Asks request) :
    ∃ path q c, p.Reaches config scope path q ∧ q.compile config.limits = .ok c ∧
      c.Requests q.source.external request := by
  rw [run] at h
  cases h with
  | look cancelled h =>
    dsimp only at h
    split at h
    · cases h
    split at h
    · cases h
    next c hcompile =>
    obtain h | ⟨rows, hyields, h⟩ := Exchange.Asks.of_andThen h
    · exact ⟨[], p, c, .self p scope, hcompile, Compiled.asks_finished h⟩
    split at h
    · cases h
    next grouping hgrouping =>
    split at h
    · cases h
    cases h with
    | rest results h => cases h
    | part hmem h =>
      obtain ⟨row, hrow, rfl⟩ := List.mem_map.1 hmem
      obtain ⟨entry, hentry, h⟩ := Row.asks_attach h
      obtain ⟨⟨⟨name, nested⟩, hnested⟩, -, rfl⟩ := List.mem_map.1 hentry
      obtain ⟨path, q, c', hreaches, hrequests⟩ := asks_run h
      exact ⟨⟨grouping, row, nested⟩ :: path, q, c',
        .nested hcompile hgrouping hyields hrow hnested hreaches, hrequests⟩
termination_by sizeOf p.applies
decreasing_by
  rw [forGroup_applies]
  exact sizeOf_applies_lt hnested

end Pattern

/-! ### Edits that add nothing -/

namespace Sample

/-- The condition that so many characters are added. -/
def addsExactly (x : Float) : Expression := (Expression.ref "added").eqTo (.literal (.number x))

/-- The edits that add nothing, by language, where nothing is called minus zero. -/
def byLanguage : Pattern :=
  ⟨⟨edits, some (addsExactly (-0.0))⟩, "edits", some ⟨.ref "language", "language"⟩, [], none, none⟩

/-- The edits that add nothing, by page and for each page by language. -/
def byPage : Pattern :=
  ⟨⟨edits, some (addsExactly 0.0)⟩, "edits", some ⟨.ref "page", "page"⟩,
    [("Languages", .nested byLanguage)], none, none⟩

/-- The step into the group of the front page. -/
def frontPage : GroupStep :=
  ⟨.dimension "page" "page", [("page", .string "Front")], byLanguage⟩

/-- The reply of a backend that knows of no page but the front page. -/
def frontPageReply : Reply :=
  [.ok (.array [.object [("event", .object [("page", .string "Front")])]])]

/-- The edits of the front page by language. -/
def frontPageByLanguage : Pattern := byPage.forGroup byLanguage frontPage.condition

theorem reaches_frontPage : byPage.Reaches .standard [] [frontPage] frontPageByLanguage :=
  .nested rfl rfl (.ask frontPageReply .done) List.mem_cons_self List.mem_cons_self (.self _ _)

/-- The query of the front page is made. -/
theorem asks_frontPage : ∃ c, frontPageByLanguage.compile Config.standard.limits = .ok c ∧
    (byPage.run .standard []).Asks (edits.request c.query.toJson) := by
  refine ⟨_, rfl, ?_⟩
  rw [Pattern.run]
  refine .look false (.later frontPageReply ?_)
  change Task.Asks _ (.join _ [Row.attach frontPage.row
    [("Languages", frontPageByLanguage.run .standard [frontPage.row])]] _)
  refine .part List.mem_cons_self ?_
  rw [Row.attach, Pattern.run]
  exact .look false (.here _)

/-- A truth value that tells the signs of zeros apart: of numbers, none but the zero without a sign
is equal to anything. -/
def plainZero : Expression → Bool
  | .binary (.relation .is) _ (.literal (.number x)) => x.toBits == (0.0 : Float).toBits
  | _ => true

/-- The truth value that depends on nothing but the kind of a condition. -/
def byKind : Expression.Valuation where
  value e := e.op == .binary (.relation .is)
  value_eq_of_same h := by rw [Expression.op_eq_of_same h]

end Sample

/-! ### Queries inside of groups -/

namespace Pattern

/-- **Queries inside of groups.** Whatever is replied, each request that a pattern makes is one for
the rows of a pattern that is reached by going into groups. It asks the datasource of the first
pattern for those rows that pass the filter of the first pattern, lie in each group on the way, and
pass the filter of each nested pattern on the way. -/
theorem asks_inside_groups {p : Pattern} {config : Config} {scope : Scope} {request : Request}
    (h : (p.run config scope).Asks request) :
    ∃ path q c, p.Reaches config scope path q ∧ q.compile config.limits = .ok c ∧
      c.Requests q.source.external request ∧ q.source.external = p.source.external ∧
      ∀ v : Expression.Valuation, q.source.admits v.value =
        (p.source.admits v.value && path.all (GroupStep.admits v.value)) := by
  obtain ⟨path, q, c, hreaches, hcompile, hrequests⟩ := asks_run h
  exact ⟨path, q, c, hreaches, hcompile, hrequests, hreaches.external,
    fun v => hreaches.admits v⟩

open Sample in
/-- The query for the languages of the front page. -/
theorem asks_inside_groups_frontPage :
    ∃ own, frontPageByLanguage.compile Config.standard.limits = .ok own ∧
      (byPage.run .standard []).Asks (edits.request own.query.toJson) ∧
      ∃ path q c, byPage.Reaches .standard [] path q ∧
        q.compile Config.standard.limits = .ok c ∧
        c.Requests q.source.external (edits.request own.query.toJson) ∧
        q.source.external = edits ∧
        q.source.admits byKind.value =
          (byPage.source.admits byKind.value && path.all (GroupStep.admits byKind.value)) := by
  obtain ⟨own, hown, hasks⟩ := asks_frontPage
  obtain ⟨path, q, c, hreaches, hcompile, hrequests, hexternal, hadmits⟩ :=
    asks_inside_groups hasks
  exact ⟨own, hown, hasks, path, q, c, hreaches, hcompile, hrequests, hexternal, hadmits byKind⟩

open Sample in
/-- The filter of the languages is left out, since it is the same as the one around it, but with a
sign. If the signs of zeros are told apart, the query lets rows pass that this filter does not. -/
theorem reaches_without_sign :
    byPage.Reaches .standard [] [frontPage] frontPageByLanguage ∧
      (∃ c, frontPageByLanguage.compile Config.standard.limits = .ok c ∧
        (byPage.run .standard []).Asks (edits.request c.query.toJson)) ∧
      frontPageByLanguage.source.admits plainZero = true ∧
      frontPage.nested.source.admits plainZero = false ∧
      frontPageByLanguage.source.admits plainZero ≠
        (byPage.source.admits plainZero && [frontPage].all (GroupStep.admits plainZero)) :=
  ⟨reaches_frontPage, asks_frontPage, by decide +kernel, by decide +kernel, by decide +kernel⟩

end Pattern

end FederatedQuery
