import FederatedQuery.Proofs.Invariants
import FederatedQuery.Proofs.Paging

/-!
# What computations do by themselves

Between a request and the next one, a computation works on what it has: it evaluates expressions,
sorts rows, advances offsets and finds the ends of buckets. This file says which operations of these
kinds a computation performs, and on which rows and numbers, as long as the replies are allowed. The
rows are those that exchanges and tasks of the computation return, with replies in any order.

## Main definitions

* `Operation`: the operations.
* `Compiled.ReadsFrom`, `Compiled.Reads`: how far the reading of pages has come, and its results.
* `Finish.Executes`, `Compiled.Executes`: those with the rows of an answer, and in fetching it.
* `Pattern.Executes`, `Plan.Executes`: those of patterns and plans.
* `Job.Executes`: those of a whole computation.

## Main results

* `Row.exists_derives_of_error`: values that cannot be derived come from an evaluation.
* `Compiled.gives_readPages`: what reading pages asks and gives.
* `Compiled.gives_turns`: requests for pages come from turns.
* `Pattern.exists_executes_sort`: rows that are left to sort come from a sort.
-/

namespace FederatedQuery

/-- An operation that a computation performs by itself. -/
inductive Operation where
  /-- Looks for the value of an expression. -/
  | evaluate (scope : Scope) (e : Expression)
  | sort (key : SortKey) (rows : Dataset)
  /-- Adds one to an offset. -/
  | advance (offset : Int)
  /-- Writes the identifiers of a page into the document of a query. -/
  | turn (query : Native.Query) (identifiers : Json.Fields)
  /-- Finds the bucket that starts at an instant. -/
  | bucket (period : Period) (start : Instant)
  /-- Adds one to the number of rows that may be fetched. -/
  | cap (limits : Limits)

/-- The rows that an operation sees. -/
def Operation.rows : Operation → List Row
  | .evaluate scope _ => scope
  | .sort _ rows => rows
  | _ => []

variable {ok : Reply → Prop}

/-- A result that a task has after steps in any order, if the replies are allowed. -/
def Task.Returns {ρ : Type} (ok : Reply → Prop) (task : Task ρ) (result : ρ) : Prop :=
  ∃ log, Activity.Runs true (.ready task) log (.settled (.ok result)) ∧ ∀ entry ∈ log, ok entry.2

theorem Task.Gives.of_returns {ρ : Type} {asks : Request → Prop} {P : ρ → Prop} {task : Task ρ}
    (h : task.Gives asks ok P) {result : ρ} (hresult : task.Returns ok result) : P result := by
  obtain ⟨log, hruns, hok⟩ := hresult
  exact (Activity.Gives.of_runs hruns (.ready h) hok).1.of_settled_ok

/-! ### Rows -/

/-- The evaluations by which values are derived in a row: each of them sees the row as it is when
the values before it are there. -/
def Row.Derives (scope : Scope) (row : Row) (derived : List (String × Expression))
    (op : Operation) : Prop :=
  ∃ done name e rest row', derived = done ++ (name, e) :: rest ∧
    row.derive scope done = .ok row' ∧ op = .evaluate (row' :: scope) e

/-- The operations with the rows of an answer. -/
def Finish.Executes (f : Finish) (scope : Scope) (rows : Dataset) (op : Operation) : Prop :=
  (∃ row ∈ rows, row.Derives scope f.derived op) ∨
    ∃ key ∈ f.sort, ∃ derived, rows.mapM (fun row => row.derive scope f.derived) = .ok derived ∧
      op = .sort key (derived.map f.dropHidden)

/-! ### Answers -/

namespace Compiled

/-- Pages are read from such identifiers on, after such rows. -/
inductive ReadsFrom (ok : Reply → Prop) (maxRows : Nat) (p : Paging) :
    Json.Fields → List Row → Prop
  | first : ReadsFrom ok maxRows p [] []
  | next {identifiers next : Json.Fields} {rows : List Row} {reply : Reply} {items : List Json}
      {page : Page} (h : ReadsFrom ok maxRows p identifiers rows) (hreply : ok reply)
      (hitems : reply.items = .ok items) (hpage : Page.ofItems p.timeAttribute items = .ok page)
      (hfits : (rows ++ page.rows).length ≤ maxRows)
      (hopen : ¬p.limit.any (· ≤ (rows ++ page.rows).length))
      (hfull : p.threshold ≤ page.rows.length)
      (hnext : p.nextIdentifiers? page.identifiers = some next)
      (hchanged : ¬Json.object next == Json.object identifiers) :
      ReadsFrom ok maxRows p next (rows ++ page.rows)

/-- Such rows come of reading pages: those up to a page, as far as they are kept. -/
inductive Reads (ok : Reply → Prop) (maxRows : Nat) (p : Paging) : List Row → Prop
  | intro {identifiers : Json.Fields} {rows : List Row} {reply : Reply} {items : List Json}
      {page : Page} (h : ReadsFrom ok maxRows p identifiers rows) (hreply : ok reply)
      (hitems : reply.items = .ok items) (hpage : Page.ofItems p.timeAttribute items = .ok page)
      (hfits : (rows ++ page.rows).length ≤ maxRows) :
      Reads ok maxRows p (p.kept (rows ++ page.rows))

/-- The operations in fetching the rows of an answer. -/
inductive Executes (ok : Reply → Prop) (config : Config) (c : Compiled) : Operation → Prop
  | turn {p : Paging} {identifiers : Json.Fields} {rows : List Row} (hpaging : c.paging = some p)
      (h : ReadsFrom ok config.maxRows p identifiers rows) :
      Executes ok config c (.turn c.query identifiers)
  /-- The offsets in the identifiers of a full page are advanced if they name its last row. -/
  | advance {p : Paging} {identifiers : Json.Fields} {rows : List Row} {reply : Reply}
      {items : List Json} {page : Page} {segment : String} {n : Int} (hpaging : c.paging = some p)
      (h : ReadsFrom ok config.maxRows p identifiers rows) (hreply : ok reply)
      (hitems : reply.items = .ok items) (hpage : Page.ofItems p.timeAttribute items = .ok page)
      (hfits : (rows ++ page.rows).length ≤ config.maxRows)
      (hopen : ¬p.limit.any (· ≤ (rows ++ page.rows).length))
      (hfull : p.threshold ≤ page.rows.length) (hlast : p.fromNext = false)
      (hoffset : (segment, .int n) ∈ page.identifiers) (hsigned : Word.isSigned n = true) :
      Executes ok config c (.advance n)
  /-- The steps of a series are the starts of buckets. -/
  | bucket {reply : Reply} {items : List Json} {item : Json} {name time : String} {period : Period}
      {start : Instant} (hpaging : c.paging = none) (hreply : ok reply)
      (hitems : reply.items = .ok items) (hitem : item ∈ items)
      (hgrouping : c.grouping = some (.bucket name period time))
      (hstart : answerTime? (item.get? "timestamp") = some start) :
      Executes ok config c (.bucket period start)

end Compiled

/-! ### Patterns and plans -/

/-- The operations in computing a pattern, given the rows around it. -/
inductive Pattern.Executes (ok : Reply → Prop) (config : Config) :
    Pattern → Scope → Operation → Prop
  | compile (p : Pattern) (scope : Scope) : Executes ok config p scope (.cap config.limits)
  | fetch {p : Pattern} {scope : Scope} {op : Operation} {c : Compiled}
      (hcompile : p.compile config.limits = .ok c) (h : c.Executes ok config op) :
      Executes ok config p scope op
  | finish {p : Pattern} {scope : Scope} {op : Operation} {c : Compiled} {rows : Dataset}
      (hcompile : p.compile config.limits = .ok c)
      (hrows : (c.fetch config p.source.external).Returns ok rows)
      (hfits : rows.length ≤ config.maxRows) (h : c.finish.Executes scope rows op) :
      Executes ok config p scope op
  /-- Nested patterns are computed for every row, narrowed to its group. -/
  | nested {p : Pattern} {scope : Scope} {op : Operation} {c : Compiled} {rows : Dataset}
      {row : Row} {grouping : Grouping} {name : String} {nested : Pattern}
      (hcompile : p.compile config.limits = .ok c)
      (hrows : (c.finished config p.source.external scope).Returns ok rows) (hrow : row ∈ rows)
      (hgrouping : c.grouping = some grouping) (hnested : (name, nested) ∈ p.nestedPatterns)
      (h : Executes ok config
        (p.forGroup nested (grouping.condition ((row.get? grouping.name).getD .null)))
        (row :: scope) op) :
      Executes ok config p scope op

/-- The operations in computing a plan. -/
inductive Plan.Executes (ok : Reply → Prop) (config : Config) : Plan → Operation → Prop
  | value (e : Expression) : Executes ok config (.value e) (.evaluate [] e)
  | dataset {p : Pattern} {op : Operation} (h : p.Executes ok config [] op) :
      Executes ok config (.dataset p) op
  | scalar {p : Pattern} {op : Operation} (h : p.Executes ok config [] op) :
      Executes ok config (.scalar p) op
  | totals {seed : Row} {steps : List Step} {p : Pattern} {op : Operation}
      (hp : p ∈ steps.filterMap Step.totals?) (h : p.Executes ok config [seed] op) :
      Executes ok config (.pipeline seed steps) op
  /-- Values are derived when the totals are there. -/
  | derived {seed : Row} {steps : List Step} {answers : List Dataset} {op : Operation}
      (hanswers : (steps.filterMap Step.totals?).Forall₂
        (fun p rows => (p.run config [seed]).Returns ok rows) answers)
      (h : (addTotals seed answers).Derives [] (steps.filterMap Step.derived?) op) :
      Executes ok config (.pipeline seed steps) op
  /-- Datasets see the totals and the derived values. -/
  | datasets {seed row : Row} {steps : List Step} {answers : List Dataset} {name : String}
      {p : Pattern} {op : Operation}
      (hanswers : (steps.filterMap Step.totals?).Forall₂
        (fun p rows => (p.run config [seed]).Returns ok rows) answers)
      (hrow : (addTotals seed answers).derive [] (steps.filterMap Step.derived?) = .ok row)
      (hp : (name, p) ∈ steps.filterMap Step.dataset?) (h : p.Executes ok config [row] op) :
      Executes ok config (.pipeline seed steps) op

/-- The operations of a whole computation. -/
def Simulation.Job.Executes (ok : Reply → Prop) (job : Job) (op : Operation) : Prop :=
  ∃ known plan, (job.context.introspect job.expression).Returns ok known ∧
    job.expression.planWith job.context known = .ok plan ∧ plan.Executes ok job.config op

/-! ### What operations account for -/

/-- An error in deriving values is that of one of the evaluations. -/
theorem Row.exists_derives_of_error {scope : Scope} {row : Row}
    {derived : List (String × Expression)} {error : ExpressionError}
    (h : row.derive scope derived = .error error) :
    ∃ rows e, row.Derives scope derived (.evaluate rows e) ∧ e.evaluate rows = .error error := by
  induction derived generalizing row with
  | nil => exact nomatch h
  | cons entry derived ih =>
    obtain ⟨name, e⟩ := entry
    rw [derive_cons] at h
    obtain h | ⟨v, hv, h⟩ := Except.bind_eq_error.1 h
    · exact ⟨row :: scope, e, ⟨[], name, e, derived, row, rfl, rfl, rfl⟩, h⟩
    · obtain ⟨rows, e', ⟨done, name', _, rest, row', rfl, hdone, rfl, rfl⟩, herror⟩ := ih h
      refine ⟨_, e', ⟨(name, e) :: done, name', e', rest, row', rfl, ?_, rfl⟩, herror⟩
      rw [derive_cons, hv]
      exact hdone

namespace Compiled

variable {config : Config} {c : Compiled}

/-- **Reading pages.** Pages are asked for with the identifiers that reading has come to, and what
comes of it are the rows up to the last page, as far as they are kept. -/
theorem gives_readPages {maxRows : Nat} {p : Paging} (c : Compiled) (x : External)
    {identifiers : Json.Fields} {rows : List Row} (h : ReadsFrom ok maxRows p identifiers rows) :
    (c.readPages x maxRows p identifiers rows).Gives (fun request => ∃ identifiers rows,
      ReadsFrom ok maxRows p identifiers rows ∧
        request = x.request (c.query.atPage identifiers).toJson) ok (Reads ok maxRows p) := by
  rw [readPages]
  refine .look fun cancelled => ?_
  split
  · exact .fail _
  refine .ask ⟨identifiers, rows, h, rfl⟩ fun reply hreply => ?_
  split
  · exact .fail _
  next items hitems =>
  split
  · exact .fail _
  next page hpage =>
  dsimp only
  split
  · exact .fail _
  next hfits =>
  have hreads := Reads.intro h hreply hitems hpage (Nat.le_of_not_lt hfits)
  split
  · next hreached => exact .done (p.take_of_reached hreached ▸ hreads)
  next hopen =>
  rw [p.kept_of_not_reached hopen] at hreads
  split
  · exact .done hreads
  next hfull =>
  split
  · exact .fail _
  next hnext =>
  split
  · exact .done hreads
  next hchanged =>
  exact gives_readPages c x (.next h hreply hitems hpage (Nat.le_of_not_lt hfits) hopen
    (Nat.le_of_not_lt hfull) hnext hchanged)
termination_by maxRows + 1 - rows.length
decreasing_by
  have := p.threshold_pos
  simp only [List.length_append] at *
  omega

/-- **Turns.** Each request for a page is written by a turn that is performed. -/
theorem gives_turns {p : Paging} (hpaging : c.paging = some p) (x : External) :
    (c.fetch config x).Gives (fun request => ∃ identifiers,
      c.Executes ok config (.turn c.query identifiers) ∧
        request = x.request (c.query.atPage identifiers).toJson) ok fun _ => True := by
  rw [fetch, hpaging]
  refine (c.gives_readPages x .first).mono ?_ fun _ _ => trivial
  rintro request ⟨identifiers, rows, h, hrequest⟩
  exact ⟨identifiers, .turn hpaging h, hrequest⟩

end Compiled

/-- **Sorts.** Rows of which a sort is left come from a sort that is performed. -/
theorem Pattern.exists_executes_sort {config : Config} {p : Pattern} {scope : Scope} {c : Compiled}
    {key : SortKey} {finished : Dataset} (hcompile : p.compile config.limits = .ok c)
    (hsort : c.finish.sort = some key)
    (h : (c.finished config p.source.external scope).Returns ok finished) :
    ∃ rows, p.Executes ok config scope (.sort key rows) ∧
      finished = c.finish.limited (Dataset.sortBy key rows) := by
  have hgives : (c.finished config p.source.external scope).Gives (fun _ => True) ok
      fun finished => ∃ rows, p.Executes ok config scope (.sort key rows) ∧
        finished = c.finish.limited (Dataset.sortBy key rows) := by
    refine Exchange.Gives.bind (P := (c.fetch config p.source.external).Returns ok)
      (.of_asks (fun _ _ => trivial) fun _ => id) fun fetched hfetched => ?_
    split
    · exact .fail _
    next hfits =>
    refine .ofExcept fun finished hfinished => ?_
    obtain ⟨derived, hderive, hfinished⟩ := Except.bind_eq_ok.1 (Except.mapError_eq_ok.1 hfinished)
    refine ⟨derived.map c.finish.dropHidden, .finish hcompile hfetched (Nat.le_of_not_lt hfits)
      (.inr ⟨key, hsort, derived, hderive, rfl⟩), ?_⟩
    rw [← Except.ok.inj hfinished, Finish.sorted, hsort]
  exact hgives.of_returns h

end FederatedQuery
