import FederatedQuery.Proofs.Cancelling
import FederatedQuery.Proofs.Literals
import FederatedQuery.Proofs.Operations
import FederatedQuery.Proofs.Phases

/-!
# Finite results

When backends reply with documents, the rows that are fetched are finite. What a plan with finite
literals makes of them stays finite, through nested patterns of any depth, the rows around them and
the steps of pipelines.

## Main definitions

* `Reply.IsDocument`: all chunks of a reply are documents.
* `World.RepliesDocuments`: all replies in a world are.

## Main results

* `Compiled.gives_fetch`: fetched rows.
* `Plan.gives_finite`: the results of plans.
* `Plan.Executes.isFinite`: the rows that operations see.
-/

namespace FederatedQuery

/-- All chunks of the reply are documents. -/
def Reply.IsDocument (reply : Reply) : Prop := ∀ j, .ok j ∈ reply → j.isDocument = true

/-! ### Documents -/

theorem Reply.isDocument_of_items {reply : Reply} (h : reply.IsDocument) {items : List Json}
    (hitems : reply.items = .ok items) : ∀ item ∈ items, item.isDocument = true := by
  induction reply generalizing items with
  | nil => exact Except.ok.inj hitems ▸ nofun
  | cons chunk rest ih =>
    have hrest : Reply.IsDocument rest := fun j hj => h j (List.mem_cons_of_mem _ hj)
    cases chunk with
    | error message => exact nomatch hitems
    | ok j =>
      have hj := h j List.mem_cons_self
      cases j with
      | array these =>
        obtain ⟨others, hothers, rfl⟩ := Except.map_eq_ok.1 hitems
        exact List.forall_mem_append.2 ⟨Json.isDocument_array.1 hj, ih hrest hothers⟩
      | _ =>
        obtain ⟨others, hothers, rfl⟩ := Except.map_eq_ok.1 hitems
        exact List.forall_mem_cons.2 ⟨hj, ih hrest hothers⟩

theorem Json.mem_of_lookup {fields : Fields} {key : String} {value : Json}
    (h : fields.lookup key = some value) : (key, value) ∈ fields := by
  obtain ⟨front, back, rfl, -⟩ := List.lookup_eq_some_iff.1 h
  exact List.mem_append_right _ List.mem_cons_self

theorem Json.isDocument_of_get? {j value : Json} (hj : j.isDocument = true) {key : String}
    (h : j.get? key = some value) : value.isDocument = true := by
  cases j with
  | object fields => exact isDocument_object.1 hj _ (mem_of_lookup h)
  | _ => exact nomatch h

/-- The record in a field of a document holds documents. -/
theorem Json.isDocument_of_fields? {j : Json} (hj : j.isDocument = true) {key : String}
    {record : Fields} (h : (j.get? key).bind fields? = some record) :
    ∀ field ∈ record, field.2.isDocument = true :=
  isDocument_object.1 (isDocument_of_get? hj (eq_object_of_fields? h))

/-! ### Rows in answers -/

theorem isFinite_recordCell {record : Json.Fields}
    (h : ∀ field ∈ record, field.2.isDocument = true) (name : String) :
    (recordCell record name).IsFinite := by
  rw [recordCell]
  split
  · next cell hcell => exact Value.isFinite_ofCell (h _ (Json.mem_of_lookup hcell))
  · exact Value.isFinite_null

theorem Value.isFinite_timeRange (r : TimeRange) : IsFinite (.timeRange r) :=
  isFinite_of_numbers rfl nofun

theorem Row.IsFinite.write {row : Row} (h : row.IsFinite) {cell : String → Value}
    (hcell : ∀ n, (cell n).IsFinite) (names : List String) : (row.write cell names).IsFinite := by
  induction names generalizing row with
  | nil => exact h
  | cons name names ih => exact ih (h.put (hcell name) name)

namespace Compiled

variable {c : Compiled} {rows : List Row}

theorem isFinite_row (c : Compiled) {record : Json.Fields}
    (h : ∀ field ∈ record, field.2.isDocument = true) : (c.row record).IsFinite := by
  refine Row.IsFinite.write ?_ (isFinite_recordCell h) c.columns
  split
  · exact Row.isFinite_nil.put (isFinite_recordCell h _) _
  · exact Row.isFinite_nil

theorem isFinite_seriesRow {entry : Json} (hentry : entry.isDocument = true) {row : Row}
    (h : c.seriesRow entry = .ok row) : row.IsFinite := by
  rw [seriesRow] at h
  split at h
  · cases h
  next record hrecord =>
  have hfinite := c.isFinite_row (Json.isDocument_of_fields? hentry hrecord)
  split at h
  · split at h
    · exact Except.ok.inj h ▸ hfinite.put (Value.isFinite_timeRange _) _
    · cases h
  · exact Except.ok.inj h ▸ hfinite

theorem isFinite_topRows {entry : Json} (hentry : entry.isDocument = true)
    (h : c.topRows entry = .ok rows) : ∀ row ∈ rows, row.IsFinite := by
  intro row hrow
  rw [topRows] at h
  split at h
  · exact nomatch h
  next records hrecords =>
  have hdocument := Json.isDocument_of_get? hentry (Json.eq_array_of_items? hrecords)
  obtain ⟨record, hmem, hrow⟩ := Except.exists_mem_of_mapM_eq_ok h row hrow
  have hrecord := Json.isDocument_array.1 hdocument record hmem
  cases record with
  | object fields => exact Except.ok.inj hrow ▸ c.isFinite_row (Json.isDocument_object.1 hrecord)
  | _ => exact nomatch hrow

theorem isFinite_groupRow {entry : Json} (hentry : entry.isDocument = true) {row : Row}
    (h : c.groupRow entry = .ok row) : row.IsFinite := by
  rw [groupRow] at h
  split at h
  · next record hrecord =>
    exact Except.ok.inj h ▸ c.isFinite_row (Json.isDocument_of_fields? hentry hrecord)
  · exact nomatch h

/-- The rows in the answer to a query for aggregates. -/
theorem isFinite_rows {items : List Json} (hitems : ∀ item ∈ items, item.isDocument = true)
    (h : c.rows items = .ok rows) : ∀ row ∈ rows, row.IsFinite := by
  have hseries (h : (do
      let rows ← items.mapM c.seriesRow
      .ok (if rows.isEmpty && c.grouping.isNone then [c.row []] else rows)) = .ok rows) :
      ∀ row ∈ rows, row.IsFinite := by
    obtain ⟨read, hread, h⟩ := Except.bind_eq_ok.1 h
    rw [← Except.ok.inj h]
    split
    · exact List.forall_mem_singleton.2 (c.isFinite_row (List.forall_mem_nil _))
    · intro row hrow
      obtain ⟨item, hitem, hrow⟩ := Except.exists_mem_of_mapM_eq_ok hread row hrow
      exact isFinite_seriesRow (hitems item hitem) hrow
  rw [Compiled.rows] at h
  split at h
  · exact Except.ok.inj h ▸ List.forall_mem_nil _
  · exact hseries h
  · exact hseries h
  · obtain ⟨parts, hparts, rfl⟩ := Except.map_eq_ok.1 h
    intro row hrow
    obtain ⟨part, hpart, hrow⟩ := List.mem_flatten.1 hrow
    obtain ⟨item, hitem, hpart⟩ := Except.exists_mem_of_mapM_eq_ok hparts part hpart
    exact isFinite_topRows (hitems item hitem) hpart row hrow
  · intro row hrow
    obtain ⟨item, hitem, hrow⟩ := Except.exists_mem_of_mapM_eq_ok h row hrow
    exact isFinite_groupRow (hitems item hitem) hrow

end Compiled

namespace Page

variable {timeAttribute : String}

theorem isFinite_rowOf {event : Json} (hevent : event.isDocument = true) {row : Row}
    (h : rowOf timeAttribute event = .ok row) : row.IsFinite := by
  rw [rowOf] at h
  split at h
  · cases h
  next record hrecord =>
  have hcells := Json.isDocument_of_fields? hevent hrecord
  rw [← Except.ok.inj h]
  refine List.foldlRecOn record _ Row.isFinite_nil fun row hrow entry hcell => ?_
  dsimp only
  split
  · refine hrow.put ?_ _
    split
    · exact Value.isFinite_of_numbers rfl (List.forall_mem_nil _)
    · exact Value.isFinite_null
  · exact hrow.put (Value.isFinite_ofCell (hcells _ hcell)) _

theorem isDocument_of_events {result : Json} (h : result.isDocument = true) :
    ∀ event ∈ ((result.get? "events").bind Json.items?).getD [], event.isDocument = true := by
  cases hevents : (result.get? "events").bind Json.items? with
  | none => exact nofun
  | some events =>
    exact Json.isDocument_array.1 (Json.isDocument_of_get? h (Json.eq_array_of_items? hevents))

theorem isFinite_ofItems {items : List Json} (hitems : ∀ item ∈ items, item.isDocument = true)
    {page : Page} (h : ofItems timeAttribute items = .ok page) :
    ∀ row ∈ page.rows, row.IsFinite := by
  refine Except.foldlM_induction (motive := fun done page =>
    (∀ item ∈ done, item.isDocument = true) → ∀ row ∈ page.rows, row.IsFinite) h (fun _ => nofun)
    (fun done item page page' hpage hadded hdone => ?_) hitems
  obtain ⟨hbefore, hitem⟩ := List.forall_mem_append.1 hdone
  rw [addItem] at hadded
  split at hadded
  · cases hadded
  next result hresult =>
  have hdocument := Json.isDocument_of_get? (hitem item List.mem_cons_self) hresult
  obtain ⟨rows, hrows, hadded⟩ := Except.bind_eq_ok.1 hadded
  rw [← Except.ok.inj hadded]
  refine List.forall_mem_append.2 ⟨hpage hbefore, fun row hrow => ?_⟩
  obtain ⟨event, hevent, hrow⟩ := Except.exists_mem_of_mapM_eq_ok hrows row hrow
  exact isFinite_rowOf (isDocument_of_events hdocument event hevent) hrow

end Page

namespace Compiled

variable {asks : Request → Prop}

theorem ReadsFrom.isFinite {maxRows : Nat} {p : Paging} {identifiers : Json.Fields}
    {rows : List Row} (h : ReadsFrom Reply.IsDocument maxRows p identifiers rows) :
    ∀ row ∈ rows, row.IsFinite := by
  induction h with
  | first => exact List.forall_mem_nil _
  | next _ hreply hitems hpage _ _ _ _ _ ih =>
    exact List.forall_mem_append.2
      ⟨ih, Page.isFinite_ofItems (Reply.isDocument_of_items hreply hitems) hpage⟩

/-- The rows that come of reading pages. -/
theorem Reads.isFinite {maxRows : Nat} {p : Paging} {rows : List Row}
    (h : Reads Reply.IsDocument maxRows p rows) : ∀ row ∈ rows, row.IsFinite := by
  obtain ⟨h, hreply, hitems, hpage, -⟩ := h
  intro row hrow
  exact List.forall_mem_append.2
    ⟨h.isFinite, Page.isFinite_ofItems (Reply.isDocument_of_items hreply hitems) hpage⟩ row
      (p.kept_subset _ hrow)

/-- **Fetched rows.** -/
theorem gives_fetch (c : Compiled) (config : Config) (x : External) :
    (c.fetch config x).Gives (fun _ => True) Reply.IsDocument
      fun rows => ∀ row ∈ rows, row.IsFinite := by
  rw [fetch]
  split
  · exact (c.gives_readPages x .first).mono (fun _ _ => trivial) fun _ => Reads.isFinite
  · refine .items trivial fun reply hreply => ?_
    split
    · exact .fail _
    · next items hitems =>
      exact .ofExcept fun rows hrows =>
        isFinite_rows (Reply.isDocument_of_items hreply hitems) hrows

theorem gives_finished {c : Compiled} {config : Config} {x : External} {scope : Scope}
    (hscope : ∀ row ∈ scope, row.IsFinite)
    (hderived : ∀ entry ∈ c.finish.derived, entry.2.IsFinite) :
    (c.finished config x scope).Gives (fun _ => True) Reply.IsDocument
      fun rows => ∀ row ∈ rows, row.IsFinite := by
  refine (c.gives_fetch config x).bind fun rows hrows => ?_
  split
  · exact .fail _
  · exact .ofExcept fun rows' hrows' => Finish.isFinite_of_apply hscope hrows hderived
      (Except.mapError_eq_ok.1 hrows')

end Compiled

/-! ### Results -/

/-- Datasets that are finite are written into a row. -/
theorem Row.gives_attach {row : Row} (hrow : row.IsFinite) {tasks : List (String × Task Dataset)}
    (htasks : ∀ entry ∈ tasks, entry.2.Gives (fun _ => True) Reply.IsDocument
      fun rows => ∀ row ∈ rows, row.IsFinite) :
    (row.attach tasks).Gives (fun _ => True) Reply.IsDocument
      fun rows => ∀ row ∈ rows, row.IsFinite := by
  induction tasks generalizing row with
  | nil => exact .done (List.forall_mem_singleton.2 hrow)
  | cons entry tasks ih =>
    obtain ⟨hentry, htasks⟩ := List.forall_mem_cons.1 htasks
    exact hentry.bind fun rows hrows => ih (hrow.put (Value.isFinite_dataset.2 hrows) _) htasks

/-- The rows of a pattern, with those of its nested patterns. -/
theorem Pattern.gives_finite (config : Config) (p : Pattern) (hp : p.IsFinite) {scope : Scope}
    (hscope : ∀ row ∈ scope, row.IsFinite) :
    (p.run config scope).Gives (fun _ => True) Reply.IsDocument
      fun rows => ∀ row ∈ rows, row.IsFinite := by
  rw [run]
  refine .look fun cancelled => ?_
  split
  · exact .fail _
  split
  · exact .fail _
  next c hcompile =>
  refine (Compiled.gives_finished hscope (isFinite_of_compile hp hcompile)).andThen
    fun rows hrows => ?_
  split
  · exact .done hrows
  split
  · exact .done hrows
  refine .join (fun part hpart => ?_) fun parts hparts => .done fun row hrow => ?_
  · obtain ⟨row, hrow, rfl⟩ := List.mem_map.1 hpart
    refine Row.gives_attach (hrows row hrow) fun entry hentry => ?_
    obtain ⟨⟨⟨name, nested⟩, hnested⟩, -, rfl⟩ := List.mem_map.1 hentry
    exact gives_finite config _ ((hp.nested hnested).forGroup p _)
      (List.forall_mem_cons.2 ⟨hrows row hrow, hscope⟩)
  · obtain ⟨part, hpart, hrow⟩ := List.mem_flatten.1 hrow
    exact hparts part hpart row hrow
termination_by sizeOf p.applies
decreasing_by
  rw [forGroup_applies]
  exact sizeOf_applies_lt hnested

namespace Plan

variable {config : Config}

theorem isFinite_addTotals {seed : Row} (hseed : seed.IsFinite) {answers : List Dataset}
    (hanswers : ∀ rows ∈ answers, ∀ row ∈ rows, row.IsFinite) :
    (addTotals seed answers).IsFinite := by
  refine List.foldlRecOn answers _ hseed fun row hrow rows hmem => ?_
  have hrows := hanswers rows hmem
  split
  · exact hrow.extend (hrows _ List.mem_cons_self)
  · exact hrow

theorem gives_runSteps {seed : Row} (hseed : seed.IsFinite) {steps : List Step}
    (hsteps : ∀ step ∈ steps, step.IsFinite) :
    (runSteps config seed steps).Gives (fun _ => True) Reply.IsDocument
      fun rows => ∀ row ∈ rows, row.IsFinite := by
  obtain ⟨htotals, hderived, hdatasets⟩ := forall_steps.1 hsteps
  refine .join (fun part hpart => ?_) fun answers hanswers => ?_
  · obtain ⟨p, hp, rfl⟩ := List.mem_map.1 hpart
    exact Pattern.gives_finite config p (htotals p hp) (List.forall_mem_singleton.2 hseed)
  split
  · exact .fail _
  next row hrow =>
  have hrow := Row.isFinite_of_derive (List.forall_mem_nil _)
    (isFinite_addTotals hseed hanswers) hderived hrow
  refine .join (fun part hpart => ?_) fun answers hanswers => ?_
  · obtain ⟨⟨name, p⟩, hp, rfl⟩ := List.mem_map.1 hpart
    exact Pattern.gives_finite config p (hdatasets _ hp) (List.forall_mem_singleton.2 hrow)
  · refine .done (List.forall_mem_singleton.2 (hrow.extend fun cell hcell => ?_))
    obtain ⟨rows, hrows, heq⟩ := List.mem_map.1 (List.of_mem_zip hcell).2
    exact heq ▸ Value.isFinite_dataset.2 (hanswers rows hrows)

/-- **The rows of plans.** -/
theorem gives_finite {plan : Plan} (h : plan.IsFinite) :
    (plan.run config).Gives (fun _ => True) Reply.IsDocument
      fun rows => ∀ row ∈ rows, row.IsFinite := by
  cases plan with
  | value e =>
    rw [run]
    split
    · exact .fail _
    · next v hv =>
      have hvalue := Expression.isFinite_of_evaluate (List.forall_mem_nil _) h hv
      exact .done (List.forall_mem_singleton.2 (List.forall_mem_singleton.2 hvalue))
  | dataset p => exact Pattern.gives_finite config p h (List.forall_mem_nil _)
  | scalar p => exact Pattern.gives_finite config p h (List.forall_mem_nil _)
  | pipeline seed steps => exact gives_runSteps h.1 h.2

/-- The value of a plan is one of its rows, or all of them. -/
theorem isFinite_result {plan : Plan} {rows : Dataset} (h : ∀ row ∈ rows, row.IsFinite) :
    (plan.result rows).IsFinite := by
  have hscalar : (scalarIn rows).IsFinite := by
    cases rows with
    | nil => exact Value.isFinite_null
    | cons row rows => exact (h row List.mem_cons_self).getD _
  cases plan with
  | value | scalar => exact hscalar
  | dataset | pipeline => exact Value.isFinite_dataset.2 h

end Plan

/-! ### Operations -/

/-- Deriving values in finite rows sees finite rows. -/
theorem Row.Derives.isFinite {scope : Scope} {row : Row} {derived : List (String × Expression)}
    {op : Operation} (h : row.Derives scope derived op) (hscope : ∀ row ∈ scope, row.IsFinite)
    (hrow : row.IsFinite) (hderived : ∀ entry ∈ derived, entry.2.IsFinite) :
    ∀ row ∈ op.rows, row.IsFinite := by
  obtain ⟨done, name, e, rest, row', rfl, hdone, rfl⟩ := h
  exact List.forall_mem_cons.2 ⟨Row.isFinite_of_derive hscope hrow
    (fun entry hentry => hderived entry (List.mem_append_left _ hentry)) hdone, hscope⟩

/-- What is left to do with finite rows sees finite rows. -/
theorem Finish.Executes.isFinite {f : Finish} {scope : Scope} {rows : Dataset} {op : Operation}
    (h : f.Executes scope rows op) (hscope : ∀ row ∈ scope, row.IsFinite)
    (hrows : ∀ row ∈ rows, row.IsFinite) (hderived : ∀ entry ∈ f.derived, entry.2.IsFinite) :
    ∀ row ∈ op.rows, row.IsFinite := by
  obtain ⟨row, hrow, h⟩ | ⟨key, -, derived, hderive, rfl⟩ := h
  · exact h.isFinite hscope (hrows row hrow) hderived
  · intro row hrow
    obtain ⟨whole, hwhole, rfl⟩ := List.mem_map.1 hrow
    obtain ⟨origin, horigin, hwhole⟩ := Except.exists_mem_of_mapM_eq_ok hderive whole hwhole
    exact (Row.isFinite_of_derive hscope (hrows origin horigin) hderived hwhole).foldl_erase _

/-- The operations of patterns. -/
theorem Pattern.Executes.isFinite {config : Config} {p : Pattern} {scope : Scope} {op : Operation}
    (h : p.Executes Reply.IsDocument config scope op) (hp : p.IsFinite)
    (hscope : ∀ row ∈ scope, row.IsFinite) : ∀ row ∈ op.rows, row.IsFinite := by
  induction h with
  | compile p scope => exact List.forall_mem_nil _
  | fetch hcompile h => cases h <;> exact List.forall_mem_nil _
  | @finish p scope op c rows hcompile hrows hfits h =>
    exact h.isFinite hscope ((c.gives_fetch config _).of_returns hrows)
      (isFinite_of_compile hp hcompile)
  | @nested p scope op c rows row grouping name nested hcompile hrows hrow hgrouping hnested h ih =>
    have hfinite := (Compiled.gives_finished hscope
      (isFinite_of_compile hp hcompile)).of_returns hrows row hrow
    exact ih ((hp.nested hnested).forGroup p _) (List.forall_mem_cons.2 ⟨hfinite, hscope⟩)

/-- **The operations of plans.** They see finite rows. -/
theorem Plan.Executes.isFinite {config : Config} {plan : Plan} {op : Operation}
    (h : plan.Executes Reply.IsDocument config op) (hplan : plan.IsFinite) :
    ∀ row ∈ op.rows, row.IsFinite := by
  have htotals {seed : Row} {steps : List Step} (hplan : (Plan.pipeline seed steps).IsFinite)
      {answers : List Dataset} (hanswers : (steps.filterMap Step.totals?).Forall₂
        (fun p rows => (p.run config [seed]).Returns Reply.IsDocument rows) answers) :
      (addTotals seed answers).IsFinite := by
    refine isFinite_addTotals hplan.1 ?_
    have hpatterns := (forall_steps.1 hplan.2).1
    generalize steps.filterMap Step.totals? = patterns at hanswers hpatterns
    induction hanswers with
    | nil => exact List.forall_mem_nil _
    | @cons p rows _ _ hreturns _ ih =>
      obtain ⟨hp, hpatterns⟩ := List.forall_mem_cons.1 hpatterns
      exact List.forall_mem_cons.2 ⟨(p.gives_finite config hp
        (List.forall_mem_singleton.2 hplan.1)).of_returns hreturns, ih hpatterns⟩
  cases h with
  | value e => exact List.forall_mem_nil _
  | dataset h => exact h.isFinite hplan (List.forall_mem_nil _)
  | scalar h => exact h.isFinite hplan (List.forall_mem_nil _)
  | totals hp h =>
    exact h.isFinite ((forall_steps.1 hplan.2).1 _ hp) (List.forall_mem_singleton.2 hplan.1)
  | derived hanswers h =>
    exact h.isFinite (List.forall_mem_nil _) (htotals hplan hanswers)
      (forall_steps.1 hplan.2).2.1
  | datasets hanswers hrow hp h =>
    obtain ⟨-, hderived, hdatasets⟩ := forall_steps.1 hplan.2
    have hrow := Row.isFinite_of_derive (List.forall_mem_nil _) (htotals hplan hanswers) hderived
      hrow
    exact h.isFinite (hdatasets _ hp) (List.forall_mem_singleton.2 hrow)

/-! ### Computations -/

namespace Simulation

/-- Replies depend on the backends, and on nothing else in a world. -/
theorem World.reply_eq_of_backends {w w' : World} (h : w.backends = w'.backends)
    (requests : List Request) (request : Request) :
    ((w.after requests).ask 0 request).1.reply = ((w'.after requests).ask 0 request).1.reply := by
  induction requests generalizing w w' with
  | nil =>
    simp only [World.after, List.foldl_nil, World.ask, h]
  | cons first requests ih =>
    refine ih ?_
    simp only [World.ask, h]

/-- All replies in the world, whatever has been asked before, are documents. -/
def World.RepliesDocuments (w : World) : Prop :=
  ∀ requests request, ((w.after requests).ask 0 request).1.reply.IsDocument

/-- The replies are documents if those in the scripts are. -/
theorem World.repliesDocuments_of_backends {w : World}
    (h : ∀ entry ∈ w.backends, entry.2.Replies Reply.IsDocument) : w.RepliesDocuments :=
  World.replies_of_backends (fun _ hj => nomatch List.mem_singleton.1 hj) h

theorem World.isKept_repliesDocuments : World.IsKept World.RepliesDocuments where
  ask w now request h := fun requests => h (request :: requests)
  cancel w token h := fun requests request => by
    have hbackends : (w.cancel token).backends = w.backends := rfl
    exact World.reply_eq_of_backends hbackends requests request ▸ h requests request

end Simulation

/-- The literals of an expression that has been read from a document are finite. -/
theorem Expression.isFinite_of_read {j : Json} (hj : j.isDocument = true) {e : Expression}
    (h : read j = .ok e) : e.IsFinite := by
  rw [read] at h
  split at h
  · cases h
  · next parsed hparsed =>
    obtain ⟨-, -, rfl⟩ := Except.map_eq_ok.1 h
    exact fun v hv => (isWritable_of_ofJson? hj hparsed v hv).finite

/-! ### Divided edits -/

namespace Sample

open Simulation

/-- The number of edits divided by zero. -/
def overZero : Expression :=
  .binary (.arithmetic .divide) (.count (.ref "edits")) (.literal (.number 0))

/-- The pages in the order of their number of edits divided by zero. -/
def dividedPages : Job :=
  { editsJob [] with
    expression := .sort (.apply (editsBy "page") overZero "Ratio") (.ref "Ratio") .ascending }

/-- The pattern of these pages. -/
def dividedPattern : Pattern :=
  { patternBy "page" [("Ratio", .scalar overZero)] with sort := some ⟨"Ratio", .ascending⟩ }

/-- A page with a number of edits. -/
def editedPage (page : String) (count : Int) : Json :=
  .object [("event", .object [("page", .string page), ("!T_0", .int count)])]

/-- A backend with a page that has edits and one that has none. -/
def editedBackend : Backend :=
  let groups := [editedPage "Lion" 7, editedPage "Zebra" 0]
  ⟨[⟨.object [], .now [.ok (.array groups)], none⟩], [], none⟩

/-- The world with this backend. -/
def editedWorld : World := ⟨[("wiki", editedBackend)], [], []⟩

/-- The rows of both pages. -/
def dividedRows : Dataset :=
  [[("Ratio", .null), ("page", .string "Lion")], [("Ratio", .null), ("page", .string "Zebra")]]

/-- A page with a number of edits, and perhaps the quotient. -/
def editedRow (page : String) (count : Int) (ratio : Row) : Row :=
  ("!T_0", .number (Float.ofInt count)) :: ratio ++ [("page", .string page)]

theorem dividedPages_plan : Plan.ofExpression dividedPages.context dividedPages.expression =
    .ok (.dataset dividedPattern) := by
  change ((Bindings.ofContext [("edits", edits)]).pattern dividedPages.expression).map _ = _
  rw [Bindings.pattern]
  rfl

theorem dividedPattern_compile : ∃ c, dividedPattern.compile Config.standard.limits = .ok c ∧
    c.paging = none ∧ c.grouping = some (.dimension "page" "page") ∧
    c.finish = ⟨[("Ratio", .binary (.arithmetic .divide) (.ref "!T_0") (.literal (.number 0)))],
      ["!T_0"], some ⟨"Ratio", .ascending⟩, none⟩ ∧
    c.rows [editedPage "Lion" 7, editedPage "Zebra" 0] =
      .ok [editedRow "Lion" 7 [], editedRow "Zebra" 0 []] :=
  ⟨_, rfl, rfl, rfl, rfl, rfl⟩

/-- The rows of both pages with the quotients. -/
def derivedRows : Dataset :=
  [editedRow "Lion" 7 [("Ratio", .null)], editedRow "Zebra" 0 [("Ratio", .null)]]

/-- Neither quotient is finite, so both are null. -/
theorem derive_overZero : [editedRow "Lion" 7 [], editedRow "Zebra" 0 []].mapM
    (fun row => row.derive [] [("Ratio",
      .binary (.arithmetic .divide) (.ref "!T_0") (.literal (.number 0)))]) = .ok derivedRows :=
  rfl

theorem sortBy_dividedRows : Dataset.sortBy ⟨"Ratio", .ascending⟩ dividedRows = dividedRows :=
  List.mergeSort_of_pairwise (List.pairwise_pair.2 rfl)

theorem compute_dividedPages :
    (editedWorld.compute dividedPages).1 = .ok (.dataset dividedRows) := by
  obtain ⟨c, hcompile, hpaging, hgrouping, hfinish, hrows⟩ := dividedPattern_compile
  have happly : c.finish.apply [] [editedRow "Lion" 7 [], editedRow "Zebra" 0 []] =
      .ok dividedRows := by
    rw [Finish.apply, hfinish, derive_overZero]
    exact congrArg Except.ok sortBy_dividedRows
  have hstart : ∃ w, Running.start none 0 (dividedPattern.run .standard []) editedWorld =
      (.settled (.ok dividedRows), w) := by
    rw [Pattern.run_eq_fanOut, hcompile]
    change ∃ w, Running.start none 0 ((c.finished .standard edits []).andThen id _) editedWorld = _
    rw [Compiled.finished_eq_ask hpaging]
    change ∃ w, Running.start none 0 ((Exchange.ofExcept
      (c.rows [editedPage "Lion" 7, editedPage "Zebra" 0] >>= _)).andThen id _) _ = _
    rw [hrows]
    change ∃ w, Running.start none 0 ((Exchange.ofExcept
      ((c.finish.apply [] _).mapError ExecutionError.expression)).andThen id _) _ = _
    rw [happly, hgrouping]
    exact ⟨_, rfl⟩
  obtain ⟨w, hstart⟩ := hstart
  rw [World.compute_of_known rfl rfl rfl, dividedPages_plan]
  change ((Stage.ofRun _ (Running.start none 0 (dividedPattern.run .standard [])
    editedWorld)).1.settle _ _ (Stage.ofRun _ (Running.start none 0
      (dividedPattern.run .standard []) editedWorld)).2).1 = _
  rw [hstart, Stage.settle_ofRun_settled]
  rfl

theorem read_dividedPages :
    Expression.read dividedPages.expression.toJson = .ok dividedPages.expression := by
  have hvalues : dividedPages.expression.values = [.number 0] := rfl
  have hzero : (0 : Float).isFinite = true := by decide +kernel
  have hwritable : ∀ v ∈ dividedPages.expression.values, v.IsWritable := by
    rw [hvalues, List.forall_mem_singleton]
    exact ⟨List.forall_mem_singleton.2 hzero, List.forall_mem_nil _, List.forall_mem_nil _⟩
  rw [Expression.read, Expression.ofJson?_toJson false hwritable]
  rfl

theorem editedWorld_repliesDocuments : editedWorld.RepliesDocuments := by
  refine World.repliesDocuments_of_backends (List.forall_mem_singleton.2
    ⟨List.forall_mem_singleton.2 fun j hj => ?_, nofun, rfl⟩)
  obtain rfl := Except.ok.inj (List.mem_singleton.1 hj)
  rfl

theorem executes_sort_dividedPages :
    dividedPages.Executes Reply.IsDocument (.sort ⟨"Ratio", .ascending⟩ dividedRows) := by
  obtain ⟨c, hcompile, hpaging, hgrouping, hfinish, hrows⟩ := dividedPattern_compile
  have hfetch : (c.fetch .standard edits).Returns Reply.IsDocument
      [editedRow "Lion" 7 [], editedRow "Zebra" 0 []] := by
    rw [Compiled.fetch, hpaging]
    have hreply : Reply.IsDocument [.ok (.array [editedPage "Lion" 7, editedPage "Zebra" 0])] := by
      rintro j hj
      obtain rfl := Except.ok.inj (List.mem_singleton.1 hj)
      rfl
    refine .ask hreply ?_
    change Exchange.Returns _ (Exchange.ofExcept
      (c.rows [editedPage "Lion" 7, editedPage "Zebra" 0])) _
    rw [hrows]
    exact .done _
  have hsort : c.finish.Executes [] [editedRow "Lion" 7 [], editedRow "Zebra" 0 []]
      (.sort ⟨"Ratio", .ascending⟩ dividedRows) := by
    rw [hfinish]
    exact .inr ⟨_, rfl, derivedRows, derive_overZero, rfl⟩
  have hintrospect : (dividedPages.context.introspect dividedPages.expression).Returns
      Reply.IsDocument [] :=
    ⟨[], .quiet (.all rfl) (.quiet (@Activity.Step.allDone _ _ [] [] [] _)
      (.quiet (.done rfl) (.refl _))), List.forall_mem_nil _⟩
  exact ⟨[], _, hintrospect, congrArg (Except.mapError _) dividedPages_plan,
    .dataset (.finish hcompile hfetch (by decide) hsort)⟩

end Sample

/-! ### Whole computations -/

namespace Simulation

variable {w : World} {job : Job} {j : Json}

/-- **Finite results.** For an expression that has been read from a document, and in a world that
replies with documents, all numbers of a result are finite, at any depth, and its plain form has all
of them. Whatever documents the backends reply, the rows that are seen in evaluating expressions and
in sorting are finite, and the comparator of each sort is a total preorder on its rows. -/
theorem World.compute_isFinite (hj : j.isDocument = true)
    (hread : Expression.read j = .ok job.expression) (hw : w.RepliesDocuments) :
    (∀ v, (w.compute job).1 = .ok v →
      v.IsFinite ∧ v.plain.doubles = v.parts.flatMap Value.numbers) ∧
    (∀ op, job.Executes Reply.IsDocument op → ∀ row ∈ op.rows, row.IsFinite) ∧
    ∀ key rows, job.Executes Reply.IsDocument (.sort key rows) →
      Std.TransCmp fun (a b : {row // row ∈ rows}) => Dataset.compareBy key a.1 b.1 := by
  have hfinite := Expression.isFinite_of_read hj hread
  have hplans {known : Context} {plan : Plan}
      (hplan : job.expression.planWith job.context known = .ok plan) : plan.IsFinite :=
    Plan.isFinite_of_ofExpression hfinite (Except.mapError_eq_ok.1 hplan)
  have hrows (op : Operation) (h : job.Executes Reply.IsDocument op) :
      ∀ row ∈ op.rows, row.IsFinite := by
    obtain ⟨known, plan, -, hplan, h⟩ := h
    exact h.isFinite (hplans hplan)
  refine ⟨fun v hv => ?_, hrows, fun key rows h => ?_⟩
  · have hgives : job.Gives (fun _ => True) Reply.IsDocument Value.IsFinite := by
      refine ⟨fun _ => True, .of_asks _ fun _ _ => trivial, fun known _ plan hplan => ?_⟩
      exact ⟨_, .ready (Plan.gives_finite (hplans hplan)), fun _ => Plan.isFinite_result⟩
    have hv := (World.compute_gives World.isKept_repliesDocuments
      (fun w hw request => hw [] request) hgives hw).1 v hv
    exact ⟨hv, Value.doubles_plain v hv⟩
  · exact Dataset.transCmp_compareBy fun row hrow =>
      ((hrows _ h row hrow).getD key.name).isComparable

open Sample in
/-- Quotients that are not finite are null, so the pages with them can be sorted. -/
theorem World.compute_isFinite_dividedPages :
    dividedPages.expression.toJson.isDocument = true ∧
      Expression.read dividedPages.expression.toJson = .ok dividedPages.expression ∧
      editedWorld.RepliesDocuments ∧
      (editedWorld.compute dividedPages).1 = .ok (.dataset dividedRows) ∧
      Value.IsFinite (.dataset dividedRows) ∧
      dividedPages.Executes Reply.IsDocument (.sort ⟨"Ratio", .ascending⟩ dividedRows) ∧
      Std.TransCmp fun (a b : {row // row ∈ dividedRows}) =>
        Dataset.compareBy ⟨"Ratio", .ascending⟩ a.1 b.1 := by
  have hj : dividedPages.expression.toJson.isDocument = true := by decide +kernel
  obtain ⟨hresult, -, hsorts⟩ := World.compute_isFinite hj read_dividedPages
    editedWorld_repliesDocuments
  have hsort := executes_sort_dividedPages
  exact ⟨hj, read_dividedPages, editedWorld_repliesDocuments, compute_dividedPages,
    (hresult _ compute_dividedPages).1, hsort, hsorts _ _ hsort⟩

end Simulation

end FederatedQuery
