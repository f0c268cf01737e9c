import FederatedQuery.Proofs.Finishing
import FederatedQuery.Proofs.Paging
import FederatedQuery.Proofs.StableSorting
import FederatedQuery.Proofs.Translation

/-!
# Sorts of selected rows

Selected rows are sorted after they are fetched. A backend delivers of each row its time and the
columns that are asked for, so the sort sees the values of a column only if it is one of them. The
columns that are asked for are the metrics, and those other columns that have another type than
time; the time of a row becomes the time attribute. A sort by any other column of type time is
accepted, but finds no cell in any row, and leaves the rows in the order in which they come.

## Main definitions

* `Request.columns`: the columns that a request asks for.
* `StoredRow`: a row of a datasource; `StoredRow.IsEvent`: the events that deliver it.
* `StoredRow.IsTold`: the columns of which events tell the values.
* `StoredRow.row`, `StoredRow.sorted`: what is fetched of rows, and rows sorted by the values that
  they really have.
* `Attribute.isFetched`: whether the values of a column are fetched.
* `ServesRows`: the backends that serve the rows of a datasource.

## Main results

* `StoredRow.IsEvent.rowOf`: what is fetched of a row.
* `StoredRow.pairwise_sorted`: sorted rows are in order.
* `Compiled.finished_sorted`: a selection with a sort.
-/

namespace FederatedQuery

open Native

/-! ### Columns that are asked for -/

/-- The texts that a list holds. -/
def Json.texts (j : Option Json) : List String := ((j.bind items?).getD []).filterMap text?

@[simp] theorem Json.texts_namesToJson (names : List String) :
    texts (some (Shape.namesToJson names)) = names := by
  change (names.map Json.string).filterMap text? = names
  rw [List.filterMap_map]
  exact List.filterMap_some

/-- The columns that a request for rows asks for. -/
def Request.columns (r : Request) : List String :=
  Json.texts (r.query.get? "dimensions") ++ Json.texts (r.query.get? "metrics")

theorem External.columns_request (x : External) {q : Query} {dimensions metrics : List String}
    {size : Nat} {fromNext : Bool} {initial : Json.Fields}
    (h : q.shape = .select dimensions metrics size fromNext initial) :
    (x.request q.toJson).columns = dimensions ++ metrics := by
  have hdimensions : (x.request q.toJson).query.get? "dimensions" =
      some (Shape.namesToJson dimensions) := by
    rw [x.get?_request _ (by decide), Query.get?_toJson _ (by decide), h]
    rfl
  have hmetrics : (x.request q.toJson).query.get? "metrics" =
      some (Shape.namesToJson metrics) := by
    rw [x.get?_request _ (by decide), Query.get?_toJson _ (by decide), h]
    rfl
  rw [Request.columns, hdimensions, hmetrics, Json.texts_namesToJson, Json.texts_namesToJson]

namespace Pattern

variable {p : Pattern} {limits : Limits} {c : Compiled} {paging : Paging}

/-- The request for selected rows asks for the metrics, and for other columns that are not the
time attribute and have another type than time. -/
theorem mem_columns_request (h : p.compile limits = .ok c) (hpaging : c.paging = some paging)
    {name : String} :
    name ∈ (p.source.external.request c.query.toJson).columns ↔
      ∃ b ∈ p.source.external.columns, b.name = name ∧
        (b.unsplitable = true ∨ b.name ≠ p.source.external.timeAttribute ∧ b.kind ≠ .time) := by
  obtain ⟨r, hrows⟩ := compileRows_of_paging h hpaging
  obtain ⟨span, -, rfl⟩ := compileRows_eq_ok hrows
  rw [External.columns_request _ rfl, rowDimensions, rowMetrics, List.mem_append, List.mem_map,
    List.mem_map, ← exists_or]
  refine exists_congr fun b => ?_
  simp only [List.mem_filter, Bool.and_eq_true, Bool.not_eq_true', bne_iff_ne]
  cases b.unsplitable <;> tauto

/-- The column by which selected rows are sorted is known. -/
theorem attribute?_of_sort (h : p.compile limits = .ok c) (hpaging : c.paging = some paging)
    {key : SortKey} (hsort : p.sort = some key) :
    ∃ a ∈ p.source.external.columns, a.name = key.name := by
  obtain ⟨r, hrows⟩ := compileRows_of_paging h hpaging
  have hcheck := checkRowSort_of_compileRows hrows
  rw [checkRowSort, hsort] at hcheck
  simp only at hcheck
  split at hcheck
  · next a ha => exact ⟨a, List.mem_of_find?_eq_some ha, External.name_of_attribute? ha⟩
  · exact nomatch hcheck

end Pattern

/-! ### Stored rows -/

/-- The value of the time that an event gives; null if it cannot be read. -/
def Value.ofTimestamp (cell : Json) : Value := (answerTime? (some cell)).elim .null .time

/-- A row of a datasource. -/
structure StoredRow where
  /-- The time, as a backend writes it. -/
  time : Json
  /-- The native cell in a column, if the row has one. -/
  cell : String → Option Json

namespace StoredRow

/-- The value that a row really has in a column. -/
def value (timeAttribute : String) (r : StoredRow) (name : String) : Value :=
  if name = timeAttribute then .ofTimestamp r.time else (r.cell name).elim .null .ofCell

/-- Events tell the values of the time attribute, and of the columns that are asked for; but a column
called `timestamp` cannot be told from the time. -/
def IsTold (timeAttribute : String) (asked : List String) (name : String) : Prop :=
  name = timeAttribute ∨ name ∈ asked ∧ name ≠ "timestamp"

instance (timeAttribute : String) (asked : List String) (name : String) :
    Decidable (IsTold timeAttribute asked name) :=
  inferInstanceAs (Decidable (name = timeAttribute ∨ name ∈ asked ∧ name ≠ "timestamp"))

/-- What is fetched of a row: its time, and its cells in the columns that are asked for. -/
def row (timeAttribute : String) (asked : List String) (r : StoredRow) : Row :=
  Row.put
    (.ofCells ((asked.filter (· != "timestamp")).filterMap fun name =>
      ((r.cell name).map .ofCell).map (name, ·)))
    timeAttribute (.ofTimestamp r.time)

/-- An event delivers the time of a row and its cells in the columns that are asked for. -/
def IsEvent (asked : List String) (r : StoredRow) (event : Json) : Prop :=
  ∃ record, (event.get? "event").bind Json.fields? = some record ∧
    (record.map Prod.fst).Nodup ∧ record.lookup "timestamp" = some r.time ∧
    ∀ name, name ≠ "timestamp" → record.lookup name = if name ∈ asked then r.cell name else none

/-- Rows sorted by the values that they really have in a column; rows that are equal in it stay in
their order. -/
def sorted (timeAttribute : String) (key : SortKey) (rows : List StoredRow) : List StoredRow :=
  rows.mergeSort fun a b =>
    key.compare (a.value timeAttribute key.name) (b.value timeAttribute key.name) != .gt

variable {timeAttribute : String} {asked : List String} {key : SortKey}

theorem get?_row (r : StoredRow) (name : String) :
    (r.row timeAttribute asked).get? name =
      if name = timeAttribute then some (.ofTimestamp r.time)
      else if name ∈ asked ∧ name ≠ "timestamp" then (r.cell name).map .ofCell else none := by
  rw [row, Row.get?_put_eq, Row.ofCells, Row.get?_extend_filterMap fun n => (r.cell n).map .ofCell]
  refine if_congr Iff.rfl rfl (if_congr ?_ (Option.or_none) rfl)
  rw [List.mem_filter, bne_iff_ne]

/-- What is fetched of a row has the value in a column that events tell; a missing cell counts as
null. -/
theorem getD_get?_row {name : String} (h : IsTold timeAttribute asked name) (r : StoredRow) :
    ((r.row timeAttribute asked).get? name).getD .null = r.value timeAttribute name := by
  rw [get?_row, value]
  by_cases hname : name = timeAttribute
  · rw [if_pos hname, if_pos hname]
    rfl
  · rw [if_neg hname, if_neg hname, if_pos (h.resolve_left hname)]
    cases r.cell name <;> rfl

/-- What is fetched of a row has no cell in a column that events do not tell. -/
theorem get?_row_of_not {name : String} (h : ¬IsTold timeAttribute asked name) (r : StoredRow) :
    (r.row timeAttribute asked).get? name = none := by
  obtain ⟨htime, hasked⟩ := not_or.1 h
  rw [get?_row, if_neg htime, if_neg hasked]

/-- Sorting what is fetched of rows by a column that events tell is sorting the rows. -/
theorem sortBy_map_row (h : IsTold timeAttribute asked key.name) (rows : List StoredRow) :
    Dataset.sortBy key (rows.map (row timeAttribute asked)) =
      (sorted timeAttribute key rows).map (row timeAttribute asked) :=
  Dataset.sortBy_map fun r _ => getD_get?_row h r

/-- Sorting what is fetched of rows by a column that events do not tell changes nothing. -/
theorem sortBy_map_row_of_not (h : ¬IsTold timeAttribute asked key.name) (rows : List StoredRow) :
    Dataset.sortBy key (rows.map (row timeAttribute asked)) = rows.map (row timeAttribute asked) := by
  have hnull (r : StoredRow) : ((r.row timeAttribute asked).get? key.name).getD .null = .null := by
    rw [get?_row_of_not h, Option.getD_none]
  rw [Dataset.sortBy_map fun r _ => hnull r]
  refine congrArg _ (List.mergeSort_of_pairwise (List.pairwise_of_forall fun _ _ => ?_))
  rw [SortKey.compare]
  cases key.direction <;> rfl

theorem sorted_pair (a b : StoredRow) :
    sorted timeAttribute key [a, b] =
      if key.compare (a.value timeAttribute key.name) (b.value timeAttribute key.name) = .gt then
        [b, a]
      else [a, b] := by
  unfold sorted
  split
  · next h => simp [List.mergeSort, List.MergeSort.Internal.splitInTwo, h]
  · next h => exact List.mergeSort_of_pairwise (List.pairwise_pair.2 (bne_iff_ne.2 h))

/-- Sorted rows are in order, if the values in the column are comparable. -/
theorem pairwise_sorted {rows : List StoredRow}
    (h : ∀ r ∈ rows, (r.value timeAttribute key.name).IsComparable) :
    (sorted timeAttribute key rows).Pairwise fun a b =>
      key.compare (a.value timeAttribute key.name) (b.value timeAttribute key.name) ≠ .gt := by
  let cell (r : StoredRow) : Row := [(key.name, r.value timeAttribute key.name)]
  have hcell (r : StoredRow) : ((cell r).get? key.name).getD .null =
      r.value timeAttribute key.name := by
    rw [Row.get?_cons, if_pos rfl]
    rfl
  have hrows : ∀ row ∈ rows.map cell, ((Row.get? row key.name).getD .null).IsComparable := by
    simpa only [List.forall_mem_map, hcell] using h
  have hsorted := Dataset.pairwise_sortBy fun row hrow => (hrows row hrow).hasPlace
  rw [Dataset.sortBy_map fun r _ => hcell r, List.pairwise_map] at hsorted
  refine hsorted.imp fun {a b} hab => ?_
  rwa [← hcell a, ← hcell b]

end StoredRow

/-! ### Events -/

namespace Page

/-- The cell that a field of an event becomes. -/
def eventCell (timeAttribute : String) (field : String × Json) : String × Value :=
  if field.1 = "timestamp" then (timeAttribute, .ofTimestamp field.2) else (field.1, .ofCell field.2)

variable {timeAttribute : String} {record : Json.Fields}

theorem rowOf_eq {event : Json} (h : (event.get? "event").bind Json.fields? = some record) :
    rowOf timeAttribute event = .ok (Row.ofCells (record.map (eventCell timeAttribute))) := by
  rw [rowOf, h, Row.ofCells, Row.extend, List.foldl_map]
  refine congrArg (fun step => Except.ok (record.foldl step [])) (funext₂ fun row field => ?_)
  obtain ⟨column, cell⟩ := field
  simp only [eventCell, Value.ofTimestamp]
  split
  · cases answerTime? (some cell) <;> rfl
  · rfl

/-- The cells of an event have different names if its fields do and none is called like the time
attribute, unless this is what the time is called. -/
theorem nodup_map_eventCell (h : timeAttribute = "timestamp" ∨ timeAttribute ∉ record.map Prod.fst)
    (hrecord : (record.map Prod.fst).Nodup) :
    ((record.map (eventCell timeAttribute)).map Prod.fst).Nodup := by
  have hnames : (record.map (eventCell timeAttribute)).map Prod.fst =
      (record.map Prod.fst).map fun name => if name = "timestamp" then timeAttribute else name := by
    rw [List.map_map, List.map_map]
    refine List.map_congr_left fun field _ => ?_
    simp only [Function.comp_apply, eventCell]
    split <;> rfl
  rw [hnames]
  refine List.Nodup.map_on (fun n hn m hm heq => ?_) hrecord
  split at heq <;> split at heq <;> simp_all

theorem lookup_map_eventCell
    (h : timeAttribute = "timestamp" ∨ timeAttribute ∉ record.map Prod.fst) (name : String) :
    (record.map (eventCell timeAttribute)).lookup name =
      if name = timeAttribute then (record.lookup "timestamp").map .ofTimestamp
      else if name = "timestamp" then none else (record.lookup name).map .ofCell := by
  induction record with
  | nil => simp
  | cons field record ih =>
    obtain ⟨column, cell⟩ := field
    rw [List.map_cons, List.mem_cons, not_or] at h
    have ih := ih (h.imp_right And.right)
    simp only [List.map_cons, eventCell]
    by_cases hcolumn : column = "timestamp"
    · rw [if_pos hcolumn, List.lookup_cons_ite, List.lookup_cons_ite, List.lookup_cons_ite, ih]
      split <;> simp_all
    · have htime : column ≠ timeAttribute := by
        rintro rfl
        exact h.elim hcolumn fun hne => hne.1 rfl
      rw [if_neg hcolumn, List.lookup_cons_ite, List.lookup_cons_ite, List.lookup_cons_ite, ih,
        if_neg (Ne.symm hcolumn)]
      split <;> simp_all

end Page

/-- **Events.** What an event delivers of a row is what is fetched of it, unless the time attribute
is asked for as a column of its own. -/
theorem StoredRow.IsEvent.rowOf {timeAttribute : String} {asked : List String} {r : StoredRow}
    {event : Json} (h : r.IsEvent asked event) (hasked : timeAttribute ∉ asked) :
    Page.rowOf timeAttribute event = .ok (r.row timeAttribute asked) := by
  obtain ⟨record, hevent, hnodup, htime, hcells⟩ := h
  have hfree : timeAttribute = "timestamp" ∨ timeAttribute ∉ record.map Prod.fst := by
    by_cases hname : timeAttribute = "timestamp"
    · exact .inl hname
    · exact .inr (List.lookup_eq_none_iff_notMem.1 ((hcells _ hname).trans (if_neg hasked)))
  rw [Page.rowOf_eq hevent]
  refine congrArg Except.ok ((Row.isSorted_ofCells _).ext ((Row.isSorted_ofCells _).put _ _) ?_)
  intro name
  refine Eq.trans ?_ (r.get?_row name).symm
  rw [Row.ofCells, Row.get?_extend (Page.nodup_map_eventCell hfree hnodup),
    Page.lookup_map_eventCell hfree, htime]
  refine (Option.or_none).trans (if_congr Iff.rfl rfl ?_)
  by_cases hname : name = "timestamp"
  · rw [if_pos hname, if_neg fun h => h.2 hname]
  · rw [if_neg hname, hcells name hname]
    by_cases hmem : name ∈ asked
    · rw [if_pos hmem, if_pos ⟨hmem, hname⟩]
    · rw [if_neg hmem, if_neg fun h => hmem h.1]
      rfl

/-! ### Backends -/

/-- A backend that serves the rows of a datasource, with the columns that are asked for. -/
def ServesRows {σ : Type} (answer : σ → Request → Reply × σ) (asked : List String)
    (rows : List StoredRow) : Prop :=
  ∃ events position, ServesPages answer events position ∧
    List.Forall₂ (StoredRow.IsEvent asked) rows events

namespace Compiled

variable {σ : Type} {answer : σ → Request → Reply × σ} {p : Pattern} {config : Config} {c : Compiled}
  {paging : Paging} {key : SortKey}

/-- A selection with a sort fetches all rows, sorts them, and then applies the limit. -/
theorem finished_sorted (hcompile : p.compile config.limits = .ok c)
    (hpaging : c.paging = some paging) (hsort : p.sort = some key) {asked : List String}
    {rows : List StoredRow} (hserves : ServesRows answer asked rows)
    (hasked : p.source.external.timeAttribute ∉ asked) (hmax : rows.length ≤ config.maxRows)
    (scope : Scope) (s : σ) :
    ((c.finished config p.source.external scope).run answer s).1 =
      .ok (Dataset.arrange (some key) p.limit
        (rows.map (StoredRow.row p.source.external.timeAttribute asked))) := by
  obtain ⟨events, position, hserves, hevents⟩ := hserves
  have hpage := Pattern.eq_paging hcompile hpaging
  have htime : paging.timeAttribute = p.source.external.timeAttribute := by rw [hpage]; rfl
  have hall : paging.limit = none := by simp [hpage, Pattern.paging, hsort]
  have hrows : List.Forall₂ (fun event row => Page.rowOf paging.timeAttribute event = .ok row)
      events (rows.map (StoredRow.row p.source.external.timeAttribute asked)) := by
    rw [List.forall₂_map_right_iff, htime]
    exact hevents.flip.imp fun event r hevent => StoredRow.IsEvent.rowOf hevent hasked
  have hfetch := fetch_run hcompile hpaging hserves hrows s
  rw [Paging.reached, Paging.kept, hall, List.length_map] at hfetch
  rw [if_neg (Nat.not_lt.2 hmax)] at hfetch
  refine (run_finished scope (Prod.ext hfetch rfl)).trans ?_
  rw [List.length_map, if_neg (Nat.not_lt.2 hmax), apply_of_paging hcompile hpaging, hsort]
  rfl

end Compiled

/-- Whether sorts of selected rows find the values of a column: the time attribute is the time of
an event, and of the other columns those are asked for that are metrics or have another type than
time; but a column called `timestamp` cannot be told from the time. -/
def Attribute.isFetched (timeAttribute : String) (a : Attribute) : Bool :=
  a.name == timeAttribute || a.name != "timestamp" && (a.unsplitable || a.kind != .time)

namespace Sample

/-- The edits with the time at which their pages were created. -/
def createdEdits : External :=
  { edits with
    attributes := some
      [.plain "time" .time "__time", .plain "page" .string "STRING",
        .plain "created" .time "STRING"] }

/-- The pattern of the edit whose page is the last one. -/
def lastEdit : Pattern := ⟨.ofExternal edits, "edits", none, [], some ⟨"page", .descending⟩, some 1⟩

/-- The pattern of the edit whose page is the oldest one. -/
def oldestPage : Pattern :=
  ⟨.ofExternal createdEdits, "edits", none, [], some ⟨"created", .ascending⟩, some 1⟩

/-- An edit of a page that was created in the given year. -/
def storedEdit (page year : String) : StoredRow :=
  ⟨.string "2015-08-26T00:00:00Z",
    fun name => [("page", Json.string page), ("created", .string year)].lookup name⟩

/-- Two edits. -/
def lionAndZebra : List StoredRow := [storedEdit "Lion" "2014", storedEdit "Zebra" "2012"]

/-- The event that delivers an edit of a page, if the page is asked for, but not its age. -/
def storedEvent (page : String) : Json :=
  .object [("event", .object
    [("timestamp", .string "2015-08-26T00:00:00Z"), ("page", .string page)])]

theorem isEvent_storedEvent {asked : List String} (hpage : "page" ∈ asked)
    (hcreated : "created" ∉ asked) (page year : String) :
    (storedEdit page year).IsEvent asked (storedEvent page) := by
  have hnodup : ["timestamp", "page"].Nodup := by decide
  refine ⟨_, rfl, hnodup, rfl, fun name hname => ?_⟩
  simp only [storedEdit, List.lookup_cons_ite, List.lookup_nil, if_neg hname]
  by_cases hnamePage : name = "page"
  · rw [if_pos hnamePage, if_pos (hnamePage ▸ hpage), if_pos hnamePage]
  · by_cases hnameCreated : name = "created"
    · rw [if_neg hnamePage, if_neg (hnameCreated ▸ hcreated)]
    · rw [if_neg hnamePage, if_neg hnamePage, if_neg hnameCreated, ite_self]

theorem servesRows_lionAndZebra {asked : List String} (hpage : "page" ∈ asked)
    (hcreated : "created" ∉ asked) :
    ServesRows (serve [storedEvent "Lion", storedEvent "Zebra"]) asked lionAndZebra :=
  ⟨_, position, serve_servesPages (by decide),
    .cons (isEvent_storedEvent hpage hcreated ..)
      (.cons (isEvent_storedEvent hpage hcreated ..) .nil)⟩

end Sample

/-- **Sorts of selected rows.** The column by which selected rows are sorted is known. It is the
time attribute, or asked for, if and only if it is the time attribute, or a metric, or has another
type than time. Against a backend that serves the rows of a datasource with the columns that are
asked for, what comes of the selection are the first rows after they are sorted by the values that
they really have, if these are fetched; else they are the first rows in the order in which the
backend serves them. -/
theorem Pattern.sorts_by_fetched {p : Pattern} {config : Config} {c : Compiled} {paging : Paging}
    {key : SortKey} (hcompile : p.compile config.limits = .ok c) (hpaging : c.paging = some paging)
    (hsort : p.sort = some key) (hnames : (p.source.external.columns.map Attribute.name).Nodup) :
    ∃ a ∈ p.source.external.columns, a.name = key.name ∧
      (a.name = p.source.external.timeAttribute ∨
          a.name ∈ (p.source.external.request c.query.toJson).columns ↔
        a.name = p.source.external.timeAttribute ∨ a.unsplitable = true ∨ a.kind ≠ .time) ∧
      ((∀ b ∈ p.source.external.columns,
          b.name = p.source.external.timeAttribute → b.unsplitable = false) →
        ∀ {σ : Type} (answer : σ → Request → Reply × σ) (rows : List StoredRow),
          ServesRows answer (p.source.external.request c.query.toJson).columns rows →
          rows.length ≤ config.maxRows → ∀ (scope : Scope) (s : σ),
            ((c.finished config p.source.external scope).run answer s).1 =
              .ok (Dataset.arrange none p.limit
                ((if a.isFetched p.source.external.timeAttribute then
                    StoredRow.sorted p.source.external.timeAttribute key rows
                  else rows).map
                  (StoredRow.row p.source.external.timeAttribute
                    (p.source.external.request c.query.toJson).columns)))) := by
  obtain ⟨a, ha, hname⟩ := attribute?_of_sort hcompile hpaging hsort
  have hasked : a.name ∈ (p.source.external.request c.query.toJson).columns ↔
      a.unsplitable = true ∨ a.name ≠ p.source.external.timeAttribute ∧ a.kind ≠ .time := by
    rw [mem_columns_request hcompile hpaging]
    refine ⟨?_, fun h => ⟨a, ha, rfl, h⟩⟩
    rintro ⟨b, hb, hba, h⟩
    rwa [← List.inj_on_of_nodup_map hnames hb ha hba]
  refine ⟨a, ha, hname, by rw [hasked]; tauto, fun htime σ answer rows hserves hmax scope s => ?_⟩
  have htimeAsked : p.source.external.timeAttribute ∉
      (p.source.external.request c.query.toJson).columns := by
    rw [mem_columns_request hcompile hpaging]
    rintro ⟨b, hb, hbtime, hmetric | hother⟩
    · exact Bool.false_ne_true ((htime b hb hbtime).symm.trans hmetric)
    · exact hother.1 hbtime
  have hfetched : a.isFetched p.source.external.timeAttribute = true ↔
      StoredRow.IsTold p.source.external.timeAttribute
        (p.source.external.request c.query.toJson).columns key.name := by
    rw [StoredRow.IsTold, ← hname, hasked]
    simp only [Attribute.isFetched, Bool.or_eq_true, Bool.and_eq_true, beq_iff_eq, bne_iff_ne]
    tauto
  rw [Compiled.finished_sorted hcompile hpaging hsort hserves htimeAsked hmax]
  refine congrArg Except.ok ?_
  change p.limit.elim (Dataset.sortBy key _) (Dataset.sortBy key _).take = _
  split
  · next h => rw [StoredRow.sortBy_map_row (hfetched.1 h)]; rfl
  · next h => rw [StoredRow.sortBy_map_row_of_not (mt hfetched.2 h)]; rfl

open Sample in
/-- The edit of the last page is that of the zebra. -/
theorem Pattern.sorts_by_fetched_lastEdit :
    ∃ c paging, lastEdit.compile smallPages.limits = .ok c ∧ c.paging = some paging ∧
      lastEdit.sort = some ⟨"page", .descending⟩ ∧
      (edits.columns.map Attribute.name).Nodup ∧
      (edits.request c.query.toJson).columns = ["page", "language", "added"] ∧
      ((c.finished smallPages edits []).run
          (serve [storedEvent "Lion", storedEvent "Zebra"]) ()).1 =
        .ok [(storedEdit "Zebra" "2012").row "time" ["page", "language", "added"]] := by
  refine ⟨_, _, rfl, rfl, rfl, by decide, rfl, ?_⟩
  have hcompile : lastEdit.compile smallPages.limits = .ok _ := rfl
  obtain ⟨a, ha, hname, -, hruns⟩ := sorts_by_fetched hcompile rfl rfl (by decide)
  have hfetched : ∀ a ∈ lastEdit.source.external.columns, a.name = "page" →
      a.isFetched lastEdit.source.external.timeAttribute = true := by decide
  have hserves : ServesRows (serve [storedEvent "Lion", storedEvent "Zebra"])
      ["page", "language", "added"] lionAndZebra :=
    servesRows_lionAndZebra (by decide) (by decide)
  refine (hruns (by decide) _ lionAndZebra hserves (by decide) [] ()).trans ?_
  rw [if_pos (hfetched a ha hname), lionAndZebra, StoredRow.sorted_pair, if_pos (by decide)]
  rfl

open Sample in
/-- The edit of the oldest page is that of the zebra, but that of the lion is found. -/
theorem Pattern.sorts_by_nothing :
    ∃ c paging, oldestPage.compile smallPages.limits = .ok c ∧ c.paging = some paging ∧
      oldestPage.sort = some ⟨"created", .ascending⟩ ∧
      (createdEdits.columns.map Attribute.name).Nodup ∧
      (createdEdits.request c.query.toJson).columns = ["page"] ∧
      ServesRows (serve [storedEvent "Lion", storedEvent "Zebra"]) ["page"] lionAndZebra ∧
      StoredRow.sorted "time" ⟨"created", .ascending⟩ lionAndZebra =
        [storedEdit "Zebra" "2012", storedEdit "Lion" "2014"] ∧
      ((c.finished smallPages createdEdits []).run
          (serve [storedEvent "Lion", storedEvent "Zebra"]) ()).1 =
        .ok [(storedEdit "Lion" "2014").row "time" ["page"]] := by
  have hcompile : oldestPage.compile smallPages.limits = .ok _ := rfl
  have hserves : ServesRows (serve [storedEvent "Lion", storedEvent "Zebra"]) ["page"]
      lionAndZebra := servesRows_lionAndZebra (by decide) (by decide)
  refine ⟨_, _, rfl, rfl, rfl, by decide, rfl, hserves, ?_, ?_⟩
  · rw [lionAndZebra, StoredRow.sorted_pair, if_pos (by decide)]
  · refine (Compiled.finished_sorted hcompile rfl rfl hserves (by decide) (by decide) [] ()).trans ?_
    change Except.ok ((Dataset.sortBy _ _).take 1) = _
    rw [StoredRow.sortBy_map_row_of_not (by decide)]
    rfl

end FederatedQuery
