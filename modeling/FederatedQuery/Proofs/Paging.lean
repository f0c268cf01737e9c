import FederatedQuery.Execution.Pattern
import FederatedQuery.Proofs.Compilation
import FederatedQuery.Proofs.Sample

/-!
# Pages of rows

A backend that holds a list of events serves it in pages. Paging identifiers name positions in
the list; a page that is asked for at a position brings the events from there on, no more than
its size, and identifiers that belong to its end. By the newer protocol they name the event
after the page. By the older one they are the offsets of its last event in a number of segments,
and the offsets after them name the event after the page.

Against such a backend every event is read once, in order, and the number of requests is known.
The invariant of the reading is that the rows so far are those before the position that the
identifiers name.

## Main definitions

* `Offsets`: the paging identifiers of an event.
* `Request.page?`: the page that a request asks for.
* `ServesPages`: the backends that serve a list of events.
* `Paging.wholePages`: the number of rows on as many full pages as some rows take.
* `Paging.reached`: how many rows are read from a position on.
* `Exchange.counting`: a backend that counts its requests.

## Main results

* `Page.ofItems_eq`: what a page consists of.
* `Compiled.readPages_run`: the rows and the requests from a position on.
* `Compiled.fetch_run`: the rows that a selection fetches.
-/

namespace FederatedQuery

/-! ### Offsets -/

/-- Offsets in segments, by the names of the segments. -/
abbrev Offsets := List (String × Nat)

namespace Offsets

/-- The form of offsets in documents. -/
def toJson (o : Offsets) : Json.Fields := o.map fun (segment, n) => (segment, .int n)

/-- The offsets after the given ones. -/
def next (o : Offsets) : Offsets := o.map fun (segment, n) => (segment, n + 1)

/-- Offsets and the ones after them are words with a sign. -/
def Fits (o : Offsets) : Prop := ∀ entry ∈ o, entry.2 + 1 < Word.half

end Offsets

/-- An offset advances by one. -/
theorem Paging.nextOffset?_int {n : Nat} (h : n + 1 < Word.half) :
    nextOffset? (.int n) = some (.int (n + 1 : Nat)) := by
  have hsigned {m : Nat} (hm : m < Word.half) : Word.isSigned m = true := by
    rw [Word.isSigned, Bool.and_eq_true, decide_eq_true_eq, decide_eq_true_eq]
    omega
  rw [nextOffset?, hsigned (Nat.lt_of_succ_lt h)]
  exact (if_neg Bool.false_ne_true).trans (if_pos (hsigned h))

theorem Paging.advance?_cons (segment : String) (offset : Json) (identifiers : Json.Fields) :
    advance? ((segment, offset) :: identifiers) =
      (nextOffset? offset).bind fun next =>
        (advance? identifiers).map fun rest => (segment, next) :: rest := by
  simp only [advance?, List.mapM_cons]
  cases nextOffset? offset with
  | none => rfl
  | some next => exact (Option.map_eq_bind ..).symm

/-- Advancing the identifiers of an event gives the offsets after it. -/
theorem Paging.advance?_toJson {o : Offsets} (h : o.Fits) :
    advance? o.toJson = some o.next.toJson := by
  induction o with
  | nil => rfl
  | cons entry o ih =>
    obtain ⟨hentry, ho⟩ := List.forall_mem_cons.1 h
    have hrest := ih ho
    rw [Offsets.toJson] at hrest
    rw [Offsets.toJson, List.map_cons, advance?_cons, nextOffset?_int hentry, hrest]
    rfl

/-! ### Requests for pages -/

/-- A page that is asked for. -/
structure AskedPage where
  /-- The identifiers that name its first event. -/
  identifiers : Json.Fields
  /-- The number of events on a full page. -/
  size : Nat
  /-- Whether identifiers shall name the event after a page, and not its last one. -/
  fromNext : Bool

/-- The page that a request asks for, if it asks for one. -/
def Request.page? (r : Request) : Option AskedPage := do
  let spec ← r.query.get? "pagingSpec"
  let identifiers ← (spec.get? "pagingIdentifiers").bind Json.fields?
  let size ← (spec.get? "threshold").bind Json.int?
  some ⟨identifiers, size.toNat, ((spec.get? "fromNext").bind Json.bool?).getD false⟩

/-- The request with which a selection asks for a page. -/
theorem External.page?_request (x : External) {q : Native.Query} {dimensions metrics : List String}
    {size : Nat} {fromNext : Bool} {initial : Json.Fields}
    (h : q.shape = .select dimensions metrics size fromNext initial) (identifiers : Json.Fields) :
    (x.request (q.atPage identifiers).toJson).page? = some ⟨identifiers, size, fromNext⟩ := by
  rw [Request.page?, x.get?_request _ (by decide), Native.Query.get?_toJson _ (by decide),
    Native.Query.atPage, h]
  cases fromNext <;> rfl

/-! ### Backends -/

namespace Page

/-- The identifiers after one more item; its own take the place of earlier ones. -/
def putIdentifiers (identifiers : Json.Fields) (item : Json) : Json.Fields :=
  identifiers.putAll
    (((item.get? "result").bind fun result =>
      (result.get? "pagingIdentifiers").bind Json.fields?).getD [])

/-- The identifiers that items bring. -/
def identifiersOf (items : List Json) : Json.Fields := items.foldl putIdentifiers []

/-- The events that an item brings. -/
def itemEvents (item : Json) : List Json :=
  ((item.get? "result").bind fun result => (result.get? "events").bind Json.items?).getD []

/-- The events that items bring. -/
def eventsOf (items : List Json) : List Json := items.flatMap itemEvents

/-- One more item adds its identifiers and its rows to a page. -/
theorem addItem_eq {timeAttribute : String} (page : Page) {item : Json} {rows : List Row}
    (hresult : (item.get? "result").isSome)
    (hrows : (itemEvents item).mapM (rowOf timeAttribute) = .ok rows) :
    page.addItem timeAttribute item =
      .ok ⟨putIdentifiers page.identifiers item, page.rows ++ rows⟩ := by
  obtain ⟨result, hresult⟩ := Option.isSome_iff_exists.1 hresult
  rw [itemEvents, hresult, Option.bind_some] at hrows
  rw [addItem, putIdentifiers, hresult, Option.bind_some]
  exact Except.bind_eq_ok.2 ⟨rows, hrows, rfl⟩

theorem foldlM_addItem {timeAttribute : String} :
    (items : List Json) → (page : Page) → {rows : List Row} →
    (∀ item ∈ items, (item.get? "result").isSome) →
    (eventsOf items).mapM (rowOf timeAttribute) = .ok rows →
    items.foldlM (addItem timeAttribute) page =
      .ok ⟨items.foldl putIdentifiers page.identifiers, page.rows ++ rows⟩
  | [], page, rows, _, hrows => by
      obtain rfl : [] = rows := Except.ok.inj hrows
      rw [List.append_nil]
      rfl
  | item :: items, page, rows, hresult, hrows => by
      rw [eventsOf, List.flatMap_cons, List.mapM_append] at hrows
      obtain ⟨first, hfirst, hrows⟩ := Except.bind_eq_ok.1 hrows
      obtain ⟨rest, hrest, ⟨⟩⟩ := Except.bind_eq_ok.1 hrows
      have hitem := addItem_eq page (hresult _ List.mem_cons_self) hfirst
      have hitems := foldlM_addItem items ⟨putIdentifiers page.identifiers item, page.rows ++ first⟩
        (fun item hmem => hresult item (List.mem_cons_of_mem _ hmem)) hrest
      rw [List.foldlM_cons, hitem, List.foldl_cons, ← List.append_assoc]
      exact hitems

/-- **The content of a page.** Items with results make up the page of their identifiers and of
the rows in their events. -/
theorem ofItems_eq {timeAttribute : String} {items : List Json} {rows : List Row}
    (hresult : ∀ item ∈ items, (item.get? "result").isSome)
    (hrows : (eventsOf items).mapM (rowOf timeAttribute) = .ok rows) :
    ofItems timeAttribute items = .ok ⟨identifiersOf items, rows⟩ :=
  foldlM_addItem items ⟨[], []⟩ hresult hrows

end Page

/-- A backend that serves a list of events in pages. A page that starts at a named position has
the events from there on, and its identifiers, if there are events on it, name the position
after them: as they are, or else after one step. -/
structure ServesPages {σ : Type} (answer : σ → Request → Reply × σ) (events : List Json)
    (position : Json.Fields → Option Nat) : Prop where
  position_nil : position [] = some 0
  /-- Identifiers that are equal as documents name the same position. -/
  position_congr : ∀ a b, (Json.object a == Json.object b) = true → position a = position b
  serves : ∀ s r asked start, r.page? = some asked → position asked.identifiers = some start →
    ∃ items, (answer s r).1.items = .ok items ∧
      (∀ item ∈ items, (item.get? "result").isSome) ∧
      Page.eventsOf items = (events.drop start).take asked.size ∧
      (Page.eventsOf items ≠ [] →
        if asked.fromNext then
          position (Page.identifiersOf items) = some (min (start + asked.size) events.length)
        else
          ∃ last : Offsets, Page.identifiersOf items = last.toJson ∧ last.Fits ∧
            position last.next.toJson = some (min (start + asked.size) events.length))

/-- The identifiers with which a selection goes on name the position after the page. -/
theorem Paging.position_nextIdentifiers? {p : Paging} {returned : Json.Fields}
    {position : Json.Fields → Option Nat} {stop : Nat}
    (h : if p.fromNext then position returned = some stop
      else ∃ last : Offsets, returned = last.toJson ∧ last.Fits ∧
        position last.next.toJson = some stop) :
    ∃ next, p.nextIdentifiers? returned = some next ∧ position next = some stop := by
  unfold nextIdentifiers?
  split at h
  · next hnext => exact ⟨returned, if_pos hnext, h⟩
  · next hnext =>
    obtain ⟨last, rfl, hfits, hstop⟩ := h
    exact ⟨last.next.toJson, (if_neg hnext).trans (advance?_toJson hfits), hstop⟩

/-! ### Numbers of rows -/

namespace Paging

/-- The number of rows on as many full pages as the given number of rows takes, but on one page at
least. -/
def wholePages (p : Paging) (n : Nat) : Nat := ((n - 1) / p.threshold + 1) * p.threshold

theorem threshold_le_wholePages (p : Paging) (n : Nat) : p.threshold ≤ p.wholePages n :=
  Nat.le_mul_of_pos_left _ (Nat.succ_pos _)

/-- The pages have room for the rows. -/
theorem le_wholePages (p : Paging) (n : Nat) : n ≤ p.wholePages n := by
  have h := Nat.lt_mul_div_succ (n - 1) p.threshold_pos
  rw [wholePages, Nat.mul_comm]
  omega

/-- Rows that fit on a page take one. -/
theorem wholePages_of_le {p : Paging} {n : Nat} (h : n ≤ p.threshold) :
    p.wholePages n = p.threshold := by
  have := p.threshold_pos
  rw [wholePages, Nat.div_eq_of_lt (by omega), Nat.zero_add, Nat.one_mul]

/-- Rows that do not fit on a page take one and as many as the rest takes. -/
theorem wholePages_of_lt {p : Paging} {n : Nat} (h : p.threshold < n) :
    p.wholePages n = p.threshold + p.wholePages (n - p.threshold) := by
  have hpos := p.threshold_pos
  have hpages : (n - 1) / p.threshold = (n - p.threshold - 1) / p.threshold + 1 := by
    rw [Nat.div_eq_sub_div hpos (by omega), Nat.sub_right_comm]
  rw [wholePages, wholePages, hpages, Nat.succ_mul, Nat.add_comm]

/-- The number of rows that are read, of the given number, if those before a position have been
read: all of them, or else those on full pages up to the limit. -/
def reached (p : Paging) (start total : Nat) : Nat :=
  match p.limit with
  | some limit => min (start + p.wholePages (limit - start)) total
  | none => total

theorem reached_le (p : Paging) (start total : Nat) : p.reached start total ≤ total := by
  unfold reached
  split
  · exact Nat.min_le_right _ _
  · exact Nat.le_refl total

/-- At least one more page is read. -/
theorem le_reached (p : Paging) (start total : Nat) :
    min (start + p.threshold) total ≤ p.reached start total := by
  unfold reached
  split
  · next limit _ =>
    have := p.threshold_le_wholePages (limit - start)
    omega
  · exact Nat.min_le_right _ _

/-- A limit that is reached on a page is reached with it. -/
theorem reached_of_reached {p : Paging} {start total : Nat}
    (h : p.limit.any (· ≤ start + p.threshold) = true) :
    p.reached start total = min (start + p.threshold) total := by
  obtain ⟨limit, hlimit, hle⟩ := (Option.any_eq_true _ _).1 h
  rw [decide_eq_true_eq] at hle
  rw [reached, hlimit]
  simp only
  rw [wholePages_of_le (by omega)]

/-- A limit that is not reached on a page is reached after it. -/
theorem reached_of_not_reached {p : Paging} {start total : Nat}
    (h : ¬p.limit.any (· ≤ start + p.threshold) = true) :
    p.reached start total = p.reached (start + p.threshold) total := by
  rw [reached, reached]
  cases hlimit : p.limit with
  | none => rfl
  | some limit =>
    rw [hlimit, Option.any_some, decide_eq_true_eq] at h
    simp only
    rw [wholePages_of_lt (by omega : p.threshold < limit - start), Nat.sub_add_eq, Nat.add_assoc]

end Paging

/-! ### Reading all pages -/

/-- A backend that counts the requests. -/
def Exchange.counting {σ : Type} (answer : σ → Request → Reply × σ) :
    σ × Nat → Request → Reply × (σ × Nat) :=
  fun (s, count) r => ((answer s r).1, ((answer s r).2, count + 1))

/-- Counting does not change what comes of an exchange. -/
theorem Exchange.run_counting {σ ε α : Type} (answer : σ → Request → Reply × σ) (x : Exchange ε α)
    (s : σ) (count : Nat) : (x.run (counting answer) (s, count)).1 = (x.run answer s).1 := by
  induction x generalizing s count with
  | done => rfl
  | fail => rfl
  | ask request next ih => exact ih _ _ _
  | look next ih => exact ih false s count

/-- The rows that a selection keeps. -/
def Paging.kept (p : Paging) (rows : List Row) : List Row :=
  match p.limit with
  | some limit => rows.take limit
  | none => rows

theorem Paging.kept_subset (p : Paging) (rows : List Row) : p.kept rows ⊆ rows := by
  unfold kept
  split
  · exact List.take_subset _ rows
  · exact List.Subset.refl rows

theorem Paging.length_kept_le (p : Paging) (rows : List Row) :
    (p.kept rows).length ≤ rows.length := by
  unfold kept
  split
  · exact List.length_take_le' _ rows
  · exact Nat.le_refl _

/-- A limit that is reached keeps the rows up to it. -/
theorem Paging.take_of_reached {p : Paging} {rows : List Row}
    (h : p.limit.any (· ≤ rows.length) = true) : rows.take (p.limit.getD 0) = p.kept rows := by
  obtain ⟨limit, hlimit, -⟩ := (Option.any_eq_true _ _).1 h
  rw [kept, hlimit, Option.getD_some]

/-- Rows beyond a limit that is reached do not matter. -/
theorem Paging.kept_take {p : Paging} {rows : List Row} {n : Nat}
    (h : p.limit.any (· ≤ (rows.take n).length) = true) : p.kept (rows.take n) = p.kept rows := by
  obtain ⟨limit, hlimit, hle⟩ := (Option.any_eq_true _ _).1 h
  have hle : limit ≤ n := Nat.le_trans (of_decide_eq_true hle) (List.length_take_le n rows)
  rw [kept, kept, hlimit]
  simp only [List.take_take, Nat.min_eq_left hle]

/-- A limit that is not reached keeps all rows. -/
theorem Paging.kept_of_not_reached {p : Paging} {rows : List Row}
    (h : ¬p.limit.any (· ≤ rows.length) = true) : p.kept rows = rows := by
  unfold kept
  split
  · next limit hlimit =>
    rw [hlimit, Option.any_some, decide_eq_true_eq, Nat.not_le] at h
    exact List.take_of_length_le (Nat.le_of_lt h)
  · rfl

namespace Compiled

variable {σ : Type} {answer : σ → Request → Reply × σ} {events : List Json}
  {position : Json.Fields → Option Nat}

/-- The page at a named position has the rows from there on, and if it is full, then the
identifiers with which the selection goes on name the position after it. -/
theorem page_of_position {c : Compiled} {p : Paging} {dimensions metrics : List String}
    {initial : Json.Fields} {rows : List Row}
    (hshape : c.query.shape = .select dimensions metrics p.threshold p.fromNext initial)
    (hserves : ServesPages answer events position)
    (hrows : List.Forall₂ (fun event row => Page.rowOf p.timeAttribute event = .ok row)
      events rows)
    (x : External) {identifiers : Json.Fields} {start : Nat}
    (hposition : position identifiers = some start) (s : σ) :
    ∃ items page, (answer s (x.request (c.query.atPage identifiers).toJson)).1.items = .ok items ∧
      Page.ofItems p.timeAttribute items = .ok page ∧
      page.rows = (rows.drop start).take p.threshold ∧
      (start + p.threshold ≤ rows.length →
        ∃ next, p.nextIdentifiers? page.identifiers = some next ∧
          position next = some (start + p.threshold)) := by
  obtain ⟨items, hitems, hresult, hevents, hnext⟩ :=
    hserves.serves s _ _ start (x.page?_request hshape identifiers) hposition
  have hpage := Except.mapM_eq_ok.2
    (List.forall₂_take p.threshold (List.forall₂_drop start hrows))
  refine ⟨items, _, hitems, Page.ofItems_eq hresult (hevents ▸ hpage), rfl, fun hfull => ?_⟩
  have hlength : events.length = rows.length := hrows.length_eq
  have hpos := p.threshold_pos
  rw [hlength, Nat.min_eq_left hfull] at hnext
  refine Paging.position_nextIdentifiers? (hnext fun hnil => ?_)
  have hzero : (Page.eventsOf items).length = 0 := congrArg List.length hnil
  rw [hevents, List.length_take, List.length_drop] at hzero
  change min p.threshold _ = 0 at hzero
  omega

/-- **Reading from a position.** If the rows so far are those before the position that the
identifiers name, then rows are read up to the limit, unless more are reached than may be read. All
rows are read without a limit; then there is a request for every full page that is left and one
more. -/
theorem readPages_run {c : Compiled} {p : Paging} {dimensions metrics : List String}
    {initial : Json.Fields} {rows : List Row}
    (hshape : c.query.shape = .select dimensions metrics p.threshold p.fromNext initial)
    (hserves : ServesPages answer events position)
    (hrows : List.Forall₂ (fun event row => Page.rowOf p.timeAttribute event = .ok row)
      events rows)
    (x : External) (maxRows : Nat) (identifiers : Json.Fields) (start : Nat)
    (hposition : position identifiers = some start) (s : σ) (count : Nat) :
    ∃ s' count', (c.readPages x maxRows p identifiers (rows.take start)).run
        (Exchange.counting answer) (s, count) =
          (if maxRows < p.reached start rows.length then .error (.resultTooLarge maxRows)
            else .ok (p.kept rows), (s', count')) ∧
      (p.limit = none → rows.length ≤ maxRows →
        count' = count + ((rows.length - start) / p.threshold + 1)) := by
  have hpos := p.threshold_pos
  obtain ⟨items, page, hitems, hpage, hrest, hnext⟩ :=
    page_of_position hshape hserves hrows x hposition s
  have hall : rows.take start ++ page.rows = rows.take (start + p.threshold) := by
    rw [hrest, List.take_add]
  have hlength : (rows.take (start + p.threshold)).length =
      min (start + p.threshold) rows.length := List.length_take
  have hleast := p.le_reached start rows.length
  have hmost := p.reached_le start rows.length
  rw [readPages]
  simp only [Exchange.run, Exchange.counting, Bool.false_eq_true, if_false, hitems, hpage, hall]
  split
  · next hlarge =>
    rw [if_pos (by omega)]
    exact ⟨_, _, rfl, fun _ hmax => by omega⟩
  · next hfits =>
    split
    · next hlimit =>
      have hread : p.limit.any (· ≤ start + p.threshold) = true := by
        obtain ⟨limit, hsome, hle⟩ := (Option.any_eq_true _ _).1 hlimit
        rw [decide_eq_true_eq, hlength] at hle
        rw [hsome, Option.any_some, decide_eq_true_eq]
        omega
      rw [Paging.take_of_reached hlimit, Paging.kept_take hlimit, Paging.reached_of_reached hread,
        if_neg (by omega)]
      refine ⟨_, _, rfl, fun hnone => ?_⟩
      rw [hnone] at hlimit
      cases hlimit
    · next hlimit =>
      split
      · next hshort =>
        rw [hrest, List.length_take, List.length_drop] at hshort
        have hlast : (rows.length - start) / p.threshold = 0 := Nat.div_eq_of_lt (by omega)
        rw [List.take_of_length_le (by omega)] at hlimit ⊢
        rw [Paging.kept_of_not_reached hlimit, hlast, if_neg (by omega)]
        exact ⟨_, _, rfl, fun _ _ => rfl⟩
      · next hfull =>
        rw [hrest, List.length_take, List.length_drop] at hfull
        have hfull : start + p.threshold ≤ rows.length := by omega
        obtain ⟨next, hidentifiers, hstop⟩ := hnext hfull
        have hchanged : ¬(Json.object next == Json.object identifiers) = true := by
          intro hsame
          have hposition' := hserves.position_congr _ _ hsame
          rw [hstop, hposition] at hposition'
          have := Option.some.inj hposition'
          omega
        simp only [hidentifiers]
        rw [if_neg hchanged]
        rw [hlength, Nat.min_eq_left hfull] at hlimit
        rw [Paging.reached_of_not_reached hlimit]
        obtain ⟨s', count', hrun, hcount⟩ := readPages_run hshape hserves hrows x maxRows
          next (start + p.threshold) hstop
          (answer s (x.request (c.query.atPage identifiers).toJson)).2 (count + 1)
        refine ⟨s', count', hrun, fun hnone hmax => ?_⟩
        rw [hcount hnone hmax,
          Nat.div_eq_sub_div hpos (by omega : p.threshold ≤ rows.length - start), Nat.sub_add_eq]
        omega
termination_by rows.length - start
decreasing_by omega

end Compiled

/-- A selection that compiles asks for its pages in the way in which it reads them. -/
theorem Pattern.shape_of_paging {p : Pattern} {limits : Limits} {c : Compiled} {paging : Paging}
    (h : p.compile limits = .ok c) (hpaging : c.paging = some paging) :
    ∃ dimensions metrics initial,
      c.query.shape = .select dimensions metrics paging.threshold paging.fromNext initial := by
  obtain ⟨r, hrows⟩ := compileRows_of_paging h hpaging
  obtain ⟨span, -, rfl⟩ := compileRows_eq_ok hrows
  obtain rfl := Option.some.inj hpaging
  exact ⟨_, _, _, rfl⟩

/-- The rows that a selection fetches. -/
theorem Compiled.fetch_run {σ : Type} {answer : σ → Request → Reply × σ} {events : List Json}
    {position : Json.Fields → Option Nat} {p : Pattern} {config : Config} {c : Compiled}
    {paging : Paging} {rows : List Row} (hcompile : p.compile config.limits = .ok c)
    (hpaging : c.paging = some paging) (hserves : ServesPages answer events position)
    (hrows : List.Forall₂ (fun event row => Page.rowOf paging.timeAttribute event = .ok row)
      events rows) (s : σ) :
    ((c.fetch config p.source.external).run answer s).1 =
      if config.maxRows < paging.reached 0 rows.length then
        .error (.resultTooLarge config.maxRows)
      else .ok (paging.kept rows) := by
  obtain ⟨dimensions, metrics, initial, hshape⟩ := Pattern.shape_of_paging hcompile hpaging
  obtain ⟨s', count, hrun, -⟩ := readPages_run hshape hserves hrows p.source.external
    config.maxRows [] 0 hserves.position_nil s 0
  rw [fetch, hpaging, ← Exchange.run_counting answer _ s 0]
  exact congrArg Prod.fst hrun

/-! ### A backend with a single segment -/

namespace Sample

/-- The offset that a document is. -/
def offset? : Json → Option Nat
  | .int n => if 0 ≤ n then some n.toNat else none
  | _ => none

/-- The position that identifiers name if there is a single segment. -/
def position : Json.Fields → Option Nat
  | [] => some 0
  | [(_, offset)] => offset? offset
  | _ => none

/-- The item with the page that starts at a position. -/
def pageAt (events : List Json) (start : Nat) (asked : AskedPage) : Json :=
  let stop := min (start + asked.size) events.length
  let offset := if asked.fromNext then stop else stop - 1
  .object [("result", .object
    [("pagingIdentifiers", .object [("edits_0", .int offset)]),
      ("events", .array ((events.drop start).take asked.size))])]

/-- A backend that serves a list of events, all in one segment. -/
def serve (events : List Json) (_ : Unit) (r : Request) : Reply × Unit :=
  match r.page? with
  | none => ([.error "no page asked for"], ())
  | some asked =>
    match position asked.identifiers with
    | none => ([.error "unknown paging identifiers"], ())
    | some start => ([.ok (pageAt events start asked)], ())

theorem offset?_congr {a b : Json} (h : (a == b) = true) : offset? a = offset? b := by
  cases a with
  | int n =>
    cases b with
    | int m => rw [eq_of_beq (show (n == m) = true from h)]
    | _ => exact nomatch h
  | _ =>
    cases b with
    | int m => exact nomatch h
    | _ => rfl

/-- Identifiers that are equal as documents name the same position. -/
theorem position_congr (a b : Json.Fields) (h : (Json.object a == Json.object b) = true) :
    position a = position b := by
  have h : (a.length == b.length && Json.sameFields a b) = true := h
  obtain ⟨hlength, hsame⟩ := Bool.and_eq_true_iff.1 h
  match a, b, eq_of_beq hlength, hsame with
  | [], [], _, _ => rfl
  | [(k, v)], [(l, w)], _, hsame =>
    refine offset?_congr ?_
    rw [Json.sameFields, List.lookup_cons] at hsame
    cases hkey : k == l with
    | false =>
      rw [hkey] at hsame
      exact nomatch hsame
    | true =>
      rw [hkey] at hsame
      exact (Bool.and_eq_true_iff.1 hsame).1
  | _ :: _ :: _, _ :: _ :: _, _, _ => rfl

theorem position_int (segment : String) (n : Nat) : position [(segment, .int n)] = some n := by
  rw [position, offset?, if_pos (Int.natCast_nonneg n), Int.toNat_natCast]

theorem eventsOf_pageAt (events : List Json) (start : Nat) (asked : AskedPage) :
    Page.eventsOf [pageAt events start asked] = (events.drop start).take asked.size :=
  List.append_nil _

theorem identifiersOf_pageAt (events : List Json) (start : Nat) (asked : AskedPage) :
    Page.identifiersOf [pageAt events start asked] =
      [("edits_0", .int (if asked.fromNext then min (start + asked.size) events.length
        else min (start + asked.size) events.length - 1 : Nat))] := rfl

/-- The backend serves the events by either protocol. -/
theorem serve_servesPages {events : List Json} (h : events.length < Word.half) :
    ServesPages (serve events) events position where
  position_nil := rfl
  position_congr := position_congr
  serves := by
    intro s r asked start hasked hstart
    refine ⟨[pageAt events start asked], ?_, ?_, eventsOf_pageAt .., fun hne => ?_⟩
    · simp only [serve, hasked, hstart]
      rfl
    · intro item hmem
      rw [List.mem_singleton.1 hmem]
      rfl
    · have hlength := List.length_pos_iff.2 hne
      rw [eventsOf_pageAt, List.length_take, List.length_drop] at hlength
      split
      · next hnext =>
        rw [identifiersOf_pageAt, if_pos hnext, position_int]
      · next hnext =>
        rw [identifiersOf_pageAt, if_neg hnext]
        refine ⟨[("edits_0", min (start + asked.size) events.length - 1)], rfl, ?_, ?_⟩
        · intro entry hmem
          rw [List.mem_singleton.1 hmem]
          simp only
          omega
        · refine (position_int _ _).trans ?_
          rw [Nat.sub_add_cancel (by omega)]

/-- An edit of a page, as an event. -/
def editOf (page : String) : Json := .object [("event", .object [("page", .string page)])]

/-- Three edits. -/
def threeEdits : List Json := [editOf "Lion", editOf "Zebra", editOf "Lion"]

/-- The rows of the three edits. -/
def threeRows : List Row :=
  [[("page", .string "Lion")], [("page", .string "Zebra")], [("page", .string "Lion")]]

/-- The pattern of all edits. -/
def allEdits : Pattern := ⟨.ofExternal edits, "edits", none, [], none, none⟩

/-- Settings with pages of two rows. -/
def smallPages : Config := ⟨1, 5, 30000, 2⟩

end Sample

/-! ### All rows -/

/-- **Paging loses and duplicates nothing.** Against a backend that serves a list of events, a
selection without a limit reads the row of every event, once and in order, and asks one request
more than there are full pages; with a limit it reads the first rows up to the limit. -/
theorem Compiled.fetch_pages {σ : Type} {answer : σ → Request → Reply × σ} {events : List Json}
    {position : Json.Fields → Option Nat} {p : Pattern} {config : Config} {c : Compiled}
    {paging : Paging} {rows : List Row} (hcompile : p.compile config.limits = .ok c)
    (hpaging : c.paging = some paging) (hserves : ServesPages answer events position)
    (hrows : events.mapM (Page.rowOf paging.timeAttribute) = .ok rows)
    (hmax : rows.length ≤ config.maxRows) (s : σ) :
    ∃ s' count, (c.fetch config p.source.external).run (Exchange.counting answer) (s, 0) =
        (.ok (match paging.limit with
          | some limit => rows.take limit
          | none => rows), (s', count)) ∧
      (paging.limit = none → count = rows.length / paging.threshold + 1) := by
  obtain ⟨dimensions, metrics, initial, hshape⟩ := Pattern.shape_of_paging hcompile hpaging
  obtain ⟨s', count, hrun, hcount⟩ := readPages_run hshape hserves
    (Except.mapM_eq_ok.1 hrows) p.source.external config.maxRows [] 0 hserves.position_nil s 0
  refine ⟨s', count, ?_, fun hnone => ?_⟩
  · rw [if_neg (Nat.not_lt.2 (Nat.le_trans (paging.reached_le 0 rows.length) hmax))] at hrun
    rw [fetch, hpaging]
    exact hrun
  · rw [hcount hnone hmax, Nat.zero_add, Nat.sub_zero]

open Sample in
/-- The three edits are read on two pages of two rows. -/
theorem Compiled.fetch_pages_threeEdits :
    ∃ c paging, allEdits.compile smallPages.limits = .ok c ∧ c.paging = some paging ∧
      ServesPages (serve threeEdits) threeEdits position ∧
      threeEdits.mapM (Page.rowOf paging.timeAttribute) = .ok threeRows ∧
      threeRows.length ≤ smallPages.maxRows ∧
      ∃ s', (c.fetch smallPages edits).run (Exchange.counting (serve threeEdits)) ((), 0) =
        (.ok threeRows, (s', 2)) := by
  have hserves : ServesPages (serve threeEdits) threeEdits position :=
    serve_servesPages (by decide)
  have hrows : threeEdits.mapM (Page.rowOf "time") = .ok threeRows := rfl
  refine ⟨_, _, rfl, rfl, hserves, hrows, by decide, ?_⟩
  have hcompile : allEdits.compile smallPages.limits = .ok _ := rfl
  obtain ⟨s', count, hrun, hcount⟩ := fetch_pages hcompile rfl hserves hrows (by decide) ()
  rw [hcount rfl] at hrun
  exact ⟨s', hrun⟩

end FederatedQuery
