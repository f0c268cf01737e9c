import FederatedQuery.Proofs.Ending
import FederatedQuery.Proofs.Finishing
import FederatedQuery.Proofs.Operations
import FederatedQuery.Proofs.Parts

/-!
# Bounds on reading pages

Pages are read one after the other, and reading goes on only after a full page and as long as no
more rows have been read than may be. So the number of requests is bounded, whatever a backend
replies: its identifiers may be the same on every page, go round in circles or be missing, and its
pages may have any number of rows. What comes of reading is within the number of rows that may be
read, and within the limit.

A limit does not end reading before the last page that is needed for it is read, and the number of
rows is looked at first. So rows that are beyond the limit, but on that page, count as well: a
selection with a limit is too large if there are more rows than may be read both in the datasource
and on the pages up to the limit.

## Main definitions

* `Exchange.AsksAtMost`: exchanges with so many requests at most.

## Main results

* `Compiled.asksAtMost_readPages`: the requests from given rows on.
* `Compiled.Reads.length_le`: the number of rows that come of reading.
-/

namespace FederatedQuery

/-! ### Numbers of requests -/

namespace Exchange

variable {ε α : Type}

/-- Whatever the replies are and whether or not the exchange is cancelled, it asks so many requests
at most. -/
inductive AsksAtMost : Nat → Exchange ε α → Prop
  | done (n : Nat) (result : α) : AsksAtMost n (.done result)
  | fail (n : Nat) (error : ε) : AsksAtMost n (.fail error)
  | ask {n : Nat} {request : Request} {next : Reply → Exchange ε α}
      (hnext : ∀ reply, AsksAtMost n (next reply)) : AsksAtMost (n + 1) (.ask request next)
  | look {n : Nat} {next : Bool → Exchange ε α}
      (hnext : ∀ cancelled, AsksAtMost n (next cancelled)) : AsksAtMost n (.look next)

/-- However an exchange is carried out, it makes no more requests. -/
theorem AsksAtMost.length_le {n : Nat} {x : Exchange ε α} (h : x.AsksAtMost n)
    (failure : ε → ExecutionError) {log : Log} {a : Activity α}
    (hruns : Activity.Runs true (.ready (x.andThen failure .done)) log a) : log.length ≤ n := by
  induction h generalizing log with
  | done n result =>
    obtain ⟨rfl, -⟩ := Activity.Runs.of_done hruns
    exact Nat.zero_le n
  | fail n error =>
    obtain ⟨rfl, -⟩ := Activity.Runs.of_fail hruns
    exact Nat.zero_le n
  | ask _ ih =>
    obtain ⟨rfl, -⟩ | ⟨reply, rest, rfl, ⟨rfl, -⟩ | hrest⟩ := Activity.Runs.of_ask hruns
    · exact Nat.zero_le _
    · exact Nat.succ_le_succ (Nat.zero_le _)
    · exact Nat.succ_le_succ (ih reply hrest)
  | look _ ih =>
    obtain ⟨rfl, -⟩ | ⟨cancelled, -, hnext⟩ := Activity.Runs.of_look hruns
    · exact Nat.zero_le _
    · exact ih cancelled hnext

end Exchange

/-! ### Whatever a backend replies -/

namespace Compiled

variable (c : Compiled) (x : External) (maxRows : Nat) (p : Paging)

/-- **Requests for pages.** Each request but the last brings a full page, and all rows but those of
the last page fit. -/
theorem asksAtMost_readPages (n : Nat) (identifiers : Json.Fields) (rows : List Row)
    (hfits : rows.length ≤ maxRows) (hn : maxRows < rows.length + n * p.threshold) :
    (c.readPages x maxRows p identifiers rows).AsksAtMost n := by
  induction n generalizing identifiers rows with
  | zero => omega
  | succ n ih =>
    rw [readPages]
    refine .look fun cancelled => ?_
    split
    · exact .fail _ _
    refine .ask fun reply => ?_
    split
    · exact .fail _ _
    split
    · exact .fail _ _
    next page _ =>
    dsimp only
    split
    · exact .fail _ _
    next hall =>
    split
    · exact .done _ _
    split
    · exact .done _ _
    next hfull =>
    split
    · exact .fail _ _
    split
    · exact .done _ _
    refine ih _ _ (Nat.le_of_not_lt hall) ?_
    rw [List.length_append]
    rw [Nat.succ_mul] at hn
    omega

/-- What comes of reading pages is no more than may be read, and no more than the limit. -/
theorem Reads.length_le {ok : Reply → Prop} {maxRows : Nat} {p : Paging} {rows : List Row}
    (h : Reads ok maxRows p rows) :
    rows.length ≤ maxRows ∧ ∀ limit ∈ p.limit, rows.length ≤ limit := by
  obtain ⟨-, -, -, -, hfits⟩ := h
  refine ⟨(p.length_kept_le _).trans hfits, fun limit hlimit => ?_⟩
  rw [Paging.kept, hlimit]
  exact List.length_take_le limit _

end Compiled

namespace Sample

/-- A page with one edit, with the given identifiers. -/
def onePage (segment : String) : Json :=
  .object [("result", .object [("pagingIdentifiers", .object [(segment, .int 0)]),
    ("events", .array [editOf "Lion"])])]

/-- The selection of all edits on pages of one row. -/
def oneByOnePaging : Paging := ⟨1, Nat.one_pos, true, none, "time"⟩

/-- The query for all edits on pages of one row. -/
def oneByOneEdits : Compiled :=
  ⟨⟨"edits", .eternity, none, .select [] [] 1 true []⟩, none, [], ⟨[], [], none, none⟩, [],
    some oneByOnePaging⟩

/-- Reading these pages from such identifiers on, after such rows, if two rows may be read. -/
def oneByOneTask (identifiers : Json.Fields) (rows : List Row) : Task Dataset :=
  (oneByOneEdits.readPages edits 2 oneByOnePaging identifiers rows).andThen id .done

/-- The request for the page after the given identifiers, and the reply with a page. -/
def oneByOneTurn (identifiers : Json.Fields) (segment : String) : Request × Reply :=
  (edits.request (oneByOneEdits.query.atPage identifiers).toJson, [.ok (onePage segment)])

/-- The row of the edit. -/
def lionRow : Row := [("page", .string "Lion")]

/-- Reading goes round in a circle until there are too many rows. -/
theorem runs_oneByOneTask : Activity.Runs true (.ready (oneByOneTask [] []))
    [oneByOneTurn [] "a", oneByOneTurn [("a", .int 0)] "b", oneByOneTurn [("b", .int 0)] "a"]
    (.settled (.error (.resultTooLarge 2))) := by
  have hlast : Activity.Runs true (.ready (oneByOneTask [("b", .int 0)] [lionRow, lionRow]))
      [oneByOneTurn [("b", .int 0)] "a"] (.settled (.error (.resultTooLarge 2))) := by
    rw [oneByOneTask, Compiled.readPages]
    exact .asked rfl [.ok (onePage "a")] (.quiet (.fail rfl) (.refl _))
  have hsecond : Activity.Runs true (.ready (oneByOneTask [("a", .int 0)] [lionRow]))
      [oneByOneTurn [("a", .int 0)] "b", oneByOneTurn [("b", .int 0)] "a"]
      (.settled (.error (.resultTooLarge 2))) := by
    rw [oneByOneTask, Compiled.readPages]
    exact .asked rfl [.ok (onePage "b")] hlast
  rw [oneByOneTask, Compiled.readPages]
  exact .asked rfl [.ok (onePage "a")] hsecond

end Sample

/-! ### Selections end -/

/-- **Every selection ends.** Whatever a backend replies and whenever the computation is cancelled,
reading pages comes to an end. There are no more requests than one for each full page that may be
read and one more, and the rows that come of it are no more than may be read and no more than the
limit. -/
theorem Compiled.readPages_ends (c : Compiled) (x : External) (maxRows : Nat) (p : Paging) :
    (Activity.ready ((c.readPages x maxRows p [] []).andThen id .done)).Ends ∧
      ∀ log a,
        Activity.Runs true (.ready ((c.readPages x maxRows p [] []).andThen id .done)) log a →
          log.length ≤ maxRows / p.threshold + 1 ∧
            ∀ rows, a = .settled (.ok rows) →
              rows.length ≤ maxRows ∧ ∀ limit ∈ p.limit, rows.length ≤ limit := by
  refine ⟨(Task.HasRoom.andThen _ _ Task.HasRoom.done).ends, fun log a hruns => ⟨?_, ?_⟩⟩
  · refine (c.asksAtMost_readPages x maxRows p _ [] [] (Nat.zero_le maxRows) ?_).length_le id hruns
    rw [List.length_nil, Nat.zero_add, Nat.mul_comm]
    exact Nat.lt_mul_div_succ maxRows p.threshold_pos
  · rintro rows rfl
    have hgives : ((c.readPages x maxRows p [] []).andThen id .done).Gives (fun _ => True)
        (fun _ => True) (Compiled.Reads (fun _ => True) maxRows p) :=
      ((c.gives_readPages x .first).mono (fun _ _ => trivial) fun _ => id).andThen
        fun rows hrows => .done hrows
    have hend := (Activity.Gives.of_runs hruns (.ready hgives) fun _ _ => trivial).1
    exact hend.of_settled_ok.length_le

open Sample in
/-- A backend whose identifiers go round in a circle is left after three pages if two rows may be
read. -/
theorem Compiled.readPages_ends_circle :
    ∃ log, Activity.Runs true (.ready (oneByOneTask [] [])) log
        (.settled (.error (.resultTooLarge 2))) ∧
      log.map Prod.snd = [[.ok (onePage "a")], [.ok (onePage "b")], [.ok (onePage "a")]] ∧
      log.length ≤ 2 / oneByOnePaging.threshold + 1 :=
  ⟨_, runs_oneByOneTask, rfl,
    ((readPages_ends oneByOneEdits edits 2 oneByOnePaging).2 _ _ runs_oneByOneTask).1⟩

/-! ### Limits -/

namespace Sample

/-- The pattern of the first three edits. -/
def firstEdits : Pattern := { allEdits with limit := some 3 }

/-- Four edits. -/
def fourEdits : List Json := [editOf "Lion", editOf "Zebra", editOf "Lion", editOf "Okapi"]

/-- The rows of the four edits. -/
def fourRows : List Row := threeRows ++ [[("page", .string "Okapi")]]

/-- Settings with pages of two rows if three rows may be read. -/
def threeAtMost : Config := ⟨1, 3, 30000, 2⟩

theorem serve_fourEdits : ServesPages (serve fourEdits) fourEdits position :=
  serve_servesPages (by decide)

end Sample

/-- **Limits and the number of rows that may be read.** Against a backend that serves a list of
events, a selection with a limit, and without a sort, reads full pages up to the limit, which are
no larger than the limit. If the rows on these pages are more than may be read, then there are too
many, however small the limit is; else the first rows up to the limit come of it. -/
theorem Compiled.finished_limit {σ : Type} {answer : σ → Request → Reply × σ} {events : List Json}
    {position : Json.Fields → Option Nat} {p : Pattern} {config : Config} {c : Compiled}
    {paging : Paging} {limit : Nat} {rows : List Row}
    (hcompile : p.compile config.limits = .ok c) (hpaging : c.paging = some paging)
    (hsort : p.sort = none) (hlimit : p.limit = some limit)
    (hserves : ServesPages answer events position)
    (hrows : events.mapM (Page.rowOf paging.timeAttribute) = .ok rows) (scope : Scope) (s : σ) :
    paging.threshold = max 1 (min limit config.selectThreshold) ∧
      ((c.finished config p.source.external scope).run answer s).1 =
        if config.maxRows < min (paging.wholePages limit) rows.length then
          .error (.resultTooLarge config.maxRows)
        else .ok (rows.take limit) := by
  have hpage := Pattern.eq_paging hcompile hpaging
  have hpaged : paging.limit = some limit := by simp [hpage, Pattern.paging, hsort, hlimit]
  have hfetch := fetch_run hcompile hpaging hserves (Except.mapM_eq_ok.1 hrows) s
  rw [Paging.reached, Paging.kept, hpaged] at hfetch
  simp only [Nat.zero_add, Nat.sub_zero] at hfetch
  refine ⟨?_, ?_⟩
  · simp [hpage, Pattern.paging, hsort, hlimit, Config.limits]
  · by_cases hlarge : config.maxRows < min (paging.wholePages limit) rows.length
    · rw [if_pos hlarge] at hfetch ⊢
      exact run_finished_of_error scope (Prod.ext hfetch rfl)
    · rw [if_neg hlarge] at hfetch ⊢
      have hpages := paging.le_wholePages limit
      refine (run_finished scope (Prod.ext hfetch rfl)).trans ?_
      rw [List.length_take, if_neg (by omega), apply_of_paging hcompile hpaging, hsort]
      rfl

open Sample in
/-- If five rows may be read, then the first three of four edits are read on two pages. -/
theorem Compiled.finished_limit_firstEdits :
    ∃ c paging, firstEdits.compile smallPages.limits = .ok c ∧ c.paging = some paging ∧
      firstEdits.sort = none ∧ firstEdits.limit = some 3 ∧
      ServesPages (serve fourEdits) fourEdits position ∧
      fourEdits.mapM (Page.rowOf paging.timeAttribute) = .ok fourRows ∧
      paging.threshold = 2 ∧
      ((c.finished smallPages edits []).run (serve fourEdits) ()).1 = .ok threeRows := by
  refine ⟨_, _, rfl, rfl, rfl, rfl, serve_fourEdits, rfl, ?_⟩
  have hcompile : firstEdits.compile smallPages.limits = .ok _ := rfl
  exact finished_limit hcompile rfl rfl rfl serve_fourEdits rfl [] ()

open Sample in
/-- If three rows may be read, then the first three of four edits are too many: there are four rows
on two pages. -/
theorem Compiled.finished_firstEdits_tooLarge :
    ∃ c paging, firstEdits.compile threeAtMost.limits = .ok c ∧ c.paging = some paging ∧
      firstEdits.sort = none ∧ firstEdits.limit = some threeAtMost.maxRows ∧
      ServesPages (serve fourEdits) fourEdits position ∧
      fourEdits.mapM (Page.rowOf paging.timeAttribute) = .ok fourRows ∧
      ((c.finished threeAtMost edits []).run (serve fourEdits) ()).1 =
        .error (.resultTooLarge threeAtMost.maxRows) := by
  refine ⟨_, _, rfl, rfl, rfl, rfl, serve_fourEdits, rfl, ?_⟩
  have hcompile : firstEdits.compile threeAtMost.limits = .ok _ := rfl
  have hrows : fourEdits.mapM (Page.rowOf "time") = .ok fourRows := rfl
  have hfetch := fetch_run hcompile rfl serve_fourEdits (Except.mapM_eq_ok.1 hrows) ()
  exact run_finished_of_error [] (Prod.ext hfetch rfl)

end FederatedQuery
