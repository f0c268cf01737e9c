import FederatedQuery.Proofs.Breaking
import FederatedQuery.Proofs.Ending
import FederatedQuery.Proofs.FiniteResults
import FederatedQuery.Proofs.Paging

/-!
# Safety

Whatever documents backends reply, a computation comes to an end, and what it does by itself cannot
go wrong: the comparators of sorts are consistent, the identifiers of a page have their place in the
document of a query, and numbers stay within their words. There is one exception: the last offset,
`2 ^ 63 - 1`, has no offset after it, and where it is advanced the program breaks off. It does so
nowhere else.

Sorts are consistent even when literals hold numbers that are not finite. For such a number comes
into a row by a literal or a name alone, and then all rows of the answer have it.

## Main definitions

* `Json.writeAt?`: a value written into a document.
* `Operation.IsSafe`: operations that cannot go wrong.
* `Row.IsUniform`: rows that differ in values with a place in the order only.

## Main results

* `Row.IsUniform.derive`: derived values leave rows uniform.
* `Native.Query.writeAt?_toJson`, `Period.stop_bucketAt`: identifiers and buckets.
* `Pattern.Executes.isSafe`: the operations of patterns.
* `Job.runs_safely`: whole computations.
-/

namespace FederatedQuery

/-! ### Safe operations -/

/-- The document with a value written at the end of a path. Objects are made on the way where there
is nothing or `null`; there is no such document if something else is on the way. -/
def Json.writeAt? (value : Json) : List String → Json → Option Json
  | [], _ => some value
  | key :: path, .object fields =>
    (writeAt? value path ((fields.lookup key).getD .null)).map fun inner =>
      .object (Fields.put fields key inner)
  | key :: path, .null => (writeAt? value path .null).map fun inner => .object [(key, inner)]
  | _ :: _, _ => none

/-- The operation cannot go wrong. What an evaluation refuses is written after its operand, so that
it must have one. -/
def Operation.IsSafe : Operation → Prop
  | .evaluate scope e =>
    ∀ refused, e.evaluate scope = .error (.notEvaluable (.operation refused)) →
      refused.children ≠ []
  | .sort key rows =>
    Std.TransCmp fun (a b : {row // row ∈ rows}) => Dataset.compareBy key a.1 b.1
  | .advance offset => Word.isSigned (offset + 1) = true
  | .turn query identifiers =>
    Json.writeAt? (.object identifiers) ["pagingSpec", "pagingIdentifiers"] query.toJson =
      some (query.atPage identifiers).toJson
  | .bucket period start =>
    (period.bucketAt start).start = start ∧
      (period.bucketAt start).stop.second =
        min (start.second + period.seconds) Instant.latest.second
  | .cap limits =>
    limits.cap < Word.count ∧ (limits.maxRows < limits.cap ∨ limits.cap = Word.count - 1)

/-! ### Numbers -/

/-- The number of rows after which an answer is too large fits into a word. -/
theorem Limits.cap_lt (limits : Limits) :
    limits.cap < Word.count ∧ (limits.maxRows < limits.cap ∨ limits.cap = Word.count - 1) := by
  rw [cap, Word.count]
  omega

/-- A bucket ends a period after it starts, but with the last instant at the latest. -/
theorem Period.stop_bucketAt (p : Period) (start : Instant) :
    (p.bucketAt start).stop.second = min (start.second + p.seconds) Instant.latest.second := by
  have hseconds := p.seconds_pos
  have hstart := start.second_ge
  have hnano : start.nano % 1000000000 < 2000000000 := by omega
  have hlatest : Instant.latest.second = 8210266876799 := rfl
  rw [bucketAt, Instant.addSeconds?, Instant.ofSecond?, if_neg (Nat.ne_of_gt hseconds)]
  split
  · next h =>
    change start.second + p.seconds = _
    omega
  · next h =>
    change Instant.latest.second = _
    omega

/-- The start of the bucket that an instant lies in fits into a word, even if it is no instant. -/
theorem Period.isSigned_start (p : Period) (t : Instant) :
    Word.isSigned (t.second - t.second % p.seconds) = true := by
  have hge := t.second_ge
  have hle := t.second_le
  have hseconds := p.seconds_le
  have hpos := p.seconds_pos
  have hmod := Int.emod_nonneg t.second (b := p.seconds) (by omega)
  have hlt := Int.emod_lt_of_pos t.second (b := p.seconds) (by omega)
  rw [Word.isSigned, Bool.and_eq_true, decide_eq_true_iff, decide_eq_true_iff, Word.half]
  omega

/-- The identifiers of a page have their place in the document of a selection. -/
theorem Native.Query.writeAt?_toJson {q : Query} {dimensions metrics : List String}
    {threshold : Nat} {fromNext : Bool} {initial : Json.Fields}
    (hshape : q.shape = .select dimensions metrics threshold fromNext initial)
    (identifiers : Json.Fields) :
    Json.writeAt? (.object identifiers) ["pagingSpec", "pagingIdentifiers"] q.toJson =
      some (q.atPage identifiers).toJson := by
  obtain ⟨source, span, filter, shape⟩ := q
  cases hshape
  cases filter <;> rfl

/-! ### Evaluation -/

/-- Operations that are refused have an operand. -/
theorem Expression.children_ne_nil_of_evaluate {scope : Scope} {e refused : Expression}
    (h : e.evaluate scope = .error (.notEvaluable (.operation refused))) :
    refused.children ≠ [] := by
  induction e with
  | literal v => cases h
  | ref name =>
    rw [evaluate] at h
    split at h <;> cases h
  | not a ih =>
    obtain h | ⟨x, -, h⟩ := Except.bind_eq_error.1 h
    · exact ih h
    · cases h
  | binary op a b iha ihb =>
    -- after both operands only arithmetic is refused, for what the operands are
    have hboth {f : Value → Value → Except ExpressionError Value}
        (hf : ∀ x y, f x y ≠ .error (.notEvaluable (.operation refused)))
        (h : (do
          let x ← a.evaluate scope
          let y ← b.evaluate scope
          f x y) = .error (.notEvaluable (.operation refused))) : refused.children ≠ [] := by
      obtain h | ⟨x, -, h⟩ := Except.bind_eq_error.1 h
      · exact iha h
      obtain h | ⟨y, -, h⟩ := Except.bind_eq_error.1 h
      · exact ihb h
      · exact absurd h (hf x y)
    unfold evaluate at h
    split at h
    · refine hboth (fun _ _ herror => ?_) h
      unfold Arithmetic.onValues at herror
      split at herror <;> cases herror
    · refine hboth (fun _ _ herror => ?_) h
      cases herror
    · refine hboth (fun _ _ herror => ?_) h
      cases herror
    · obtain h | ⟨x, -, h⟩ := Except.bind_eq_error.1 h
      · exact iha h
      split at h
      · obtain h | ⟨y, -, h⟩ := Except.bind_eq_error.1 h
        · exact ihb h
        · cases h
      · cases h
    · obtain h | ⟨x, -, h⟩ := Except.bind_eq_error.1 h
      · exact iha h
      split at h
      · cases h
      · obtain h | ⟨y, -, h⟩ := Except.bind_eq_error.1 h
        · exact ihb h
        · cases h
    · cases h
      exact List.cons_ne_nil _ _
  | _ =>
    cases h
    exact List.cons_ne_nil _ _

/-! ### Uniform rows -/

/-- In each column, either all rows have values with a place in the order, or all of them have the
same value, or none. -/
def Row.IsUniform (rows : Row → Prop) : Prop :=
  ∀ name, (∀ row, rows row → ∃ v ∈ row.get? name, v.IsComparable) ∨
    ∀ row row', rows row → rows row' → row.get? name = row'.get? name

namespace Row.IsUniform

variable {rows others : Row → Prop} {scope : Scope}

theorem mono (h : IsUniform rows) (hsubset : ∀ row, others row → rows row) : IsUniform others :=
  fun name => (h name).imp (fun hcell row hrow => hcell row (hsubset row hrow))
    fun hsame row row' hrow hrow' => hsame row row' (hsubset row hrow) (hsubset row' hrow')

/-- The values of an expression have a place in the order, or they are all the same. -/
theorem evaluate (h : IsUniform rows) (scope : Scope) (e : Expression) :
    (∀ row, rows row → ∀ v, e.evaluate (row :: scope) = .ok v → v.IsComparable) ∨
      ∀ row row', rows row → rows row' →
        e.evaluate (row :: scope) = e.evaluate (row' :: scope) := by
  cases e with
  | literal v => exact .inr fun row row' _ _ => rfl
  | ref name =>
    have hlookup (row : Row) : Scope.lookup? (row :: scope) name =
        (row.get? name).or (Scope.lookup? scope name) := by
      rw [Scope.lookup?, List.findSome?_cons]
      cases row.get? name <;> rfl
    rcases h name with hcell | hsame
    · refine .inl fun row hrow v hv => ?_
      obtain ⟨w, hw, hcomparable⟩ := hcell row hrow
      rw [Expression.evaluate, hlookup, hw] at hv
      exact Except.ok.inj hv ▸ hcomparable
    · refine .inr fun row row' hrow hrow' => ?_
      rw [Expression.evaluate, Expression.evaluate, hlookup, hlookup, hsame row row' hrow hrow']
  | _ =>
    exact .inl fun row _ v hv =>
      (Expression.isFinite_of_operation (by simp [Expression.children]) hv).isComparable

/-- A value that is derived in all rows leaves them uniform. -/
theorem put (h : IsUniform rows) (scope : Scope) (name : String) (e : Expression) :
    IsUniform fun row' => ∃ row v, rows row ∧ e.evaluate (row :: scope) = .ok v ∧
      row' = row.put name v := by
  intro other
  by_cases hother : other = name
  · subst hother
    rcases h.evaluate scope e with hvalue | hsame
    · refine .inl ?_
      rintro _ ⟨row, v, hrow, hv, rfl⟩
      exact ⟨v, Row.get?_put _ _ _, hvalue row hrow v hv⟩
    · refine .inr ?_
      rintro _ _ ⟨row, v, hrow, hv, rfl⟩ ⟨row', v', hrow', hv', rfl⟩
      rw [hsame row row' hrow hrow', hv'] at hv
      rw [Row.get?_put, Row.get?_put, Except.ok.inj hv]
  · have hput (row : Row) (v : Value) : (row.put name v).get? other = row.get? other := by
      rw [Row.get?_put_eq, if_neg hother]
    refine (h other).imp (fun hcell => ?_) fun hsame => ?_
    · rintro _ ⟨row, v, hrow, -, rfl⟩
      rw [hput]
      exact hcell row hrow
    · rintro _ _ ⟨row, v, hrow, -, rfl⟩ ⟨row', v', hrow', -, rfl⟩
      rw [hput, hput, hsame row row' hrow hrow']

/-- **Derived values** leave rows uniform. -/
theorem derive (h : IsUniform rows) (scope : Scope) (derived : List (String × Expression)) :
    IsUniform fun row' => ∃ row, rows row ∧ row.derive scope derived = .ok row' := by
  induction derived generalizing rows with
  | nil =>
    refine h.mono ?_
    rintro _ ⟨row, hrow, ⟨⟩⟩
    exact hrow
  | cons entry derived ih =>
    refine (ih (h.put scope entry.1 entry.2)).mono ?_
    rintro row' ⟨row, hrow, hderive⟩
    rw [Row.derive_cons] at hderive
    obtain ⟨v, hv, hderive⟩ := Except.bind_eq_ok.1 hderive
    exact ⟨row.put entry.1 v, ⟨row, v, hrow, hv, rfl⟩, hderive⟩

/-- Without hidden columns rows are still uniform. -/
theorem dropHidden (h : IsUniform rows) (f : Finish) :
    IsUniform fun row' => ∃ row, rows row ∧ row' = f.dropHidden row := by
  intro name
  by_cases hname : name ∈ f.hidden
  · refine .inr ?_
    rintro _ _ ⟨row, -, rfl⟩ ⟨row', -, rfl⟩
    rw [f.get?_dropHidden, f.get?_dropHidden, if_pos hname, if_pos hname]
  · have hdrop (row : Row) : (f.dropHidden row).get? name = row.get? name := by
      rw [f.get?_dropHidden, if_neg hname]
    refine (h name).imp (fun hcell => ?_) fun hsame => ?_
    · rintro _ ⟨row, hrow, rfl⟩
      rw [hdrop]
      exact hcell row hrow
    · rintro _ _ ⟨row, hrow, rfl⟩ ⟨row', hrow', rfl⟩
      rw [hdrop, hdrop, hsame row row' hrow hrow']

/-- The comparator of a sort of uniform rows is a total preorder. -/
theorem transCmp {rows : Dataset} (h : IsUniform (· ∈ rows)) (key : SortKey) :
    Std.TransCmp fun (a b : {row // row ∈ rows}) => Dataset.compareBy key a.1 b.1 := by
  rcases h key.name with hcell | hsame
  · refine Dataset.transCmp_compareBy fun row hrow => ?_
    obtain ⟨v, hv, hcomparable⟩ := hcell row hrow
    rw [hv]
    exact hcomparable
  · -- all rows have the same place
    have heq (a b : {row // row ∈ rows}) : Dataset.compareBy key a.1 b.1 = .eq := by
      rw [Dataset.compareBy, hsame a.1 b.1 a.2 b.2]
      cases key.direction <;> exact Value.compare_self _
    exact {
      eq_swap := @fun a b => by rw [heq, heq]; rfl
      isLE_trans := @fun a _ c _ _ => by rw [heq]; rfl }

end Row.IsUniform

/-! ### Answers -/

/-- No values are derived in a selection. -/
theorem Pattern.derived_of_paging {p : Pattern} {limits : Limits} {c : Compiled} {paging : Paging}
    (h : p.compile limits = .ok c) (hpaging : c.paging = some paging) : c.finish.derived = [] := by
  obtain ⟨r, hrows⟩ := compileRows_of_paging h hpaging
  obtain ⟨span, -, rfl⟩ := compileRows_eq_ok hrows
  rfl

namespace Compiled

variable {c : Compiled} {rows : List Row}

/-- The rows of groups and totals have the same columns, and finite cells. -/
theorem isUniform_rows (hfits : ∀ grouping, c.grouping = some grouping →
      grouping.Fits c.query.shape) {items : List Json}
    (hitems : ∀ item ∈ items, item.isDocument = true) (h : c.rows items = .ok rows) :
    Row.IsUniform (· ∈ rows) := by
  intro name
  have hpresent (row : Row) (hrow : row ∈ rows) : (row.get? name).isSome ↔
      name ∈ c.columns ∨ c.grouping.map Grouping.name = some name := by
    obtain ⟨g, rfl, -⟩ := exists_group hfits h hrow
    exact c.isSome_get?_decode g name
  by_cases hname : name ∈ c.columns ∨ c.grouping.map Grouping.name = some name
  · refine .inl fun row hrow => ?_
    obtain ⟨v, hv⟩ := Option.isSome_iff_exists.1 ((hpresent row hrow).2 hname)
    exact ⟨v, hv, ((isFinite_rows hitems h row hrow).get? hv).isComparable⟩
  · have hnone (row : Row) (hrow : row ∈ rows) : row.get? name = none := by
      rw [← Option.not_isSome_iff_eq_none, hpresent row hrow]
      exact hname
    exact .inr fun row row' hrow hrow' => (hnone row hrow).trans (hnone row' hrow').symm

/-- The fetched rows are uniform, or they are finite and no values are derived in them. -/
theorem gives_sortable {p : Pattern} {limits : Limits} (hcompile : p.compile limits = .ok c)
    (config : Config) (x : External) :
    (c.fetch config x).Gives (fun _ => True) Reply.IsDocument fun rows =>
      Row.IsUniform (· ∈ rows) ∨ c.finish.derived = [] ∧ ∀ row ∈ rows, row.IsFinite := by
  cases hpaging : c.paging with
  | some paging =>
    exact (c.gives_fetch config x).mono (fun _ h => h) fun rows hrows =>
      .inr ⟨Pattern.derived_of_paging hcompile hpaging, hrows⟩
  | none =>
    rw [fetch, hpaging]
    refine .items trivial fun reply hreply => ?_
    split
    · exact .fail _
    · next items hitems =>
      exact .ofExcept fun rows hrows => .inl (isUniform_rows
        (fun _ => Pattern.fits_of_compile hcompile) (Reply.isDocument_of_items hreply hitems) hrows)

end Compiled

/-! ### Operations -/

/-- Deriving values is evaluation. -/
theorem Row.Derives.isSafe {scope : Scope} {row : Row} {derived : List (String × Expression)}
    {op : Operation} (h : row.Derives scope derived op) : op.IsSafe := by
  obtain ⟨done, name, e, rest, row', -, -, rfl⟩ := h
  exact fun _ => Expression.children_ne_nil_of_evaluate

/-- What is left to do with fetched rows is safe. -/
theorem Finish.Executes.isSafe {f : Finish} {scope : Scope} {rows : Dataset} {op : Operation}
    (h : f.Executes scope rows op)
    (hrows : Row.IsUniform (· ∈ rows) ∨ f.derived = [] ∧ ∀ row ∈ rows, row.IsFinite) :
    op.IsSafe := by
  obtain ⟨row, -, h⟩ | ⟨key, -, derived, hderive, rfl⟩ := h
  · exact h.isSafe
  have horigin {row : Row} (hrow : row ∈ derived.map f.dropHidden) :
      ∃ whole, (∃ row ∈ rows, row.derive scope f.derived = .ok whole) ∧
        row = f.dropHidden whole := by
    obtain ⟨whole, hwhole, rfl⟩ := List.mem_map.1 hrow
    exact ⟨whole, Except.exists_mem_of_mapM_eq_ok hderive whole hwhole, rfl⟩
  rcases hrows with huniform | ⟨hnone, hfinite⟩
  · exact (((huniform.derive scope f.derived).dropHidden f).mono fun _ => horigin).transCmp key
  · refine Dataset.transCmp_compareBy fun row hrow => ?_
    obtain ⟨whole, ⟨origin, hmem, hwhole⟩, rfl⟩ := horigin hrow
    rw [hnone] at hwhole
    obtain rfl := Except.ok.inj hwhole
    exact (((hfinite origin hmem).foldl_erase f.hidden).getD key.name).isComparable

/-- What is done in fetching rows is safe, except that an offset may be the last one. -/
theorem Compiled.Executes.isSafe {p : Pattern} {limits : Limits} {c : Compiled}
    (hcompile : p.compile limits = .ok c) {ok : Reply → Prop} {config : Config} {op : Operation}
    (h : c.Executes ok config op) : op.IsSafe ∨ op = .advance (Word.half - 1) := by
  cases h with
  | @turn paging identifiers rows hpaging h =>
    obtain ⟨dimensions, metrics, initial, hshape⟩ := Pattern.shape_of_paging hcompile hpaging
    exact .inl (Native.Query.writeAt?_toJson hshape identifiers)
  | @advance paging identifiers rows reply items page segment n _ _ _ _ _ _ _ _ _ _ hsigned =>
    by_cases hlast : n = Word.half - 1
    · exact .inr (congrArg Operation.advance hlast)
    · refine .inl ?_
      rw [Word.isSigned, Bool.and_eq_true, decide_eq_true_iff, decide_eq_true_iff] at hsigned
      rw [Operation.IsSafe, Word.isSigned, Bool.and_eq_true, decide_eq_true_iff,
        decide_eq_true_iff]
      omega
  | @bucket reply items item name time period start _ _ _ _ _ _ =>
    exact .inl ⟨rfl, period.stop_bucketAt start⟩

variable {config : Config} {op : Operation}

/-- **The operations of patterns** are safe, except that an offset may be the last one. -/
theorem Pattern.Executes.isSafe {p : Pattern} {scope : Scope}
    (h : p.Executes Reply.IsDocument config scope op) :
    op.IsSafe ∨ op = .advance (Word.half - 1) := by
  induction h with
  | compile p scope => exact .inl config.limits.cap_lt
  | fetch hcompile h => exact h.isSafe hcompile
  | finish hcompile hrows _ h =>
    exact .inl (h.isSafe ((Compiled.gives_sortable hcompile config _).of_returns hrows))
  | nested _ _ _ _ _ _ ih => exact ih

/-- The operations of plans are safe, except that an offset may be the last one. -/
theorem Plan.Executes.isSafe {plan : Plan} (h : plan.Executes Reply.IsDocument config op) :
    op.IsSafe ∨ op = .advance (Word.half - 1) := by
  cases h with
  | value e => exact .inl fun _ => Expression.children_ne_nil_of_evaluate
  | dataset h => exact h.isSafe
  | scalar h => exact h.isSafe
  | totals _ h => exact h.isSafe
  | derived _ h => exact .inl h.isSafe
  | datasets _ _ _ h => exact h.isSafe

/-! ### The last offset -/

namespace Sample

open Simulation

/-- The job of all edits, on pages of one row. -/
def allEditsJob : Job :=
  { editsJob [] with expression := .ref "edits", config := ⟨4, 100000, 30000, 1⟩ }

/-- A page with one edit, whose identifiers have the last offset. -/
def lastPage : Json :=
  .object [("result", .object [("pagingIdentifiers", .object [("seg", .int 9223372036854775807)]),
    ("events", .array [editOf "Lion"])])]

/-- A backend with this page and nothing after it. -/
def lastBackend : Backend :=
  ⟨[], [.now [.ok lastPage], .now [.ok (.array [])]], none⟩

/-- The world with this backend. -/
def lastWorld : World := ⟨[("wiki", lastBackend)], [], []⟩

theorem allEdits_plan : Plan.ofExpression allEditsJob.context allEditsJob.expression =
    .ok (.dataset allEdits) := by
  change ((Bindings.ofContext [("edits", edits)]).pattern allEditsJob.expression).map _ = _
  rw [Bindings.pattern]
  rfl

theorem allEdits_compile : ∃ c paging, allEdits.compile allEditsJob.config.limits = .ok c ∧
    c.paging = some paging ∧ c.grouping = none ∧ c.finish = ⟨[], [], none, none⟩ ∧
    paging = ⟨1, Nat.one_pos, false, none, "time"⟩ :=
  ⟨_, _, rfl, rfl, rfl, rfl, rfl⟩

/-- The page is asked for, and the program breaks off when it has come. -/
theorem compute_allEdits : ∃ w c, allEdits.compile allEditsJob.config.limits = .ok c ∧
    lastWorld.compute allEditsJob = (.error .overflow, w) ∧
    w.requests = [edits.request (c.query.atPage []).toJson] := by
  obtain ⟨c, paging, hcompile, hpaging, -, -, rfl⟩ := allEdits_compile
  have hstart : ∃ w, Running.start none 0 (allEdits.run allEditsJob.config []) lastWorld =
      (.settled (.error .overflow), w) ∧
      w.requests = [edits.request (c.query.atPage []).toJson] := by
    rw [Pattern.run_eq_fanOut, hcompile]
    change ∃ w, Running.start none 0 ((c.finished allEditsJob.config edits []).andThen id _)
      lastWorld = _ ∧ _
    rw [Compiled.finished, Compiled.fetch, hpaging]
    simp only
    rw [Compiled.readPages]
    exact ⟨_, rfl, rfl⟩
  obtain ⟨w, hstart, hrequests⟩ := hstart
  refine ⟨w, c, hcompile, ?_, hrequests⟩
  rw [World.compute_of_known rfl rfl rfl, allEdits_plan]
  change (Stage.ofRun _ (Running.start none 0 (allEdits.run allEditsJob.config [])
    lastWorld)).1.settle _ _ (Stage.ofRun _ (Running.start none 0
      (allEdits.run allEditsJob.config []) lastWorld)).2 = _
  rw [hstart, Stage.settle_ofRun_settled]
  rfl

theorem isDocument_lastPage : Reply.IsDocument [.ok lastPage] := by
  rintro j hj
  obtain rfl := Except.ok.inj (List.mem_singleton.1 hj)
  decide +kernel

theorem lastWorld_repliesDocuments : lastWorld.RepliesDocuments := by
  have hempty : Reply.IsDocument [.ok (.array [])] := by
    rintro j hj
    obtain rfl := Except.ok.inj (List.mem_singleton.1 hj)
    rfl
  exact World.repliesDocuments_of_backends (List.forall_mem_singleton.2 ⟨nofun,
    List.forall_mem_cons.2 ⟨isDocument_lastPage, List.forall_mem_singleton.2 hempty⟩, rfl⟩)

end Sample

/-! ### Computations -/

namespace Simulation

/-- Where backends reply with documents, a computation breaks off where the last offset is to be
advanced. -/
theorem World.executes_of_compute {w : World} {job : Job} (hw : w.RepliesDocuments)
    (h : (w.compute job).1 = .error .overflow) :
    job.Executes Reply.IsDocument (.advance (Word.half - 1)) := by
  obtain ⟨log, hsettles, hlogged⟩ := World.compute_settles World.isKept_repliesDocuments
    (fun w hw request => hw [] request) job hw
  rw [h] at hsettles
  exact hsettles.executes hlogged.allowed

/-- **Safety.** Whatever documents backends reply, the steps of a computation come to an end with an
outcome, in whichever order they are taken. What it does by itself cannot go wrong, except that an
offset may be the last one, and the starts of buckets fit into a word, wherever they are computed.
The program breaks off nowhere else than where the last offset is advanced: not in introspection,
and neither in the steps of a plan, in any order, nor in a whole computation, unless this advance is
among what they do. -/
theorem Job.runs_safely (job : Job) :
    (Activity.ready (job.context.introspect job.expression)).Ends ∧
      (∀ known plan, job.expression.planWith job.context known = .ok plan →
        (Activity.ready (plan.run job.config)).Ends) ∧
      (∀ op, job.Executes Reply.IsDocument op → op.IsSafe ∨ op = .advance (Word.half - 1)) ∧
      (∀ (p : Period) (t : Instant), Word.isSigned (t.second - t.second % p.seconds) = true) ∧
      ¬(job.context.introspect job.expression).Fails Reply.IsDocument .overflow ∧
      (∀ known plan, job.expression.planWith job.context known = .ok plan →
        (plan.run job.config).Fails Reply.IsDocument .overflow →
          plan.Executes Reply.IsDocument job.config (.advance (Word.half - 1))) ∧
      ∀ w : World, w.RepliesDocuments → (w.compute job).1 = .error .overflow →
        job.Executes Reply.IsDocument (.advance (Word.half - 1)) := by
  refine ⟨(job.context.hasRoom_introspect job.expression).ends,
    fun known plan _ => (plan.hasRoom_run job.config).ends, fun op h => ?_, Period.isSigned_start,
    job.context.not_fails_introspect job.expression,
    fun known plan _ => Plan.executes_of_fails, fun w => World.executes_of_compute⟩
  obtain ⟨known, plan, -, -, h⟩ := h
  exact h.isSafe

open Sample in
/-- The pages by the quotients of their edits and zero are computed safely. The computation of all
edits breaks off where the last offset is advanced. -/
theorem Job.runs_safely_dividedPages :
    (Activity.ready ((Plan.dataset dividedPattern).run dividedPages.config)).Ends ∧
      dividedPages.Executes Reply.IsDocument (.sort ⟨"Ratio", .ascending⟩ dividedRows) ∧
      Operation.IsSafe (.sort ⟨"Ratio", .ascending⟩ dividedRows) ∧
      lastWorld.RepliesDocuments ∧ (lastWorld.compute allEditsJob).1 = .error .overflow ∧
      allEditsJob.Executes Reply.IsDocument (.advance (Word.half - 1)) := by
  obtain ⟨-, hends, hsafe, -⟩ := Job.runs_safely dividedPages
  have hplan : dividedPages.expression.planWith dividedPages.context [] =
      .ok (.dataset dividedPattern) := congrArg (Except.mapError _) dividedPages_plan
  obtain ⟨w, c, -, hbroken, -⟩ := compute_allEdits
  have hbroken : (lastWorld.compute allEditsJob).1 = .error .overflow := congrArg Prod.fst hbroken
  obtain ⟨-, -, -, -, -, -, hbreaks⟩ := Job.runs_safely allEditsJob
  exact ⟨hends _ _ hplan, executes_sort_dividedPages,
    (hsafe _ executes_sort_dividedPages).resolve_right nofun, lastWorld_repliesDocuments, hbroken,
    hbreaks lastWorld lastWorld_repliesDocuments hbroken⟩

open Sample in
/-- The last offset is advanced when a full page names it. It has no offset after it, and the
program breaks off: no more is asked, and the computation has neither a value nor an error that is
told. -/
theorem Job.advances_last_offset :
    allEditsJob.expression.validate = .ok () ∧
      allEditsJob.Executes Reply.IsDocument (.advance (Word.half - 1)) ∧
      ¬Operation.IsSafe (.advance (Word.half - 1)) ∧
      ExecutionError.overflow.message? = none ∧
      ∃ w c, allEdits.compile allEditsJob.config.limits = .ok c ∧
        lastWorld.compute allEditsJob = (.error .overflow, w) ∧
        w.requests = [edits.request (c.query.atPage []).toJson] := by
  have hlast : ¬Word.isSigned ((Word.half : Int) - 1 + 1) = true := by decide
  obtain ⟨w, c, hcompile, hbroken, hrequests⟩ := compute_allEdits
  exact ⟨rfl, World.executes_of_compute lastWorld_repliesDocuments (congrArg Prod.fst hbroken),
    hlast, rfl, w, c, hcompile, hbroken, hrequests⟩

end Simulation

end FederatedQuery
