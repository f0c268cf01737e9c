import FederatedQuery.Proofs.Compilation
import FederatedQuery.Proofs.Discovery

/-!
# What overrides bypass

Two backends are compared that differ only in what the metadata of their segments tell of columns
with overrides. Introspection goes through all reported columns before the overrides take their
places, and it fails over the first one without a native type. So an override bypasses all that is
told of its column except whether there is a native type: the two introspections have the same
outcome unless one of them fails over a column with an override and the other one does not.

## Main definitions

* `Metadata.Report`, `Reply.report?`: what a reply tells of the columns of a datasource.
* `Metadata.firstUntyped?`: the column over which introspection fails.
* `External.ReportsAgree`: reports that differ in columns with overrides only.
* `External.BackendsAgree`: backends that differ in such reports only.

## Main results

* `Metadata.firstUntyped?_alike`: the columns over which two introspections fail.
* `Metadata.override_alike`: overrides remove the differences.
* `External.BackendsAgree.introspect`: two introspections take the same steps.
* `External.introspect_overridden`: when their outcomes are the same.
-/

namespace FederatedQuery

/-- What the metadata of segments tell of the columns of a datasource. -/
structure Metadata.Report where
  /-- The columns with what is told of them, in the order in which they are reported. -/
  columns : Json.Fields
  /-- The aggregators of the metrics, if they are known. -/
  aggregators : Option Json.Fields

/-- The aggregator of a column, if it has one; `none` if aggregators are not known. -/
def Metadata.Report.aggregator? (r : Metadata.Report) (name : String) : Option (Option Json) :=
  r.aggregators.map fun known => known.lookup name

/-- What a reply with the metadata of segments tells. -/
def Reply.report? (reply : Reply) : Option Metadata.Report :=
  match reply.items with
  | .ok (merged :: _) =>
    ((merged.get? "columns").bind Json.fields?).map fun columns =>
      ⟨columns, (merged.get? "aggregators").bind Json.fields?⟩
  | _ => none

/-- The error over a column without a native type. -/
def ExternalError.untyped (name : String) : ExternalError := .invalidResponse (.untypedColumn name)

namespace Metadata

/-! ### Columns without a native type -/

/-- The first reported column that does not hold the time and has no native type. -/
def firstUntyped? (timeName : String) (columns : Json.Fields) : Option String :=
  (columns.find? fun entry =>
    !isTime timeName entry.1 && (entry.2.textAt? "type").isNone).map Prod.fst

/-- The attributes for the reported columns that do not hold the time. -/
def ofColumns (timeName : String) (r : Report) : Except ExternalError (List Attribute) :=
  (r.columns.filter fun entry => !isTime timeName entry.1).mapM fun entry =>
    ofColumn r.aggregators entry.1 entry.2

/-- A column has an attribute unless it has no native type. -/
theorem ofColumn_cases (aggregators : Option Json.Fields) (name : String) (column : Json) :
    (column.textAt? "type").isNone = true ∧
        ofColumn aggregators name column = .error (.untyped name) ∨
      (column.textAt? "type").isNone = false ∧ ∃ a, ofColumn aggregators name column = .ok a := by
  unfold ofColumn
  split
  · next htype =>
    rw [htype]
    exact .inl ⟨rfl, rfl⟩
  · next htype =>
    rw [htype]
    refine .inr ⟨rfl, ?_⟩
    split
    · exact ⟨_, rfl⟩
    · exact ⟨_, rfl⟩

variable {timeName : String}

/-- **Columns fail over a missing type.** The columns have attributes unless one of those that do
not hold the time has no native type; the error is that of the first of these. -/
theorem ofColumns_cases (timeName : String) (r : Report) :
    (∃ name, firstUntyped? timeName r.columns = some name ∧
        ofColumns timeName r = .error (.untyped name)) ∨
      firstUntyped? timeName r.columns = none ∧
        ∃ attributes, ofColumns timeName r = .ok attributes := by
  obtain ⟨columns, aggregators⟩ := r
  unfold firstUntyped? ofColumns
  dsimp only
  induction columns with
  | nil => exact .inr ⟨rfl, [], rfl⟩
  | cons entry columns ih =>
    by_cases htime : isTime timeName entry.1 = true
    · rw [List.find?_cons_of_neg (by simp [htime]), List.filter_cons_of_neg (by simp [htime])]
      exact ih
    rw [List.filter_cons_of_pos (by simpa using htime), List.mapM_cons]
    obtain ⟨htype, herror⟩ | ⟨htype, a, ha⟩ := ofColumn_cases aggregators entry.1 entry.2
    · rw [List.find?_cons_of_pos (by simp [htime, htype]), herror]
      exact .inl ⟨entry.1, rfl, rfl⟩
    · rw [List.find?_cons_of_neg (by simp [htype]), ha]
      obtain ⟨name, hname, herror⟩ | ⟨hnone, attributes, hattributes⟩ := ih
      · rw [herror]
        exact .inl ⟨name, hname, rfl⟩
      · rw [hattributes]
        exact .inr ⟨hnone, a :: attributes, rfl⟩

theorem ofColumns_of_untyped {r : Report} {name : String}
    (h : firstUntyped? timeName r.columns = some name) :
    ofColumns timeName r = .error (.untyped name) := by
  obtain ⟨name', hname, herror⟩ | ⟨hnone, -⟩ := ofColumns_cases timeName r
  · rw [herror, Option.some.inj (hname.symm.trans h)]
  · exact nomatch h.symm.trans hnone

theorem exists_ofColumns {r : Report} (h : firstUntyped? timeName r.columns = none) :
    ∃ attributes, ofColumns timeName r = .ok attributes := by
  obtain ⟨name, hname, -⟩ | ⟨-, hok⟩ := ofColumns_cases timeName r
  · exact nomatch h.symm.trans hname
  · exact hok

/-- A listing tells of no native types. -/
theorem ofListing_ne_untyped (timeName : String) (listing : Json) (name : String) :
    ofListing timeName listing ≠ .error (.untyped name) := by
  have hlisted (key : String) : listedNames timeName listing key ≠ .error (.untyped name) := by
    unfold listedNames
    split
    · exact fun h => nomatch Except.error.inj h
    · exact nofun
  unfold ofListing
  intro h
  obtain h | ⟨dimensions, -, h⟩ := Except.bind_eq_error.1 h
  · exact hlisted _ h
  · obtain h | ⟨metrics, -, h⟩ := Except.bind_eq_error.1 h
    · exact hlisted _ h
    · exact nomatch h

end Metadata

namespace Attempt

variable {timeName : String} {reply : Reply}

/-- What is learned from the metadata of segments. -/
theorem learn_of_report {withAggregators : Bool} {r : Metadata.Report}
    (h : reply.report? = some r) : (segmentMetadata withAggregators).learn timeName reply =
      (Metadata.ofColumns timeName r).map (Metadata.timeAttribute timeName :: ·) := by
  unfold Reply.report? at h
  split at h
  · next merged rest hitems =>
    obtain ⟨columns, hcolumns, rfl⟩ := Option.map_eq_some_iff.1 h
    rw [learn, hitems]
    change Metadata.ofSegments timeName merged = _
    rw [Metadata.ofSegments, hcolumns]
    rfl
  · cases h

/-- No other reply makes an attempt fail over a column. -/
theorem exists_report_of_learn {attempt : Attempt} {name : String}
    (h : attempt.learn timeName reply = .error (.untyped name)) :
    ∃ withAggregators r, attempt = .segmentMetadata withAggregators ∧ reply.report? = some r ∧
      Metadata.firstUntyped? timeName r.columns = some name := by
  have hlearn := h
  unfold learn at h
  cases hitems : reply.items with
  | error message =>
    rw [hitems] at h
    cases h
  | ok items =>
    rw [hitems] at h
    change attempt.columns timeName items = .error (.untyped name) at h
    cases attempt with
    | listing =>
      cases items with
      | nil => cases h
      | cons first rest => exact absurd h (Metadata.ofListing_ne_untyped timeName first name)
    | segmentMetadata withAggregators =>
      cases items with
      | nil => cases h
      | cons merged rest =>
        change Metadata.ofSegments timeName merged = .error (.untyped name) at h
        cases hcolumns : (merged.get? "columns").bind Json.fields? with
        | none =>
          rw [Metadata.ofSegments, hcolumns] at h
          cases h
        | some columns =>
          have hreport : reply.report? =
              some ⟨columns, (merged.get? "aggregators").bind Json.fields?⟩ := by
            rw [Reply.report?, hitems]
            exact congrArg (Option.map _) hcolumns
          refine ⟨withAggregators, _, rfl, hreport, ?_⟩
          rw [learn_of_report hreport] at hlearn
          obtain ⟨name', hname, herror⟩ | ⟨-, attributes, hok⟩ := Metadata.ofColumns_cases timeName
            ⟨columns, (merged.get? "aggregators").bind Json.fields?⟩
          · rw [herror] at hlearn
            cases hlearn
            exact hname
          · rw [hok] at hlearn
            cases hlearn

end Attempt

/-! ### Reports that differ in overridden columns -/

/-- Two reports tell the same but for columns with overrides: the same columns in the same order,
and of each one without an override the same, its aggregator included. The names of the columns
are different, as those of the fields of an object are. -/
structure External.ReportsAgree (x : External) (r s : Metadata.Report) : Prop where
  distinct : (r.columns.map Prod.fst).Nodup
  alike : List.Forall₂ (fun a b => a.1 = b.1 ∧
    (a.1 ∉ x.overrides.map Attribute.name → a.2 = b.2 ∧ r.aggregator? a.1 = s.aggregator? a.1))
    r.columns s.columns

/-- Two backends take the same course, and their replies are the same but for what those to a query
for the metadata of segments tell of columns with overrides. -/
structure External.BackendsAgree {σ : Type} (x : External)
    (answer₁ answer₂ : σ → Request → Reply × σ) :
    Prop where
  state : ∀ s request, (answer₁ s request).2 = (answer₂ s request).2
  reply : ∀ s request, (answer₁ s request).1 = (answer₂ s request).1 ∨
    request.query.textAt? "queryType" = some "segmentMetadata" ∧
      ∃ r₁ r₂, (answer₁ s request).1.report? = some r₁ ∧ (answer₂ s request).1.report? = some r₂ ∧
        x.ReportsAgree r₁ r₂

namespace Metadata

/-- **Different failures.** If introspection fails over different columns, one of them is among
those of which different things are told. -/
theorem firstUntyped?_alike {names : List String} {columns₁ columns₂ : Json.Fields}
    (h : List.Forall₂ (fun a b => a.1 = b.1 ∧ (a.1 ∉ names → a.2 = b.2)) columns₁ columns₂)
    (timeName : String) :
    firstUntyped? timeName columns₁ = firstUntyped? timeName columns₂ ∨
      ∃ name ∈ names, firstUntyped? timeName columns₁ = some name ∨
        firstUntyped? timeName columns₂ = some name := by
  unfold firstUntyped?
  induction h with
  | nil => exact .inl rfl
  | @cons a b as bs hentry _ ih =>
    obtain ⟨hname, hsame⟩ := hentry
    by_cases htime : isTime timeName a.1 = true
    · rw [List.find?_cons_of_neg (by simp [htime]),
        List.find?_cons_of_neg (by simp [← hname, htime])]
      exact ih
    by_cases ha : (a.2.textAt? "type").isNone = true <;>
      by_cases hb : (b.2.textAt? "type").isNone = true
    · rw [List.find?_cons_of_pos (by simp [htime, ha]),
        List.find?_cons_of_pos (by simp [← hname, htime, hb])]
      exact .inl (congrArg some hname)
    · have hmem : a.1 ∈ names := by
        by_contra hmem
        exact hb (hsame hmem ▸ ha)
      rw [List.find?_cons_of_pos (by simp [htime, ha])]
      exact .inr ⟨a.1, hmem, .inl rfl⟩
    · have hmem : a.1 ∈ names := by
        by_contra hmem
        exact ha (hsame hmem ▸ hb)
      rw [List.find?_cons_of_pos (a := b) (by simp [← hname, htime, hb])]
      exact .inr ⟨a.1, hmem, .inr (congrArg some hname.symm)⟩
    · rw [List.find?_cons_of_neg (by simp [ha]), List.find?_cons_of_neg (by simp [hb])]
      exact ih

variable {overrides as bs : List Attribute}

/-- Columns with different names are those that are found under their names. -/
theorem filterMap_find? (h : (as.map Attribute.name).Nodup) :
    (as.map Attribute.name).filterMap (Attribute.find? as) = as := by
  rw [List.filterMap_map]
  exact (List.filterMap_congr fun a ha => Attribute.find?_of_mem h ha).trans List.filterMap_some

theorem exists_findLast? {name : String} (h : name ∈ overrides.map Attribute.name) :
    ∃ last, Attribute.findLast? overrides name = some last := by
  obtain ⟨a, ha, rfl⟩ := List.mem_map.1 h
  cases hlast : Attribute.findLast? overrides a.name with
  | some last => exact ⟨last, rfl⟩
  | none =>
    have hne := List.find?_eq_none.1 hlast a (List.mem_reverse.2 ha)
    exact absurd (beq_self_eq_true a.name) hne

/-- Under each name the same column is found, once overrides have taken their places. -/
theorem find?_override_alike (h : List.Forall₂ (fun a b => a.name = b.name ∧
      (a.name ∉ overrides.map Attribute.name → a = b)) as bs) (name : String) :
    Attribute.find? (override as overrides) name =
      Attribute.find? (override bs overrides) name := by
  rw [find?_override, find?_override]
  by_cases hmem : name ∈ overrides.map Attribute.name
  · obtain ⟨last, hlast⟩ := exists_findLast? hmem
    rw [hlast, Option.some_or, Option.some_or]
  · congr 1
    induction h with
    | nil => rfl
    | @cons a b as bs hab _ ih =>
      rw [Attribute.find?_cons, Attribute.find?_cons, ← hab.1, ih]
      split
      · next hname => rw [hab.2 (hname ▸ hmem)]
      · rfl

/-- **Overrides remove the differences.** Columns with the same names in the same order are the
same once overrides have taken the places of those that differ. -/
theorem override_alike (hdistinct : (as.map Attribute.name).Nodup)
    (h : List.Forall₂ (fun a b => a.name = b.name ∧
      (a.name ∉ overrides.map Attribute.name → a = b)) as bs) :
    override as overrides = override bs overrides := by
  have hnames : as.map Attribute.name = bs.map Attribute.name := by
    rw [← List.forall₂_eq_eq_eq, List.forall₂_map_left_iff, List.forall₂_map_right_iff]
    exact h.imp fun _ _ hab => hab.1
  calc override as overrides
      = ((override as overrides).map Attribute.name).filterMap
          (Attribute.find? (override as overrides)) :=
        (filterMap_find? (nodup_override hdistinct overrides)).symm
    _ = ((override bs overrides).map Attribute.name).filterMap
          (Attribute.find? (override bs overrides)) := by
        rw [names_override, names_override, hnames]
        exact List.filterMap_congr fun name _ => find?_override_alike h name
    _ = override bs overrides := filterMap_find? (nodup_override (hnames ▸ hdistinct) overrides)

/-! ### Reports -/

/-- What is told of a column depends on the aggregators only by its own. -/
theorem ofColumn_congr {known₁ known₂ : Option Json.Fields} {name : String}
    (h : known₁.map (·.lookup name) = known₂.map (·.lookup name)) (column : Json) :
    ofColumn known₁ name column = ofColumn known₂ name column := by
  match known₁, known₂ with
  | none, none => rfl
  | none, some _ => exact nomatch h
  | some _, none => exact nomatch h
  | some known, some other =>
    have hlookup : known.lookup name = other.lookup name := Option.some.inj h
    simp only [ofColumn, hlookup]

/-- Reports that agree give columns that are the same but for those with overrides. -/
theorem ofColumns_alike {x : External} {r s : Report} {timeName : String}
    (h : x.ReportsAgree r s) (hr : ofColumns timeName r = .ok as)
    (hs : ofColumns timeName s = .ok bs) :
    List.Forall₂ (fun a b => a.name = b.name ∧ (a.name ∉ x.overrides.map Attribute.name → a = b))
      as bs := by
  have hreported := List.rel_filter (p := fun entry => !isTime timeName entry.1)
    (q := fun entry => !isTime timeName entry.1)
    (fun a b hab => by simp only [hab.1]) h.alike
  rw [ofColumns, Except.mapM_eq_ok] at hr hs
  revert hr hs hreported
  generalize r.columns.filter _ = columns₁, s.columns.filter _ = columns₂
  intro hr hs hreported
  induction hreported generalizing as bs with
  | nil =>
    cases hr
    cases hs
    exact .nil
  | cons hentry _ ih =>
    obtain _ | ⟨ha, hr⟩ := hr
    obtain _ | ⟨hb, hs⟩ := hs
    obtain ⟨hname, hsame⟩ := hentry
    have hnames := (tells_of_ofColumn ha).1
    refine .cons ⟨?_, fun hmem => ?_⟩ (ih hr hs)
    · rw [hnames, (tells_of_ofColumn hb).1, hname]
    · obtain ⟨hcolumn, haggregator⟩ := hsame (hnames ▸ hmem)
      rw [hcolumn, ofColumn_congr haggregator, hname, hb] at ha
      exact (Except.ok.inj ha).symm

end Metadata

/-- The outcome of an exchange whose result is put into something else. -/
theorem Exchange.run_bind_done {σ ε α β : Type} (answer : σ → Request → Reply × σ)
    (e : Exchange ε α) (f : α → β) (s : σ) :
    ((e.bind fun a => .done (f a)).run answer s).1 = (e.run answer s).1.map f := by
  rw [run_bind]
  rcases e.run answer s with ⟨_ | _, _⟩ <;> rfl

namespace External

variable {x : External} {r s : Metadata.Report}

/-- Overrides remove the differences between reports that agree. -/
theorem introspected_alike {as bs : List Attribute} (h : x.ReportsAgree r s)
    (hr : Metadata.ofColumns x.timeAttribute r = .ok as)
    (hs : Metadata.ofColumns x.timeAttribute s = .ok bs) (version : Option String) :
    x.introspected (Metadata.timeAttribute x.timeAttribute :: as) version =
      x.introspected (Metadata.timeAttribute x.timeAttribute :: bs) version := by
  have hdistinct : ((Metadata.timeAttribute x.timeAttribute :: as).map Attribute.name).Nodup := by
    rw [List.map_cons, Metadata.names_of_ofColumn hr]
    refine List.nodup_cons.2 ⟨fun hmem => ?_, h.distinct.filter _⟩
    simpa [Metadata.timeAttribute, Attribute.plain] using (List.mem_filter.1 hmem).2
  have hcolumns := Metadata.override_alike hdistinct
    (.cons ⟨rfl, fun _ => rfl⟩ (Metadata.ofColumns_alike h hr hs))
  rw [introspected, introspected, hcolumns]

/-! ### Two introspections -/

variable {σ : Type}

/-- The last attempt decides which columns are learned. -/
theorem learnColumns_last (answer : σ → Request → Reply × σ) (x : External)
    (version : Option String) (s : σ) :
    ∃ last, ((x.learnColumns (.initial x.strategy) >>= fun columns =>
          Exchange.done (x.introspected columns version)).log answer s).getLast? =
            some (x.entry last) ∧
        ((x.learnColumns (.initial x.strategy) >>= fun columns =>
          Exchange.done (x.introspected columns version)).run answer s).1 =
            (last.1.learn x.timeAttribute last.2).map (x.introspected · version) := by
  obtain ⟨turns, hlog, -, last, hlast, hrun⟩ := x.learnColumns_log answer (.initial x.strategy) s
  refine ⟨last, ?_, ?_⟩
  · have hend : (x.learnColumns (.initial x.strategy) >>= fun columns =>
        Exchange.done (x.introspected columns version)).log answer s = turns.map x.entry := by
      rw [Exchange.log_bind, hlog]
      split <;> exact List.append_nil _
    rw [hend, List.getLast?_map, hlast]
    rfl
  · rw [← hrun]
    exact Exchange.run_bind_done answer _ _ s

theorem introspect_eq (hunknown : x.isIntrospected = false) :
    x.introspect = x.learnVersion.bind fun version =>
      x.learnColumns (.initial x.strategy) >>= fun columns =>
        .done (x.introspected columns version) := by
  rw [introspect, hunknown]
  rfl

/-- An introspection is one request for the version, unless that is known, and then attempts, of
which the last one decides. -/
theorem introspect_last (answer : σ → Request → Reply × σ) (hunknown : x.isIntrospected = false)
    (s : σ) :
    (∃ reply message, x.introspect.log answer s = [(x.request statusQuery, reply)] ∧
        (x.introspect.run answer s).1 = .error (.requester message)) ∨
      ∃ last version, (x.introspect.log answer s).getLast? = some (x.entry last) ∧
        (x.introspect.run answer s).1 =
          (last.1.learn x.timeAttribute last.2).map (x.introspected · version) := by
  have hlog := Exchange.log_bind answer x.learnVersion (fun version =>
    x.learnColumns (.initial x.strategy) >>= fun columns =>
      Exchange.done (x.introspected columns version)) s
  rw [introspect_eq hunknown, Exchange.run_bind]
  refine hlog ▸ ?_
  cases hversion : x.version with
  | some version =>
    have hlearn : x.learnVersion = .done (some version) := by rw [learnVersion, hversion]
    rw [hlearn]
    obtain ⟨last, hlast, hrun⟩ := x.learnColumns_last answer (some version) s
    exact .inr ⟨last, some version, hlast, hrun⟩
  | none =>
    obtain ⟨reply, hlog, hstatus⟩ := x.learnVersion_log answer hversion s
    rw [hlog]
    rcases hrun : x.learnVersion.run answer s with ⟨error | version, s'⟩
    · rw [hrun] at hstatus
      obtain ⟨message, -, -, rfl⟩ := hstatus error rfl
      exact .inl ⟨reply, message, rfl, rfl⟩
    · obtain ⟨last, hlast, hrun⟩ := x.learnColumns_last answer version s'
      refine .inr ⟨last, version, ?_, hrun⟩
      dsimp only
      rw [List.singleton_append, List.getLast?_cons, hlast]
      rfl

/-- A report ends the attempts, whether it tells of all columns or not. -/
theorem run_learnColumns_of_report {answer : σ → Request → Reply × σ} {withAggregators : Bool}
    {s : σ} (h : (answer s (x.request
      ((Attempt.segmentMetadata withAggregators).query x.source))).1.report? = some r) :
    ((x.learnColumns (.segmentMetadata withAggregators)).run answer s).1 =
      (Metadata.ofColumns x.timeAttribute r).map
        (Metadata.timeAttribute x.timeAttribute :: ·) := by
  rw [learnColumns_eq]
  simp only [Exchange.run, Attempt.learn_of_report h]
  obtain ⟨name, -, herror⟩ | ⟨-, attributes, hok⟩ := Metadata.ofColumns_cases x.timeAttribute r
  · rw [herror]
    rfl
  · rw [hok]
    rfl

namespace BackendsAgree

variable {answer₁ answer₂ : σ → Request → Reply × σ}

/-- The replies to a request are the same unless it asks for the metadata of segments. -/
theorem answer_eq (h : x.BackendsAgree answer₁ answer₂) (s : σ) {request : Request}
    (hquery : request.query.textAt? "queryType" ≠ some "segmentMetadata") :
    answer₁ s request = answer₂ s request := by
  refine Prod.ext ?_ (h.state s request)
  obtain hreply | ⟨hmetadata, -⟩ := h.reply s request
  · exact hreply
  · exact absurd hmetadata hquery

theorem learnVersion (h : x.BackendsAgree answer₁ answer₂) (s : σ) :
    x.learnVersion.run answer₁ s = x.learnVersion.run answer₂ s := by
  have hquery : (x.request statusQuery).query.textAt? "queryType" ≠ some "segmentMetadata" := by
    rw [textAt?_request _ _ (by decide)]
    decide
  unfold External.learnVersion
  cases x.version with
  | some version => rfl
  | none =>
    change Exchange.run answer₁ (.ask _ _) s = Exchange.run answer₂ (.ask _ _) s
    simp only [Exchange.run, h.answer_eq s hquery]
    rcases answer₂ s (x.request statusQuery) with ⟨reply, s'⟩
    simp only [Exchange.bind]
    cases reply.items with
    | ok items => rfl
    | error message =>
      simp only
      split <;> rfl

/-- The attempts from a given one on have the same outcome, or they end at replies that agree. -/
theorem learnColumns (h : x.BackendsAgree answer₁ answer₂) (attempt : Attempt) (s : σ) :
    ((x.learnColumns attempt).run answer₁ s).1 = ((x.learnColumns attempt).run answer₂ s).1 ∨
      ∃ r₁ r₂, x.ReportsAgree r₁ r₂ ∧
        ((x.learnColumns attempt).run answer₁ s).1 =
          (Metadata.ofColumns x.timeAttribute r₁).map
            (Metadata.timeAttribute x.timeAttribute :: ·) ∧
        ((x.learnColumns attempt).run answer₂ s).1 =
          (Metadata.ofColumns x.timeAttribute r₂).map
            (Metadata.timeAttribute x.timeAttribute :: ·) := by
  have hstate := h.state s (x.request (attempt.query x.source))
  obtain hreply | ⟨hmetadata, r₁, r₂, hr₁, hr₂, hagree⟩ :=
    h.reply s (x.request (attempt.query x.source))
  · rw [learnColumns_eq]
    simp only [Exchange.run]
    rw [hreply, hstate]
    cases hlearn : attempt.learn x.timeAttribute
      (answer₂ s (x.request (attempt.query x.source))).1 with
    | ok columns => exact .inl rfl
    | error error =>
      simp only
      cases hnext : attempt.stepDown? x.strategy error with
      | none => exact .inl rfl
      | some next =>
        have := Attempt.capability_stepDown hnext
        exact learnColumns h next _
  · cases attempt with
    | listing =>
      rw [textAt?_request _ _ (by decide)] at hmetadata
      exact absurd (Option.some.inj hmetadata) (by decide)
    | segmentMetadata withAggregators =>
      exact .inr ⟨r₁, r₂, hagree, run_learnColumns_of_report hr₁, run_learnColumns_of_report hr₂⟩
termination_by attempt.capability

/-- **Two introspections take the same steps.** They have the same outcome, or they learn the
columns from reports that agree. -/
theorem introspect (h : x.BackendsAgree answer₁ answer₂) (s : σ) :
    (x.introspect.run answer₁ s).1 = (x.introspect.run answer₂ s).1 ∨
      ∃ r₁ r₂ version, x.ReportsAgree r₁ r₂ ∧
        (x.introspect.run answer₁ s).1 = (Metadata.ofColumns x.timeAttribute r₁).map
          (fun columns =>
            x.introspected (Metadata.timeAttribute x.timeAttribute :: columns) version) ∧
        (x.introspect.run answer₂ s).1 = (Metadata.ofColumns x.timeAttribute r₂).map
          (fun columns =>
            x.introspected (Metadata.timeAttribute x.timeAttribute :: columns) version) := by
  cases hknown : x.isIntrospected with
  | true =>
    rw [External.introspect, hknown]
    exact .inl rfl
  | false =>
    rw [introspect_eq hknown, Exchange.run_bind, Exchange.run_bind, h.learnVersion s]
    rcases x.learnVersion.run answer₂ s with ⟨error | version, s'⟩
    · exact .inl rfl
    · have hrun (answer : σ → Request → Reply × σ) := Exchange.run_bind_done answer
        (x.learnColumns (.initial x.strategy)) (x.introspected · version) s'
      obtain hsame | ⟨r₁, r₂, hagree, h₁, h₂⟩ := h.learnColumns (.initial x.strategy) s'
      · exact .inl ((hrun answer₁).trans (hsame ▸ (hrun answer₂).symm))
      · refine .inr ⟨r₁, r₂, version, hagree, (hrun answer₁).trans ?_, (hrun answer₂).trans ?_⟩
        · rw [h₁]
          cases Metadata.ofColumns x.timeAttribute r₁ <;> rfl
        · rw [h₂]
          cases Metadata.ofColumns x.timeAttribute r₂ <;> rfl

end BackendsAgree

theorem queryType_eq_of_request {x : External} {query query' : Json}
    (h : x.request query = x.request query') :
    query.textAt? "queryType" = query'.textAt? "queryType" := by
  have htype := congrArg (fun request => request.query.textAt? "queryType") h
  rwa [textAt?_request _ _ (by decide), textAt?_request _ _ (by decide)] at htype

/-- Introspection fails over a column if its report is the last reply and the column is the first
one in it without a native type. -/
theorem introspect_eq_untyped_iff (answer : σ → Request → Reply × σ) (x : External) (s : σ)
    (name : String) : (x.introspect.run answer s).1 = .error (.untyped name) ↔
      ∃ withAggregators reply r, (x.introspect.log answer s).getLast? =
          some (x.entry (.segmentMetadata withAggregators, reply)) ∧
        reply.report? = some r ∧ Metadata.firstUntyped? x.timeAttribute r.columns = some name := by
  cases hknown : x.isIntrospected with
  | true =>
    rw [introspect, hknown]
    constructor
    · intro herror
      cases herror
    · rintro ⟨_, _, _, hlast, -⟩
      cases hlast
  | false =>
    obtain ⟨reply, message, hlog, hrun⟩ | ⟨⟨attempt, reply⟩, version, hlog, hrun⟩ :=
      introspect_last answer hknown s
    · rw [hlog, hrun]
      constructor
      · intro herror
        cases herror
      · rintro ⟨withAggregators, _, _, hlast, -⟩
        obtain ⟨hrequest, -⟩ := Prod.mk.inj (Option.some.inj hlast)
        exact absurd (Option.some.inj (queryType_eq_of_request hrequest)) (by decide)
    · rw [hlog, hrun]
      constructor
      · intro herror
        have hlearn : attempt.learn x.timeAttribute reply = .error (.untyped name) :=
          Except.map_eq_error.1 herror
        obtain ⟨withAggregators, r, rfl, hr, hname⟩ := Attempt.exists_report_of_learn hlearn
        exact ⟨withAggregators, reply, r, rfl, hr, hname⟩
      · rintro ⟨withAggregators, _, r, hlast, hr, hname⟩
        obtain ⟨hrequest, rfl⟩ := Prod.mk.inj (Option.some.inj hlast)
        cases attempt with
        | listing =>
          exact absurd (Option.some.inj (queryType_eq_of_request hrequest)) (by decide)
        | segmentMetadata _ =>
          rw [Attempt.learn_of_report hr, Metadata.ofColumns_of_untyped hname]
          rfl

/-- **What overrides bypass.** Take two backends whose replies are the same, except that the
metadata of segments may tell different things of columns with overrides. Then introspection has
the same outcome, and if it succeeds the same attributes, if and only if it fails with both backends
or with none over a missing native type of a column with an override. It fails over a column, with
whatever backend, if and only if the last reply is a report in which this column is the first one
that does not hold the time and has no native type. -/
theorem introspect_overridden {answer₁ answer₂ : σ → Request → Reply × σ}
    (h : x.BackendsAgree answer₁ answer₂) (s : σ) :
    ((x.introspect.run answer₁ s).1 = (x.introspect.run answer₂ s).1 ↔
      ∀ name ∈ x.overrides.map Attribute.name,
        ((x.introspect.run answer₁ s).1 = .error (.untyped name) ↔
          (x.introspect.run answer₂ s).1 = .error (.untyped name))) ∧
    ∀ (answer : σ → Request → Reply × σ) (name : String),
      (x.introspect.run answer s).1 = .error (.untyped name) ↔
        ∃ withAggregators reply r, (x.introspect.log answer s).getLast? =
            some (x.entry (.segmentMetadata withAggregators, reply)) ∧
          reply.report? = some r ∧
          Metadata.firstUntyped? x.timeAttribute r.columns = some name := by
  refine ⟨⟨fun hsame name _ => by rw [hsame], fun hfails => ?_⟩, fun answer name =>
    introspect_eq_untyped_iff answer x s name⟩
  obtain hsame | ⟨r₁, r₂, version, hagree, h₁, h₂⟩ := h.introspect s
  · exact hsame
  have halike := hagree.alike.imp fun _ _ hentry =>
    And.imp_right (fun hrest hname => (hrest hname).1) hentry
  rw [h₁, h₂] at hfails ⊢
  obtain hfirst | ⟨name, hname, hfirst⟩ := Metadata.firstUntyped?_alike halike x.timeAttribute
  · cases hname : Metadata.firstUntyped? x.timeAttribute r₁.columns with
    | some name =>
      rw [Metadata.ofColumns_of_untyped hname, Metadata.ofColumns_of_untyped (hfirst ▸ hname)]
    | none =>
      obtain ⟨as, has⟩ := Metadata.exists_ofColumns hname
      obtain ⟨bs, hbs⟩ := Metadata.exists_ofColumns (hfirst ▸ hname)
      rw [has, hbs]
      exact congrArg Except.ok (introspected_alike hagree has hbs version)
  · have hfail {r : Metadata.Report}
        (hr : Metadata.firstUntyped? x.timeAttribute r.columns = some name) :
        (Metadata.ofColumns x.timeAttribute r).map (fun columns =>
            x.introspected (Metadata.timeAttribute x.timeAttribute :: columns) version) =
          .error (.untyped name) := by
      rw [Metadata.ofColumns_of_untyped hr]
      rfl
    obtain hfirst | hfirst := hfirst
    · rw [hfail hfirst, (hfails name hname).1 (hfail hfirst)]
    · rw [hfail hfirst, (hfails name hname).2 (hfail hfirst)]

end External

namespace Sample

/-- The report of the metadata of the segments, with what is told of the page. -/
def pageReport (page : Json) : Metadata.Report :=
  ⟨[("__time", .object [("type", .string "LONG")]), ("page", page),
      ("added", .object [("type", .string "LONG")])],
    some [("added", .object [("type", .string "count")])]⟩

/-- A backend that tells of its version, and of the page as given. -/
def tellPage (page : Json) (_ : Unit) (request : Request) : Reply × Unit :=
  (if request.query.textAt? "queryType" = some "segmentMetadata" then
    [.ok (.object [("columns", .object (pageReport page).columns),
      ("aggregators", .object [("added", .object [("type", .string "count")])])])]
  else [.ok (.object [("version", .string "0.9.2")])], ())

/-- What the metadata tell of a page that is a string, and of one that could not be analysed. -/
def stringPage : Json := .object [("type", .string "STRING")]

def faultyPage : Json :=
  .object [("type", .string "COMPLEX"), ("errorMessage", .string "cannot merge"),
    ("hasMultipleValues", .string "perhaps")]

theorem report_tellPage (page : Json) {request : Request}
    (h : request.query.textAt? "queryType" = some "segmentMetadata") :
    (tellPage page () request).1.report? = some (pageReport page) := by
  rw [tellPage, if_pos h]
  rfl

/-- The page has an override, so it does not matter what is told of it. -/
theorem agree_tellPage (page page' : Json) :
    overriddenEdits.BackendsAgree (tellPage page) (tellPage page') := by
  refine ⟨fun _ _ => rfl, fun _ request => ?_⟩
  by_cases h : request.query.textAt? "queryType" = some "segmentMetadata"
  · have hdistinct : ["__time", "page", "added"].Nodup := by decide
    have hpage : "page" ∈ overriddenEdits.overrides.map Attribute.name := by decide
    refine .inr ⟨h, _, _, report_tellPage page h, report_tellPage page' h, hdistinct, ?_⟩
    exact .cons ⟨rfl, fun _ => ⟨rfl, rfl⟩⟩
      (.cons ⟨rfl, fun hnone => absurd hpage hnone⟩ (.cons ⟨rfl, fun _ => ⟨rfl, rfl⟩⟩ .nil))
  · rw [tellPage, tellPage, if_neg h, if_neg h]
    exact .inl rfl

theorem introspect_tellPage (page : Json) : (overriddenEdits.introspect.run (tellPage page) ()).1 =
    (Metadata.ofColumns "time" (pageReport page)).map fun columns =>
      overriddenEdits.introspected (Metadata.timeAttribute "time" :: columns) (some "0.9.2") := by
  have hversion : overriddenEdits.learnVersion.run (tellPage page) () = (.ok (some "0.9.2"), ()) :=
    rfl
  have hcolumns :
      ((overriddenEdits.learnColumns (.segmentMetadata true)).run (tellPage page) ()).1 =
        (Metadata.ofColumns "time" (pageReport page)).map (Metadata.timeAttribute "time" :: ·) :=
    External.run_learnColumns_of_report (report_tellPage page rfl)
  rw [External.introspect_eq rfl, Exchange.run_bind, hversion]
  refine (Exchange.run_bind_done (tellPage page) _ (overriddenEdits.introspected · _) ()).trans ?_
  refine (congrArg (Except.map _) hcolumns).trans ?_
  cases Metadata.ofColumns "time" (pageReport page) <;> rfl

end Sample

open Sample in
/-- The page has an override, so its introspection does not depend on what could be found out. -/
theorem External.introspect_overridden_page :
    overriddenEdits.BackendsAgree (tellPage stringPage) (tellPage faultyPage) ∧
      (overriddenEdits.introspect.run (tellPage stringPage) ()).1 =
        (overriddenEdits.introspect.run (tellPage faultyPage) ()).1 ∧
      ∃ found, (overriddenEdits.introspect.run (tellPage faultyPage) ()).1 = .ok found ∧
        found.columns =
          [.plain "time" .time "__time", .plain "page" .stringSet "STRING",
            { Attribute.plain "added" .number "LONG" with
              unsplitable := true
              maker := some .count },
            .plain "user" .number "LONG"] := by
  have hagree := agree_tellPage stringPage faultyPage
  have hstring : (overriddenEdits.introspect.run (tellPage stringPage) ()).1 = .ok _ :=
    introspect_tellPage stringPage
  have hfaulty : (overriddenEdits.introspect.run (tellPage faultyPage) ()).1 = .ok _ :=
    introspect_tellPage faultyPage
  refine ⟨hagree, (introspect_overridden hagree ()).1.2 fun name _ => ?_, _, hfaulty, rfl⟩
  rw [hstring, hfaulty]
  exact ⟨nofun, nofun⟩

open Sample in
/-- The page has an override, but introspection fails if no native type is told of it. -/
theorem External.introspect_fails_page :
    overriddenEdits.BackendsAgree (tellPage stringPage) (tellPage .null) ∧
      (∃ found, (overriddenEdits.introspect.run (tellPage stringPage) ()).1 = .ok found) ∧
      (overriddenEdits.introspect.run (tellPage .null) ()).1 = .error (.untyped "page") :=
  ⟨agree_tellPage stringPage .null, ⟨_, introspect_tellPage stringPage⟩,
    introspect_tellPage .null⟩

end FederatedQuery
