import FederatedQuery.Proofs.Sample
import FederatedQuery.Proofs.Translation

/-!
# The truth of conditions and of native restrictions

A condition is true or false of a row at a moment, once it is settled which native tests are
true of the row. The connectives and the literal *true* have their usual meaning, the time
attribute overlaps a range if the moment lies in it, and every other predicate is as true as the
native test that it translates to. Native filters are true in the same way; an interval is read
as its text says, that is, with its ends cut to whole milliseconds.

The division of a condition between an interval and a filter keeps its truth, and so does the
filter of an aggregator. Ranges whose ends are no whole milliseconds are left out, since a filter
does not tell their ends apart from the cut ones.

## Main definitions

* `Instant.cut`, `TimeRange.cut`, `TimeRange.IsWhole`: whole milliseconds.
* `Native.Filter.holds`, `Native.Restriction.holds`: the truth of filters and restrictions.
* `Expression.holds`: the truth of conditions.

## Main results

* `Native.Translates.holds_eq`: a native filter is as true as its condition.
* `Native.Restriction.ofCondition_holds`: a restriction is as true as its condition.
* `Aggregate.toNative_holds`: the filter of an aggregator is as true as the filters on its rows.
-/

namespace FederatedQuery

/-! ### Whole milliseconds -/

/-- The start of the millisecond in which an instant lies. -/
def Instant.cut (t : Instant) : Instant :=
  { t with
    nano := t.nano - t.nano % 1000000
    nano_lt := Nat.lt_of_le_of_lt (Nat.sub_le ..) t.nano_lt }

/-- The text with milliseconds says nothing of what is cut off. -/
theorem Instant.millis_cut (t : Instant) : t.cut.millis = t.millis := by
  have hleap : t.cut.isLeap = t.isLeap := by
    refine decide_eq_decide.2 ?_
    simp only [cut]
    omega
  have hsub : t.cut.subsecond / 1000000 = t.subsecond / 1000000 := by
    simp only [subsecond, cut]
    omega
  simp only [millis, millisText, clockText, hleap, hsub]
  rfl

/-- An instant at the start of a millisecond is not changed by cutting. -/
theorem Instant.cut_eq_self {t : Instant} (h : t.nano % 1000000 = 0) : t.cut = t := by
  apply key_inj
  simp only [key, cut, h, Nat.sub_zero]

namespace TimeRange

/-- The range between the starts of two milliseconds that the interval text names. -/
def cut (r : TimeRange) : TimeRange := ⟨r.start.cut, r.stop.cut⟩

/-- A range starts and ends at the start of a millisecond. -/
def IsWhole (r : TimeRange) : Prop := r.start.nano % 1000000 = 0 ∧ r.stop.nano % 1000000 = 0

/-- The interval text of a range is that of the cut range. -/
theorem interval_cut (r : TimeRange) : r.cut.interval = r.interval := by
  simp only [interval, cut, Instant.millis_cut]

theorem IsWhole.cut_eq_self {r : TimeRange} (h : r.IsWhole) : r.cut = r := by
  rw [cut, Instant.cut_eq_self h.1, Instant.cut_eq_self h.2]

end TimeRange

/-- Every range of time in an expression starts and ends at the start of a
millisecond. -/
def Expression.IsWhole (e : Expression) : Prop :=
  ∀ r, .literal (.timeRange r) ∈ e.nodes → r.IsWhole

theorem Expression.isWhole_binary {op : Operator} {a b : Expression} :
    (Expression.binary op a b).IsWhole ↔ a.IsWhole ∧ b.IsWhole := by
  simp only [IsWhole, nodes, List.mem_cons, reduceCtorEq, false_or, List.mem_append, or_imp,
    forall_and]

theorem Expression.isWhole_not {a : Expression} : (Expression.not a).IsWhole ↔ a.IsWhole := by
  simp only [IsWhole, nodes, List.mem_cons, reduceCtorEq, false_or]

theorem Expression.isWhole_timeRange {r : TimeRange} :
    (Expression.literal (.timeRange r)).IsWhole ↔ r.IsWhole := by
  simp [IsWhole, nodes]

namespace Native

/-! ### Truth -/

namespace Filter

/-- Whether a filter tests a row by one of its columns. -/
def isTest : Filter → Bool
  | .interval _ | .and _ | .or _ | .not _ => false
  | _ => true

variable (test : Filter → Bool) (t : Instant)

mutual

/-- Whether a filter holds at the time `t`, given which tests hold. -/
def holds : Filter → Bool
  | .interval range => range.cut.contains t
  | .and fields => allHold fields
  | .or fields => someHolds fields
  | .not field => !field.holds
  | filter => test filter

/-- Whether all filters of a list hold. -/
def allHold : List Filter → Bool
  | [] => true
  | filter :: rest => filter.holds && allHold rest

/-- Whether some filter of a list holds. -/
def someHolds : List Filter → Bool
  | [] => false
  | filter :: rest => filter.holds || someHolds rest

end

theorem holds_of_isTest {f : Filter} (h : f.isTest) : f.holds test t = test f := by
  cases f with
  | interval | and | or | not => exact absurd h Bool.false_ne_true
  | _ => rfl

theorem allHold_eq : (fs : List Filter) → allHold test t fs = fs.all (holds test t)
  | [] => rfl
  | f :: fs => by rw [allHold, List.all_cons, allHold_eq fs]

theorem someHolds_eq : (fs : List Filter) → someHolds test t fs = fs.any (holds test t)
  | [] => rfl
  | f :: fs => by rw [someHolds, List.any_cons, someHolds_eq fs]

@[simp] theorem holds_and (fs : List Filter) :
    (Filter.and fs).holds test t = fs.all (holds test t) := by
  rw [holds, allHold_eq]

@[simp] theorem holds_or (fs : List Filter) :
    (Filter.or fs).holds test t = fs.any (holds test t) := by
  rw [holds, someHolds_eq]

/-- A filter holds if all its conjuncts do. -/
theorem all_conjuncts (f : Filter) : f.conjuncts.all (holds test t) = f.holds test t := by
  cases f with
  | and fs => exact (holds_and test t fs).symm
  | _ => exact Bool.and_true _

/-- A filter holds if one of its disjuncts does. -/
theorem any_disjuncts (f : Filter) : f.disjuncts.any (holds test t) = f.holds test t := by
  cases f with
  | or fs => exact (holds_or test t fs).symm
  | _ => exact Bool.or_false _

end Filter

/-- Whether a restriction holds at the time `t`, given which tests hold. -/
def Restriction.holds (test : Filter → Bool) (t : Instant) (r : Restriction) : Bool :=
  r.interval.all (·.contains t) && r.filter.all (·.holds test t)

end Native

open Native

/-- Whether a condition on the rows of `x` holds at the time `t`, given which native tests
hold. -/
def Expression.holds (x : External) (test : Filter → Bool) (t : Instant) : Expression → Bool
  | .binary (.connective .and) a b => a.holds x test t && b.holds x test t
  | .binary (.connective .or) a b => a.holds x test t || b.holds x test t
  | .not a => !a.holds x test t
  | .literal value => value.isTrue
  | e =>
    match Restriction.timeRange? x e with
    | some range => range.contains t
    | none => (filterOf x e).toOption.any test

/-! ### Filters of conditions -/

namespace Native

variable {x : External} {test : Filter → Bool} {t : Instant}

theorem isTest_of_equalityTest? {name : String} {value : Value} {f : Filter}
    (h : equalityTest? name value = some f) : f.isTest := by
  unfold equalityTest? at h
  split at h
  · cases h
    rfl
  · obtain ⟨text, -, rfl⟩ := Option.map_eq_some_iff.1 h
    rfl

/-- A predicate that is no range of time holds if the test that it translates to does. -/
theorem holds_of_predicate {e : Expression} {f : Filter}
    (hrange : Restriction.timeRange? x e = none) (h : Translates x e f) (hf : f.isTest) :
    f.holds test t = match Restriction.timeRange? x e with
      | some range => range.contains t
      | none => (filterOf x e).toOption.any test := by
  rw [hrange, filterOf_eq_ok_iff.2 h]
  exact Filter.holds_of_isTest test t hf

/-- **A native filter is as true as its condition.** -/
theorem Translates.holds_eq {e : Expression} {f : Filter} (h : Translates x e f)
    (he : e.IsWhole) : f.holds test t = e.holds x test t := by
  induction h with
  | equal hoffers htime htest =>
    exact holds_of_predicate rfl (.equal hoffers htime htest) (isTest_of_equalityTest? htest)
  | equalTo hoffers htime htest =>
    exact holds_of_predicate rfl (.equalTo hoffers htime htest) (isTest_of_equalityTest? htest)
  | during range =>
    have hwhole := Expression.isWhole_timeRange.1 (Expression.isWhole_binary.1 he).2
    simp only [Filter.holds, hwhole.cut_eq_self, Expression.holds, Restriction.timeRange?,
      External.isTimeRef, beq_self_eq_true, if_true]
  | among values hoffers htime => exact holds_of_predicate rfl (.among values hoffers htime) rfl
  | within range hoffers htime => exact holds_of_predicate rfl (.within range hoffers htime) rfl
  | contains text hoffers => exact holds_of_predicate rfl (.contains text hoffers) rfl
  | compare c hoffers htime htext =>
    exact holds_of_predicate rfl (.compare c hoffers htime htext) (by cases c <;> rfl)
  | regex pattern hoffers => exact holds_of_predicate rfl (.regex pattern hoffers) rfl
  | and _ _ iha ihb =>
    obtain ⟨ha, hb⟩ := Expression.isWhole_binary.1 he
    rw [Filter.holds_and, List.all_append, Filter.all_conjuncts, Filter.all_conjuncts, iha ha,
      ihb hb]
    rfl
  | or _ _ iha ihb =>
    obtain ⟨ha, hb⟩ := Expression.isWhole_binary.1 he
    rw [Filter.holds_or, List.any_append, Filter.any_disjuncts, Filter.any_disjuncts, iha ha,
      ihb hb]
    rfl
  | not _ ih =>
    rw [Filter.holds, ih (Expression.isWhole_not.1 he)]
    rfl

/-! ### Restrictions -/

end Native

theorem Instant.max_le_iff {a b c : Instant} : max a b ≤ c ↔ a ≤ c ∧ b ≤ c := by
  change (if a ≤ b then b else a) ≤ c ↔ _
  split <;> simp only [le_iff] at * <;> omega

theorem Instant.lt_min_iff {a b c : Instant} : c < min a b ↔ c < a ∧ c < b := by
  change c < (if a ≤ b then a else b) ↔ _
  split <;> simp only [le_iff, lt_iff] at * <;> omega

namespace Native.Restriction

variable {x : External} {test : Filter → Bool} {t : Instant}

/-- Narrowing leaves the instants that lie in both ranges. -/
theorem contains_narrow (current : Option TimeRange) (range : TimeRange) :
    (narrow current range).contains t = (current.all (·.contains t) && range.contains t) := by
  cases current with
  | none => rfl
  | some c =>
    rw [Option.all_some, Bool.eq_iff_iff, Bool.and_eq_true, TimeRange.contains_iff,
      TimeRange.contains_iff, TimeRange.contains_iff]
    unfold narrow TimeRange.intersect?
    by_cases h : max c.start range.start < min c.stop range.stop
    · simp only [if_pos h, Option.getD_some]
      rw [Instant.max_le_iff, Instant.lt_min_iff]
      exact and_and_and_comm
    · simp only [if_neg h, Option.getD_none]
      constructor
      · rintro ⟨hge, hlt⟩
        exact absurd (Instant.lt_iff.1 hlt) (Int.not_lt.2 (Instant.le_iff.1 hge))
      · rintro ⟨⟨hc, hc'⟩, hr, hr'⟩
        have hmax := Instant.le_iff.1 (Instant.max_le_iff.2 ⟨hc, hr⟩)
        have hmin := Instant.lt_iff.1 (Instant.lt_min_iff.2 ⟨hc', hr'⟩)
        exact absurd (Instant.lt_iff.2 (Int.lt_of_le_of_lt hmax hmin)) h

/-- Narrowing chooses its ends among those of the two ranges. -/
theorem isWhole_narrow {current : Option TimeRange} {range : TimeRange}
    (hcurrent : ∀ c ∈ current, c.IsWhole) (hrange : range.IsWhole) :
    (narrow current range).IsWhole := by
  cases current with
  | none => exact hrange
  | some c =>
    obtain ⟨hstart, hstop⟩ := hcurrent c rfl
    have hmax : (max c.start range.start).nano % 1000000 = 0 := by
      change (if c.start ≤ range.start then range.start else c.start).nano % 1000000 = 0
      split
      exacts [hrange.1, hstart]
    have hmin : (min c.stop range.stop).nano % 1000000 = 0 := by
      change (if c.stop ≤ range.stop then c.stop else range.stop).nano % 1000000 = 0
      split
      exacts [hstop, hrange.2]
    unfold narrow TimeRange.intersect?
    by_cases h : max c.start range.start < min c.stop range.stop
    · simpa only [if_pos h, Option.getD_some] using ⟨hmax, hmin⟩
    · simpa only [if_neg h, Option.getD_none] using ⟨hmax, hmax⟩

/-- A conjunct that narrows time to a range holds in that range. -/
theorem holds_of_timeRange? {e : Expression} {range : TimeRange}
    (h : timeRange? x e = some range) : e.holds x test t = range.contains t := by
  unfold timeRange? at h
  split at h
  · next a r =>
    split at h
    · next htime =>
      cases h
      simp only [Expression.holds, timeRange?, if_pos htime]
    · exact nomatch h
  · exact nomatch h

theorem isWhole_of_timeRange? {e : Expression} {range : TimeRange}
    (h : timeRange? x e = some range) (he : e.IsWhole) : range.IsWhole := by
  unfold timeRange? at h
  split at h
  · next a r =>
    split at h
    · cases h
      exact Expression.isWhole_timeRange.1 (Expression.isWhole_binary.1 he).2
    · exact nomatch h
  · exact nomatch h

theorem holds_of_isTrivial {e : Expression} (h : isTrivial e) : e.holds x test t := by
  unfold isTrivial at h
  split at h
  · rfl
  · exact absurd h Bool.false_ne_true

/-- Whether a restriction in the making holds. -/
def partHolds (test : Filter → Bool) (t : Instant) (state : Option TimeRange × List Filter) :
    Bool :=
  state.1.all (·.contains t) && state.2.all (·.holds test t)

/-- One more conjunct restricts by what it says. -/
theorem addConjunct_holds (test : Filter → Bool) (t : Instant)
    {state state' : Option TimeRange × List Filter} {e : Expression}
    (he : e.IsWhole) (hstate : ∀ r ∈ state.1, r.IsWhole)
    (h : addConjunct x state e = .ok state') :
    partHolds test t state' = (partHolds test t state && e.holds x test t) ∧
      ∀ r ∈ state'.1, r.IsWhole := by
  unfold addConjunct at h
  split at h
  · next range hrange =>
    cases h
    refine ⟨?_, fun r hr => ?_⟩
    · simp only [partHolds, Option.all_some, contains_narrow, holds_of_timeRange? hrange]
      exact Bool.and_right_comm ..
    · cases hr
      exact isWhole_narrow hstate (isWhole_of_timeRange? hrange he)
  · split at h
    · next htrivial =>
      cases h
      exact ⟨by rw [holds_of_isTrivial htrivial, Bool.and_true], hstate⟩
    · obtain ⟨f, hf, rfl⟩ := Except.map_eq_ok.1 h
      refine ⟨?_, hstate⟩
      simp only [partHolds, List.all_append, List.all_cons, List.all_nil, Bool.and_true,
        (filterOf_eq_ok_iff.1 hf).holds_eq he, Bool.and_assoc]

/-- Conjuncts, added one after the other, restrict by all that they say. -/
theorem foldlM_addConjunct_holds (test : Filter → Bool) (t : Instant) {es : List Expression}
    {state state' : Option TimeRange × List Filter} (hes : ∀ e ∈ es, e.IsWhole)
    (hstate : ∀ r ∈ state.1, r.IsWhole) (h : es.foldlM (addConjunct x) state = .ok state') :
    partHolds test t state' = (partHolds test t state && es.all (·.holds x test t)) ∧
      ∀ r ∈ state'.1, r.IsWhole := by
  induction es generalizing state with
  | nil =>
    cases h
    exact ⟨(Bool.and_true _).symm, hstate⟩
  | cons e es ih =>
    rw [List.foldlM_cons] at h
    obtain ⟨next, hnext, h⟩ := Except.bind_eq_ok.1 h
    obtain ⟨he, hes⟩ := List.forall_mem_cons.1 hes
    obtain ⟨hholds, hwhole⟩ := addConjunct_holds test t he hstate hnext
    obtain ⟨hrest, hwhole⟩ := ih hes hwhole h
    exact ⟨by rw [hrest, hholds, List.all_cons, Bool.and_assoc], hwhole⟩

end Native.Restriction

/-- A condition holds if all its conjuncts do. -/
theorem Expression.all_conjuncts_holds (x : External) (test : Filter → Bool) (t : Instant)
    (e : Expression) : e.conjuncts.all (·.holds x test t) = e.holds x test t := by
  induction e with
  | binary op a b iha ihb =>
    by_cases hop : op = .connective .and
    · subst hop
      rw [conjuncts, List.all_append, iha, ihb]
      rfl
    · unfold conjuncts
      split
      · next heq =>
        cases heq
        exact absurd rfl hop
      · exact Bool.and_true _
  | _ => exact Bool.and_true _

theorem Expression.isWhole_of_mem_conjuncts {e c : Expression} (he : e.IsWhole)
    (hc : c ∈ e.conjuncts) : c.IsWhole := by
  induction e with
  | binary op a b iha ihb =>
    unfold conjuncts at hc
    split at hc
    · next heq =>
      cases heq
      obtain ⟨ha, hb⟩ := isWhole_binary.1 he
      exact (List.mem_append.1 hc).elim (iha ha) (ihb hb)
    · exact List.mem_singleton.1 hc ▸ he
  | _ => exact List.mem_singleton.1 hc ▸ he

namespace Native.Restriction

variable {x : External} {test : Filter → Bool} {t : Instant}

theorem all_conjunction (fs : List Filter) :
    (conjunction fs).all (·.holds test t) = fs.all (·.holds test t) := by
  match fs with
  | [] => rfl
  | [f] => exact (Bool.and_true _).symm
  | f :: g :: rest => exact Filter.holds_and test t _

/-- **A restriction is as true as its condition**, and its interval has whole milliseconds. -/
theorem ofCondition_holds (test : Filter → Bool) (t : Instant) {condition : Option Expression}
    {r : Restriction} (he : ∀ e ∈ condition, e.IsWhole) (h : ofCondition x condition = .ok r) :
    r.holds test t = condition.all (·.holds x test t) ∧ ∀ i ∈ r.interval, i.IsWhole := by
  cases condition with
  | none =>
    cases h
    exact ⟨rfl, fun i hi => absurd hi (Option.not_mem_none i)⟩
  | some e =>
    obtain ⟨state, hstate, h⟩ := Except.bind_eq_ok.1 h
    cases h
    have hconjuncts : ∀ c ∈ e.conjuncts, c.IsWhole := fun c hc =>
      Expression.isWhole_of_mem_conjuncts (he e rfl) hc
    obtain ⟨hholds, hwhole⟩ :=
      foldlM_addConjunct_holds test t hconjuncts
        (fun i hi => absurd hi (Option.not_mem_none i)) hstate
    refine ⟨?_, hwhole⟩
    rw [holds, all_conjunction]
    exact hholds.trans (Expression.all_conjuncts_holds x test t e)

/-- A restriction whose interval has whole milliseconds holds if its filter does. -/
theorem all_toFilter {r : Restriction} (hr : ∀ i ∈ r.interval, i.IsWhole) :
    r.toFilter.all (·.holds test t) = r.holds test t := by
  obtain ⟨_ | range, _ | filter⟩ := r
  · rfl
  · rfl
  · simp only [toFilter, holds, Option.all_some, Option.all_none, Filter.holds,
      (hr range rfl).cut_eq_self, Bool.and_true]
  · simp only [toFilter, holds, Option.all_some]
    rw [Filter.holds_and, List.all_cons, List.all_cons, List.all_nil, Bool.and_true,
      Filter.holds, (hr range rfl).cut_eq_self]

end Native.Restriction

/-! ### Filters on the rows of an aggregate -/

theorem Expression.foldl_conj_holds (x : External) (test : Filter → Bool) (t : Instant) :
    (ps : List Expression) → (e : Expression) →
      (ps.foldl conj e).holds x test t = (e.holds x test t && ps.all (·.holds x test t))
  | [], e => (Bool.and_true _).symm
  | p :: ps, e => by
      rw [List.foldl_cons, foldl_conj_holds x test t ps, List.all_cons, ← Bool.and_assoc]
      rfl

theorem Expression.isWhole_foldl_conj : (ps : List Expression) → (e : Expression) →
    e.IsWhole → (∀ p ∈ ps, p.IsWhole) → (ps.foldl conj e).IsWhole
  | [], _, he, _ => he
  | p :: ps, e, he, hps => by
      obtain ⟨hp, hps⟩ := List.forall_mem_cons.1 hps
      exact isWhole_foldl_conj ps (e.conj p) (isWhole_binary.2 ⟨he, hp⟩) hps

/-- The condition that filters put on a row says what all of them say. -/
theorem Expression.conjunction_holds (x : External) (test : Filter → Bool) (t : Instant)
    (ps : List Expression) :
    (conjunction ps).all (·.holds x test t) = ps.all (·.holds x test t) := by
  obtain rfl | ⟨init, last, rfl⟩ := ps.eq_nil_or_concat'
  · rfl
  · rw [conjunction, List.getLast?_concat, List.dropLast_concat, Option.map_some,
      Option.all_some, foldl_conj_holds, List.all_append, Bool.and_comm, List.all_cons,
      List.all_nil, Bool.and_true]

theorem Expression.isWhole_conjunction {ps : List Expression} (hps : ∀ p ∈ ps, p.IsWhole) :
    ∀ e ∈ conjunction ps, e.IsWhole := by
  obtain rfl | ⟨init, last, rfl⟩ := ps.eq_nil_or_concat'
  · exact nofun
  · rw [conjunction, List.getLast?_concat, List.dropLast_concat]
    rintro e ⟨⟩
    obtain ⟨hinit, hlast⟩ := List.forall_mem_append.1 hps
    exact isWhole_foldl_conj init last (hlast last (List.mem_singleton_self last)) hinit

/-- **The filter of an aggregator is as true as the filters on its rows.** -/
theorem Aggregate.toNative_holds (test : Filter → Bool) (t : Instant) {x : External}
    {dataName name : String} {e rows : Expression} {a : Aggregator}
    (hrows : e.operand? = some rows) (hwhole : ∀ p ∈ rows.unfilter.2, p.IsWhole)
    (h : toNative x dataName name e = .ok a) :
    a.filter.all (·.holds test t) = rows.unfilter.2.all (·.holds x test t) := by
  obtain ⟨computed, r, -, hr, rfl⟩ := eq_of_toNative hrows h
  obtain ⟨hholds, hinterval⟩ := Restriction.ofCondition_holds test t
    (Expression.isWhole_conjunction hwhole) hr
  rw [Restriction.all_toFilter hinterval, hholds, Expression.conjunction_holds]

/-! ### Conditions divided -/

/-- **Dividing a condition keeps its truth.** Take any moment and any truth values of the native
tests. A condition that becomes a restriction is true if and only if the moment lies in the
interval, if there is one, and the filter is true, if there is one. The filters on the rows of
an aggregate that becomes an aggregator are all true if and only if the filter of the aggregator
is, if there is one. -/
theorem Native.Restriction.truth_preserved (x : External) (test : Filter → Bool) (t : Instant) :
    (∀ (e : Expression) (r : Restriction), e.IsWhole → ofCondition x (some e) = .ok r →
      (e.holds x test t ↔
        (∀ i ∈ r.interval, i.contains t) ∧ ∀ f ∈ r.filter, f.holds test t)) ∧
    ∀ (dataName name : String) (e rows : Expression) (a : Aggregator),
      e.operand? = some rows → (∀ p ∈ rows.unfilter.2, p.IsWhole) →
      Aggregate.toNative x dataName name e = .ok a →
      ((∀ p ∈ rows.unfilter.2, p.holds x test t) ↔ ∀ f ∈ a.filter, f.holds test t) := by
  constructor
  · intro e r he h
    have hwhole : ∀ c ∈ some e, c.IsWhole := fun _ hc => Option.some.inj hc ▸ he
    obtain ⟨hholds, -⟩ := ofCondition_holds test t hwhole h
    rw [Option.all_some] at hholds
    rw [← hholds, holds, Bool.and_eq_true, Option.all_eq_true, Option.all_eq_true]
    rfl
  · intro dataName name e rows a hrows hwhole h
    have hholds := Aggregate.toNative_holds test t hrows hwhole h
    rw [← List.all_eq_true, ← hholds, Option.all_eq_true]
    rfl

namespace Sample

/-- The edits of the first ten seconds in English or of the first five, but only from the
seventh second on. -/
def lateEnglish : Expression :=
  let overlap (a b : Fin 1000) : Expression :=
    (Expression.ref "time").overlapWith (.literal (.timeRange (seconds a b)))
  let english := (Expression.ref "language").eqTo (.literal (.string "en"))
  (overlap 0 10).conj
    ((Expression.binary (.connective .or) english (overlap 0 5)).conj
      ((Expression.literal (.boolean true)).conj (overlap 7 90)))

/-- The restriction to those edits. -/
def lateEdits : Restriction :=
  ⟨some (seconds 7 10), some (.or [.selector "language" (some "en"), .interval (seconds 0 5)])⟩

/-- The tests that hold of an edit in English. -/
def inEnglish : Filter → Bool
  | .selector "language" (some "en") => true
  | _ => false

/-- The rows of those edits. -/
def lateRows : Expression := .filter (.ref "edits") lateEnglish

/-- The number of those edits. -/
def lateCount : Aggregator := ⟨"Count", .count, lateEdits.toFilter⟩

end Sample

open Sample in
/-- At the eighth second an English edit is among the late ones, both as a condition and as a
restriction, and it counts among the late edits. -/
theorem Native.Restriction.truth_preserved_lateEnglish :
    lateEnglish.IsWhole ∧ ofCondition edits (some lateEnglish) = .ok lateEdits ∧
      Aggregate.toNative edits "edits" "Count" (.count lateRows) = .ok lateCount ∧
      (lateEnglish.holds edits inEnglish (second 8) ↔
        (∀ i ∈ lateEdits.interval, i.contains (second 8)) ∧
          ∀ f ∈ lateEdits.filter, f.holds inEnglish (second 8)) ∧
      ((∀ p ∈ lateRows.unfilter.2, p.holds edits inEnglish (second 8)) ↔
        ∀ f ∈ lateCount.filter, f.holds inEnglish (second 8)) := by
  have hwhole : lateEnglish.IsWhole := by
    intro r hr
    have hr : r = seconds 0 10 ∨ r = seconds 0 5 ∨ r = seconds 7 90 := by
      simpa [lateEnglish, Expression.conj, Expression.eqTo, Expression.overlapWith,
        Expression.nodes] using hr
    rcases hr with rfl | rfl | rfl <;> exact ⟨rfl, rfl⟩
  obtain ⟨hcondition, haggregate⟩ := truth_preserved edits inEnglish (second 8)
  refine ⟨hwhole, rfl, rfl, hcondition lateEnglish lateEdits hwhole rfl, ?_⟩
  exact haggregate "edits" "Count" (.count lateRows) lateRows lateCount rfl
    (fun p hp => List.mem_singleton.1 hp ▸ hwhole) rfl

end FederatedQuery
