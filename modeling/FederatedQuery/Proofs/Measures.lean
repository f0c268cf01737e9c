import FederatedQuery.Proofs.Hoisting
import FederatedQuery.Proofs.References

/-!
# What aggregates are computed from

A column of plain numbers can be summed, and its minimum and maximum taken. A pre-aggregated column
combines further only in the way in which it was made, and its maker says which way that is; without
a maker it combines in no way at all. Distinct values are counted where a column can be split by, or
where the backend keeps sketches of them.

These rules are stated here for themselves, and compared with what the compiler does: an aggregate
is computed natively by these rules, and by no others. So whichever way an aggregate has come into a
pattern, as a result of its own, under filters, in an average or within arithmetic, the native
aggregator that stands for it is one that its column supports.

## Main definitions

* `Attribute.Combines`, `Attribute.Measures`: the rules.
* `Attribute.Supports`: the columns from which a native computation may be made.
* `External.Computes`: the native computations of an aggregate.

## Main results

* `Aggregate.aggregation_eq_ok_iff`: the compiler follows the rules.
* `Attribute.Measures.supports`: the rules lead to computations that the column supports.
* `Pattern.aggregators_supported`: the aggregators of a compiled pattern.
-/

namespace FederatedQuery

open Native

/-! ### Rules -/

/-- What an accumulation measures. -/
def Accumulation.measure : Accumulation → Measure
  | .sum => .sum
  | .min => .min
  | .max => .max

/-- What a native computation measures; the number of rows is no measure of a column. -/
def Native.Aggregation.measure? : Aggregation → Option Measure
  | .count => none
  | .longSum _ | .doubleSum _ => some .sum
  | .doubleMin _ => some .min
  | .doubleMax _ => some .max
  | .hyperUnique _ | .cardinality _ => some .countDistinct

namespace Attribute

/-- A column combines in the way in which it was made, where a number of rows combines to a sum. A
column that was not made from others combines in every way if it holds numbers and is no metric. -/
inductive Combines (column : Attribute) : Accumulation → Prop
  | counted (hmaker : column.maker = some .count) : Combines column .sum
  | made {how : Accumulation} {e : Expression}
      (hmaker : column.maker = some (.accumulate how e)) : Combines column how
  | plain {how : Accumulation} (hmaker : column.maker = none)
      (hsplit : column.unsplitable = false) (hkind : column.kind = .number) : Combines column how

/-- A column is one that a native computation may be made from. -/
def Supports (column : Attribute) : Aggregation → Prop
  | .count => False
  | .longSum _ | .doubleSum _ => column.Combines .sum
  | .doubleMin _ => column.Combines .min
  | .doubleMax _ => column.Combines .max
  | .cardinality _ =>
    column.unsplitable = false ∧ column.kind ∈ [Kind.string, Kind.stringSet, Kind.null]
  | .hyperUnique _ => column.nativeType = some "hyperUnique"

/-- The native computation of a measure of a column. It reads the field that the maker of the column
names, or else the column itself. -/
inductive Measures (column : Attribute) : Measure → Aggregation → Prop
  | counted (hmaker : column.maker = some .count) : Measures column .sum (.longSum column.name)
  | made {how : Accumulation} {e : Expression}
      (hmaker : column.maker = some (.accumulate how e)) :
      Measures column how.measure
        (Aggregate.floating how ((Maker.accumulate how e).field?.getD column.name))
  | plain {how : Accumulation} (hmaker : column.maker = none)
      (hsplit : column.unsplitable = false) (hkind : column.kind = .number) :
      Measures column how.measure (Aggregate.ofPlain how column)
  | sketch (hnative : column.nativeType = some "hyperUnique") :
      Measures column .countDistinct (.hyperUnique column.name)
  | distinct (hnative : column.nativeType ≠ some "hyperUnique")
      (hsplit : column.unsplitable = false)
      (hkind : column.kind ∈ [Kind.string, Kind.stringSet, Kind.null]) :
      Measures column .countDistinct (.cardinality column.name)

variable {column : Attribute} {m : Measure} {a : Aggregation}

theorem supports_floating {how : Accumulation} (h : column.Combines how) (field : String) :
    (Aggregate.floating how field).measure? = some how.measure ∧
      column.Supports (Aggregate.floating how field) := by
  cases how <;> exact ⟨rfl, h⟩

/-- **The rules are sound.** A measure is computed as what it is, and the column supports it. -/
theorem Measures.supports (h : column.Measures m a) : a.measure? = some m ∧ column.Supports a := by
  cases h with
  | counted hmaker => exact ⟨rfl, .counted hmaker⟩
  | made hmaker => exact supports_floating (.made hmaker) _
  | @plain how hmaker hsplit hkind =>
    have hcombines : column.Combines how := .plain hmaker hsplit hkind
    unfold Aggregate.ofPlain
    split
    · next hlong =>
      obtain rfl := hlong.1
      exact ⟨rfl, hcombines⟩
    · exact supports_floating hcombines _
  | sketch hnative => exact ⟨rfl, hnative⟩
  | distinct _ hsplit hkind => exact ⟨rfl, hsplit, hkind⟩

/-- A metric without a maker combines in no way. -/
theorem not_combines (hmaker : column.maker = none) (hmetric : column.unsplitable)
    (how : Accumulation) : ¬column.Combines how := by
  intro h
  cases h with
  | counted h | made h => exact nomatch hmaker.symm.trans h
  | plain _ hsplit => exact nomatch hmetric.symm.trans hsplit

/-- A metric without a maker supports nothing but a count of distinct values. -/
theorem Supports.eq_countDistinct (h : column.Supports a) (hmaker : column.maker = none)
    (hmetric : column.unsplitable) : a.measure? = some .countDistinct := by
  cases a with
  | count => exact h.elim
  | hyperUnique | cardinality => rfl
  | _ => exact absurd h (not_combines hmaker hmetric _)

end Attribute

/-! ### The compiler follows the rules -/

/-- The native computations of an aggregate over rows of a datasource. A measure is one of a column
that is known. -/
inductive External.Computes (x : External) : Expression → Aggregation → Prop
  | count (rows : Expression) : Computes x (.count rows) .count
  | measure {m : Measure} {name : String} {column : Attribute} {a : Aggregation}
      (rows : Expression) (hcolumn : x.attribute? name = some column)
      (hmeasures : column.Measures m a) : Computes x (.binary (.measure m) rows (.ref name)) a

theorem Accumulation.measure_inj {how how' : Accumulation} (h : how.measure = how'.measure) :
    how = how' := by
  cases how <;> cases how' <;> first | rfl | exact nomatch h

namespace Aggregate

variable {x : External} {column : Attribute} {a : Aggregation}

theorem column_eq_ok_iff {field : Expression} :
    Aggregate.column x field = .ok column ↔
      ∃ name, field = .ref name ∧ x.attribute? name = some column := by
  unfold Aggregate.column
  constructor
  · intro h
    split at h
    · next name =>
      split at h
      · next found hfound =>
        cases h
        exact ⟨name, rfl, hfound⟩
      · exact nomatch h
    · exact nomatch h
  · rintro ⟨name, rfl, hcolumn⟩
    simp only [hcolumn]

/-- Combining follows the rules. -/
theorem accumulation_eq_ok_iff {how : Accumulation} :
    accumulation how column = .ok a ↔ column.Measures how.measure a := by
  unfold accumulation
  constructor
  · intro h
    dsimp only at h
    split at h
    · next hmaker =>
      split at h
      · next hsum =>
        cases h
        exact hsum ▸ .counted hmaker
      · exact nomatch h
    · next made e hmaker =>
      split at h
      · next hmade =>
        cases h
        subst hmade
        exact .made hmaker
      · exact nomatch h
    · next hmaker =>
      split at h
      · exact nomatch h
      next hsplit =>
      split at h
      · next hkind =>
        cases h
        exact .plain hmaker (Bool.not_eq_true _ ▸ hsplit) hkind
      · exact nomatch h
  · intro h
    generalize hm : how.measure = m at h
    cases h with
    | counted hmaker =>
      obtain rfl : how = .sum := Accumulation.measure_inj hm
      simp only [hmaker, if_true]
    | made hmaker =>
      obtain rfl := Accumulation.measure_inj hm
      simp only [hmaker, if_true]
    | plain hmaker hsplit hkind =>
      obtain rfl := Accumulation.measure_inj hm
      simp only [hmaker, hsplit, hkind, Bool.false_eq_true, if_false, if_true]
    | sketch | distinct => cases how <;> exact nomatch hm

/-- Counting distinct values follows the rules. -/
theorem distinctCount_eq_ok_iff :
    distinctCount column = .ok a ↔ column.Measures .countDistinct a := by
  have hkinds : column.kind.isAssignableToAny [.string, .stringSet] ↔
      column.kind ∈ [Kind.string, Kind.stringSet, Kind.null] := by
    rw [Kind.isAssignableToAny_cons]
    simp only [List.mem_cons, List.not_mem_nil, or_false, or_assoc]
  unfold distinctCount
  constructor
  · intro h
    split at h
    · next hnative =>
      cases h
      exact .sketch hnative
    next hnative =>
    split at h
    · exact nomatch h
    next hrefused =>
    cases h
    rw [Bool.or_eq_true, not_or, Bool.not_eq_true, Bool.not_eq_true', Bool.not_eq_false] at hrefused
    exact .distinct hnative hrefused.1 (hkinds.1 hrefused.2)
  · intro h
    generalize hm : Measure.countDistinct = m at h
    cases h with
    | counted => exact nomatch hm
    | @made how | @plain how => cases how <;> exact nomatch hm
    | sketch hnative => rw [if_pos hnative]
    | distinct hnative hsplit hkind =>
      rw [if_neg hnative, if_neg]
      rw [hsplit, hkinds.2 hkind]
      exact Bool.false_ne_true

/-- **The compiler follows the rules.** An aggregate is computed natively exactly by them. -/
theorem aggregation_eq_ok_iff {e : Expression} : aggregation x e = .ok a ↔ x.Computes e a := by
  constructor
  · intro h
    have measured {m : Measure} {field rows : Expression}
        {compute : Attribute → Except CompileError Aggregation}
        (h : Aggregate.column x field >>= compute = .ok a)
        (hcompute : ∀ column, compute column = .ok a → column.Measures m a) :
        x.Computes (.binary (.measure m) rows field) a := by
      obtain ⟨column, hcolumn, hcomputed⟩ := Except.bind_eq_ok.1 h
      obtain ⟨name, rfl, hknown⟩ := column_eq_ok_iff.1 hcolumn
      exact .measure rows hknown (hcompute column hcomputed)
    unfold aggregation at h
    split at h
    · cases h
      exact .count _
    · exact measured h fun _ => accumulation_eq_ok_iff.1
    · exact measured h fun _ => accumulation_eq_ok_iff.1
    · exact measured h fun _ => accumulation_eq_ok_iff.1
    · exact measured h fun _ => distinctCount_eq_ok_iff.1
    · exact nomatch h
  · intro h
    cases h with
    | count => rfl
    | @measure m name column _ rows hcolumn hmeasures =>
      have hfound := column_eq_ok_iff.2 ⟨name, rfl, hcolumn⟩
      cases m with
      | average => cases a <;> exact nomatch hmeasures.supports.1
      | countDistinct =>
        exact Except.bind_eq_ok.2 ⟨column, hfound, distinctCount_eq_ok_iff.2 hmeasures⟩
      | _ => exact Except.bind_eq_ok.2 ⟨column, hfound, accumulation_eq_ok_iff.2 hmeasures⟩

end Aggregate

/-! ### The aggregators of a pattern -/

/-- A query asks for aggregates, for all rows or for groups, by the given aggregators. -/
inductive Native.Shape.Aggregates (aggregators : List Aggregator) : Shape → Prop
  | totals : Aggregates aggregators (.totals aggregators)
  | timeseries (period : Period) (descending : Bool) :
    Aggregates aggregators (.timeseries period aggregators descending)
  | topN (dimension : Dimension) (metric : SortKey) (threshold : Nat) :
    Aggregates aggregators (.topN dimension metric threshold aggregators)
  | groupBy (dimension : Dimension) (order : Option SortKey) (limit : Nat) :
    Aggregates aggregators (.groupBy dimension aggregators order limit)

/-- The aggregators of a query stand in its document. -/
theorem Native.Query.get?_aggregations {q : Query} {aggregators : List Aggregator}
    (h : q.shape.Aggregates aggregators) :
    q.toJson.get? "aggregations" = some (.array (aggregators.map Aggregator.toJson)) := by
  rw [get?_toJson q (by decide)]
  generalize q.shape = shape at h
  cases h <;> rfl

/-- A native aggregator serves an output, given by its name and its aggregate: it has the name and
computes the aggregate by the rules. For a measure of an attribute it is of the type of that
measure, and the attribute is known and supports it; of a metric without a maker nothing but the
number of distinct values is measured. -/
structure Native.Aggregator.Serves (x : External) (output : String × Expression) (a : Aggregator) :
    Prop where
  name : a.name = output.1
  computes : x.Computes output.2 a.aggregation
  supported : ∀ m rows field, output.2 = .binary (.measure m) rows field →
    ∃ name column, field = .ref name ∧ x.attribute? name = some column ∧
      a.aggregation.measure? = some m ∧ column.Supports a.aggregation ∧
      (column.maker = none → column.unsplitable → m = .countDistinct)

/-- The native aggregator of an aggregate serves it. -/
theorem Native.Aggregator.serves_of_toNative {x : External} {dataName : String}
    {output : String × Expression} {a : Aggregator}
    (h : Aggregate.toNative x dataName output.1 output.2 = .ok a) : a.Serves x output := by
  obtain ⟨name, e⟩ := output
  have hcomputes : x.Computes e a.aggregation := by
    cases hrows : e.operand? with
    | none =>
      simp only [Aggregate.toNative, hrows] at h
      exact nomatch h
    | some rows =>
      obtain ⟨computed, r, hcomputed, -, rfl⟩ := Aggregate.eq_of_toNative hrows h
      exact Aggregate.aggregation_eq_ok_iff.1 hcomputed
  refine ⟨Aggregate.name_of_toNative h, hcomputes, fun m rows field hmeasure => ?_⟩
  obtain rfl : e = .binary (.measure m) rows field := hmeasure
  cases hcomputes with
  | @measure _ name column _ _ hcolumn hmeasures =>
    obtain ⟨htype, hsupports⟩ := hmeasures.supports
    refine ⟨name, column, rfl, hcolumn, htype, hsupports, fun hmaker hmetric => ?_⟩
    exact Option.some.inj (htype.symm.trans (hsupports.eq_countDistinct hmaker hmetric))

namespace Sample

/-- Edits that the backend has merged: it has counted them, added up the characters and kept
sketches of their users. -/
def mergedEdits : External :=
  { edits with
    attributes := some
      [.plain "time" .time "__time", .plain "page" .string "STRING",
        ⟨"count", .number, some "LONG", true, some .count⟩,
        ⟨"added", .number, some "LONG", true, some (.ofField .sum "added")⟩,
        ⟨"users", .null, some "hyperUnique", true, none⟩] }

/-- The merged edits of all pages but the front page. -/
def beyondFront : Expression :=
  .filter (.ref "edits") (.not ((Expression.ref "page").eqTo (.literal (.string "Front"))))

/-- A number of edits, and the average of added characters for each user. -/
def mergedTotals : Pattern :=
  ⟨.ofExternal mergedEdits, "edits", none,
    [("Edits", .scalar (.binary (.measure .sum) beyondFront (.ref "count"))),
      ("Share", .scalar (.binary (.arithmetic .divide)
        (.binary (.measure .average) (.ref "edits") (.ref "added"))
        (.binary (.measure .countDistinct) (.ref "edits") (.ref "users"))))], none, none⟩

end Sample

namespace Pattern

variable {p : Pattern} {limits : Limits} {c : Compiled}

theorem aggregates_groupShape (p : Pattern) (limits : Limits) (outputs : Outputs)
    (grouping : Grouping) :
    (p.groupShape limits outputs grouping).shape.Aggregates outputs.aggregators := by
  cases grouping with
  | bucket name period time =>
    change (p.bucketShape name period outputs).shape.Aggregates _
    unfold bucketShape
    split
    · split <;> exact .timeseries _ _
    · exact .timeseries _ _
  | dimension name dimension =>
    change (p.dimensionShape limits name dimension outputs).shape.Aggregates _
    obtain ⟨-, h⟩ | ⟨key, n, -, -, -, h⟩ | h :=
      p.dimensionShape_cases limits name dimension outputs
    · exact h ▸ .groupBy _ _ _
    · exact h ▸ .topN _ _ _
    · exact h ▸ .groupBy _ _ _

/-- A compiled pattern of totals or groups asks for the outputs of the pattern. -/
theorem aggregates_of_compile (h : p.compile limits = .ok c)
    (hshape : p.split.isSome ∨ p.applies ≠ []) :
    ∃ o, p.outputs = .ok o ∧ c.query.shape.Aggregates o.aggregators := by
  obtain ⟨r, -, ⟨hsplit, happlies, -⟩ | ⟨o, -, ho, h⟩ | ⟨o, split, -, ho, h⟩⟩ := compile_eq_ok h
  · rw [hsplit] at hshape
    exact absurd happlies (hshape.resolve_left nofun)
  · obtain ⟨-, span, -, rfl⟩ := compileTotals_eq_ok h
    exact ⟨o, ho, .totals⟩
  · obtain ⟨grouping, span, -, -, -, rfl⟩ := compileGroups_eq_ok h
    exact ⟨o, ho, p.aggregates_groupShape limits o grouping⟩

/-- **The aggregators of a pattern.** The native aggregators in the document of a pattern are, in
order, those of the aggregates that its results ask for, hidden ones included. Each computes its
aggregate by the rules; one of a measure is made from a column that supports it. -/
theorem aggregators_supported (h : p.compile limits = .ok c)
    (hshape : p.split.isSome ∨ p.applies ≠ []) :
    ∃ aggregators, c.query.toJson.get? "aggregations" =
        some (.array (aggregators.map Aggregator.toJson)) ∧
      List.Forall₂ (Aggregator.Serves p.source.external) (Outputs.columnsFor 0 p.values)
        aggregators := by
  obtain ⟨o, ho, haggregates⟩ := aggregates_of_compile h hshape
  rw [outputs_eq_values] at ho
  obtain ⟨hidden, derived, hadds, -⟩ := Outputs.addApplies_adds ho
  obtain ⟨added, hadded, hnatives⟩ := hadds.aggregators
  obtain rfl : o.aggregators = added := hadded
  exact ⟨o.aggregators, Query.get?_aggregations haggregates,
    hnatives.imp fun _ _ => Aggregator.serves_of_toNative⟩

open Sample in
/-- Merged edits are counted by summing a number of rows; an average takes a sum of sums and a
number of rows, and users are counted by their sketches. -/
theorem aggregators_supported_mergedEdits : ∃ c aggregators,
    mergedTotals.compile .standard = .ok c ∧ mergedTotals.applies ≠ [] ∧
      c.query.toJson.get? "aggregations" = some (.array (aggregators.map Aggregator.toJson)) ∧
      List.Forall₂ (Aggregator.Serves mergedEdits)
        [("Edits", .binary (.measure .sum) beyondFront (.ref "count")),
          ("!T_0", .binary (.measure .sum) (.ref "edits") (.ref "added")),
          ("!T_1", .count (.ref "edits")),
          ("!T_2", .binary (.measure .countDistinct) (.ref "edits") (.ref "users"))]
        aggregators := by
  obtain ⟨c, hc⟩ : ∃ c, mergedTotals.compile .standard = .ok c := ⟨_, rfl⟩
  have happlies : mergedTotals.applies ≠ [] := nofun
  obtain ⟨aggregators, hdocument, hserves⟩ := aggregators_supported hc (.inr happlies)
  exact ⟨c, aggregators, hc, happlies, hdocument, hserves⟩

end Pattern

end FederatedQuery
