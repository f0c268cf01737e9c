import FederatedQuery.Proofs.Finiteness
import FederatedQuery.Proofs.Reading
import FederatedQuery.Proofs.Sample
import FederatedQuery.Proofs.Translation

/-!
# Bounds

A comparison with a literal is left to the backend as a bound of a dimension: the texts between two
ends, each of which belongs to them unless it is strict. Numbers are compared as the backend reads
their texts, and strings by their bytes. The bound holds of the text of a cell if and only if the
comparison holds of the cell, and the bound of a range of numbers holds of the numbers in the range.

## Main definitions

* `Text.bytes`: the bytes of a text in UTF-8.
* `Native.Filter.admits`: the texts of which a bound holds.
* `Native.Reads`: the values that are read from texts.

## Main results

* `Text.bytes_strictMono`: the order of texts by bytes is that by code points.
* `Native.Reads.precedes_strict_iff`, `Native.Reads.precedes_iff`: texts are ordered like values.
* `Native.comparisonTest_admits`, `Native.rangeTest_admits`: the bounds of a comparison and of a
  range.
* `Native.Restriction.bounds_agree`: pushed comparisons and ranges agree with evaluation.
-/

namespace FederatedQuery

/-! ### Bytes of texts -/

namespace Text

/-- The bytes of a text in UTF-8, as numbers. -/
def bytes (s : String) : List Nat := s.toUTF8.data.toList.map UInt8.toNat

/-- The bytes of a character. -/
def charBytes (c : Char) : List Nat := (String.utf8EncodeChar c).map UInt8.toNat

theorem bytes_eq (s : String) : bytes s = s.toList.flatMap charBytes := by
  have hencode : s.toUTF8.data.toList = s.toList.flatMap String.utf8EncodeChar := by
    rw [String.toUTF8_eq_toByteArray, ← String.utf8Encode_toList, List.utf8Encode]
    simp
  rw [bytes, hencode, List.map_flatMap]
  rfl

/-- The bytes of a greater character are greater at the first place where they differ. -/
theorem charBytes_append_lt {c d : Char} (h : c < d) (as bs : List Nat) :
    charBytes c ++ as < charBytes d ++ bs := by
  have hlt : c.val.toNat < d.val.toNat := h
  have hd : d.val.toNat < 0x110000 := by
    have hvalid := d.valid
    simp only [UInt32.isValidChar, Nat.isValidChar] at hvalid
    omega
  have hdiv (n : Nat) : n / 4096 = n / 64 / 64 ∧ n / 262144 = n / 64 / 64 / 64 := by omega
  unfold charBytes String.utf8EncodeChar
  generalize c.val.toNat = m at hlt ⊢
  generalize d.val.toNat = n at hlt hd ⊢
  simp only [hdiv]
  -- the first bytes of characters with more bytes are greater
  split_ifs <;>
    simp only [List.map_cons, List.map_nil, List.cons_append, List.nil_append,
      List.cons_lt_cons_iff, UInt8.toNat_ofNat'] <;>
    omega

theorem flatMap_charBytes_lt {cs ds : List Char} (h : cs < ds) :
    cs.flatMap charBytes < ds.flatMap charBytes := by
  induction cs generalizing ds with
  | nil =>
    cases ds with
    | nil => exact absurd h (lt_irrefl _)
    | cons d ds =>
      have hne : charBytes d ≠ [] := by simp [charBytes]
      obtain ⟨b, bs, hbytes⟩ := List.exists_cons_of_ne_nil hne
      rw [List.flatMap_cons, hbytes]
      exact List.nil_lt_cons _ _
  | cons c cs ih =>
    cases ds with
    | nil => exact absurd h (List.not_lt_nil _)
    | cons d ds =>
      rw [List.flatMap_cons, List.flatMap_cons]
      obtain hlt | ⟨rfl, hrest⟩ := List.cons_lt_cons_iff.1 h
      · exact charBytes_append_lt hlt _ _
      · exact List.append_left_lt (ih hrest)

/-- **The order of texts** by their bytes is that by code points. -/
theorem bytes_strictMono : StrictMono bytes := by
  intro s t h
  rw [bytes_eq, bytes_eq]
  exact flatMap_charBytes_lt h

end Text

/-! ### The order of numbers and of strings -/

namespace Value

theorem compareNumbers_eq_lt_iff {x y : Float} : compareNumbers x y = .lt ↔ x < y := by
  unfold compareNumbers
  split_ifs with hlt hgt
  · exact iff_of_true rfl hlt
  · exact iff_of_false nofun hlt
  · exact iff_of_false nofun hlt

theorem compareNumbers_eq_gt_iff {x y : Float} : compareNumbers x y = .gt ↔ y < x := by
  unfold compareNumbers
  split_ifs with hlt hgt
  · exact iff_of_false nofun (Double.lt_asymm hlt)
  · exact iff_of_true rfl hgt
  · exact iff_of_false nofun hgt

end Value

/-! ### Texts within bounds -/

/-- A reader of numbers that gives each finite double for its plain text. -/
def ReadsPlain (read : String → Option Float) : Prop :=
  ∀ x : Float, x.isFinite = true → read (Value.numberText x) = some x

namespace Native

variable (read : String → Option Float)

/-- Whether a backend puts a text before another one, or, if that is not strict, in the same
place. Numbers are read, and strings are compared by their bytes. -/
def BoundOrder.precedes (order : BoundOrder) (strict : Bool) (s t : String) : Bool :=
  match order with
  | .numeric =>
    match read s, read t with
    | some x, some y => if strict then decide (x < y) else decide (x ≤ y)
    | _, _ => false
  | .lexicographic =>
    if strict then decide (Text.bytes s < Text.bytes t) else decide (Text.bytes s ≤ Text.bytes t)

/-- Whether a bound holds of a text. -/
def Filter.admits (text : String) : Filter → Bool
  | .bound _ order lower upper =>
    lower.all (fun edge => order.precedes read (edge.strict.getD false) edge.text text) &&
      upper.all fun edge => order.precedes read (edge.strict.getD false) text edge.text
  | _ => false

/-- The values that a backend finds in texts: in numeric order the numbers that it can read, in the
other one strings. A double that is not a number has no place among numbers, and no document has
one. -/
inductive Reads : BoundOrder → String → Value → Prop
  | number {x : Float} {text : String} (hread : read text = some x) (hnan : x.isNaN = false) :
    Reads .numeric text (.number x)
  | string (text : String) : Reads .lexicographic text (.string text)

variable {read} {order : BoundOrder} {v w : Value} {s t : String}

theorem Reads.compare_eq_gt_iff (hv : Reads read order s v) (hw : Reads read order t w) :
    v.compare w = .gt ↔ w.compare v = .lt := by
  cases hv with
  | number =>
    cases hw with
    | number =>
      exact Value.compareNumbers_eq_gt_iff.trans Value.compareNumbers_eq_lt_iff.symm
  | string =>
    cases hw with
    | string =>
      change Ord.compare s t = .gt ↔ Ord.compare t s = .lt
      exact Std.OrientedCmp.gt_iff_lt

/-- **Texts are in strict order** like the values that are read from them. -/
theorem Reads.precedes_strict_iff (hv : Reads read order s v) (hw : Reads read order t w) :
    order.precedes read true s t = true ↔ v.compare w = .lt := by
  cases hv with
  | number hx =>
    cases hw with
    | number hy =>
      simp only [BoundOrder.precedes, hx, hy, if_true, decide_eq_true_iff]
      exact Value.compareNumbers_eq_lt_iff.symm
  | string =>
    cases hw with
    | string =>
      simp only [BoundOrder.precedes, if_true, decide_eq_true_iff, Text.bytes_strictMono.lt_iff_lt]
      exact compare_lt_iff_lt.symm

/-- Texts are in order like the values that are read from them. -/
theorem Reads.precedes_iff (hv : Reads read order s v) (hw : Reads read order t w) :
    order.precedes read false s t = true ↔ v.compare w ≠ .gt := by
  cases hv with
  | number hx hxnan =>
    cases hw with
    | number hy hynan =>
      simp only [BoundOrder.precedes, hx, hy, Bool.false_eq_true, if_false, decide_eq_true_iff]
      rw [← Double.not_lt hynan hxnan]
      exact not_congr Value.compareNumbers_eq_gt_iff.symm
  | string =>
    cases hw with
    | string =>
      simp only [BoundOrder.precedes, Bool.false_eq_true, if_false, decide_eq_true_iff,
        Text.bytes_strictMono.le_iff_le]
      exact compare_le_iff_le.symm

/-- **The bound of a comparison** holds of a text if and only if the comparison with the limit
accepts the value that is read from it. -/
theorem comparisonTest_admits {c : Comparison} {name limit text : String} {lit : Value}
    (hlimit : Reads read order limit lit) (htext : Reads read order text v) :
    (comparisonTest name c limit order).admits read text = c.accepts (v.compare lit) := by
  rw [Bool.eq_iff_iff]
  cases c with
  | greaterThan =>
    simp only [comparisonTest, Filter.admits, Option.all_some, Option.all_none, Bool.and_true,
      Option.getD_some, Comparison.accepts, beq_iff_eq, htext.compare_eq_gt_iff hlimit]
    exact hlimit.precedes_strict_iff htext
  | greaterThanOrEqual =>
    simp only [comparisonTest, Filter.admits, Option.all_some, Option.all_none, Bool.and_true,
      Option.getD_some, Comparison.accepts, bne_iff_ne, ne_eq, ← hlimit.compare_eq_gt_iff htext]
    exact hlimit.precedes_iff htext
  | lessThan =>
    simp only [comparisonTest, Filter.admits, Option.all_some, Option.all_none, Bool.true_and,
      Option.getD_some, Comparison.accepts, beq_iff_eq]
    exact htext.precedes_strict_iff hlimit
  | lessThanOrEqual =>
    simp only [comparisonTest, Filter.admits, Option.all_some, Option.all_none, Bool.true_and,
      Option.getD_some, Comparison.accepts, bne_iff_ne]
    exact htext.precedes_iff hlimit

/-- **The bound of a range** holds of a text if and only if the number that is read from it is in
the range. -/
theorem rangeTest_admits (hread : ReadsPlain read) {name text : String} {range : NumberRange}
    {y : Float} (hstart : ∀ s ∈ range.start, s.isFinite = true)
    (hstop : ∀ e ∈ range.stop, e.isFinite = true) (htext : read text = some y) :
    (rangeTest name range).admits read text = range.contains y := by
  rw [rangeTest, Filter.admits, NumberRange.contains]
  congr 1
  · cases hs : range.start with
    | none => rfl
    | some s =>
      simp only [Option.map_some, Option.all_some, Option.getD_none, BoundOrder.precedes,
        hread s (hstart s hs), htext, Bool.false_eq_true, if_false]
  · cases he : range.stop with
    | none => rfl
    | some e =>
      simp only [Option.map_some, Option.all_some, Option.getD_some, BoundOrder.precedes,
        hread e (hstop e he), htext, if_true]

/-! ### Comparisons and ranges that are pushed -/

theorem Reads.isNull (h : Reads read order s v) : v.isNull = false := by
  cases h <;> rfl

/-- The text that a cell is compared with is read as the literal. -/
theorem reads_of_comparedText? (hread : ReadsPlain read) {lit : Value} {limit : String}
    (hlit : lit.IsComparable) (h : comparedText? (some lit) = some (limit, order)) :
    Reads read order limit lit := by
  cases lit with
  | number y =>
    have hfinite : y.isFinite = true := hlit y rfl
    cases h
    exact .number (hread y hfinite) (Double.isNaN_eq_false hfinite)
  | string s =>
    cases h
    exact .string _
  | _ => exact nomatch h

theorem exists_comparisonTest_eq (name : String) (c : Comparison) (limit : String)
    (order : BoundOrder) :
    ∃ lower upper, comparisonTest name c limit order = .bound name order lower upper := by
  cases c <;> exact ⟨_, _, rfl⟩

/-- A comparison of a cell with a literal. -/
theorem evaluate_comparison {c : Comparison} {name : String} {lit : Value} {scope : Scope}
    (hcell : scope.lookup? name = some v) (hv : v.isNull = false) (hlit : lit.isNull = false) :
    (Expression.binary (.comparison c) (.ref name) (.literal lit)).evaluate scope =
      .ok (.boolean (c.accepts (v.compare lit))) := by
  have hleft : (Expression.ref name).evaluate scope = .ok v := by
    simp only [Expression.evaluate, hcell]
  rw [Expression.evaluate, hleft]
  change Except.ok (c.onValues v lit) = _
  simp only [Comparison.onValues, hv, hlit, Bool.or_self, Bool.false_eq_true, if_false]

/-- **Pushed comparisons and ranges.** A comparison with a literal is left to the backend as a
bound, which holds of the text of a cell if and only if the comparison is evaluated to *true* where
the cell stands. The bound of a range holds of the texts of the numbers in it. -/
theorem Restriction.bounds_agree {x : External} (hread : ReadsPlain read) :
    (∀ (c : Comparison) (a : Expression) (lit : Value) (r : Restriction), lit.IsComparable →
      ofCondition x (some (.binary (.comparison c) a (.literal lit))) = .ok r →
      ∃ name order lower upper limit, a = .ref name ∧ Reads read order limit lit ∧
        r = ⟨none, some (.bound name order lower upper)⟩ ∧
        ∀ (scope : Scope) (v : Value) (text : String), scope.lookup? name = some v →
          Reads read order text v →
          (Expression.binary (.comparison c) a (.literal lit)).evaluate scope =
            .ok (.boolean ((Filter.bound name order lower upper).admits read text))) ∧
    (∀ (a : Expression) (range : NumberRange) (r : Restriction),
      (∀ s ∈ range.start, s.isFinite = true) → (∀ e ∈ range.stop, e.isFinite = true) →
      ofCondition x (some (.binary (.relation .overlap) a (.literal (.numberRange range)))) =
        .ok r →
      ∃ name lower upper, a = .ref name ∧ r = ⟨none, some (.bound name .numeric lower upper)⟩ ∧
        ∀ (y : Float) (text : String), read text = some y →
          (Filter.bound name .numeric lower upper).admits read text = range.contains y) := by
  refine ⟨fun c a lit r hlit h => ?_, fun a range r hstart hstop h => ?_⟩
  · obtain ⟨f, hf, rfl⟩ := exists_translates_of_ofCondition rfl rfl rfl h
    cases hf with
    | @compare column _ limit order _ _ _ hlimit =>
      have hreads := reads_of_comparedText? hread hlit hlimit
      obtain ⟨lower, upper, htest⟩ := exists_comparisonTest_eq column.name c limit order
      rw [htest]
      refine ⟨_, _, _, _, _, rfl, hreads, rfl, fun scope v text hcell htext => ?_⟩
      rw [evaluate_comparison hcell htext.isNull hreads.isNull, ← htest,
        comparisonTest_admits hreads htext]
  · obtain ⟨f, hf, rfl⟩ := exists_translates_of_ofCondition rfl rfl rfl h
    cases hf with
    | within range hoffers htime =>
      exact ⟨_, _, _, rfl, rfl, fun y text => rangeTest_admits hread hstart hstop⟩

open Sample in
/-- More than a hundred added characters are left to the backend, and so is the range from a hundred
to two hundred and fifty of them. -/
theorem Restriction.bounds_agree_added : ∃ more among : Filter,
    ofCondition edits (some (.binary (.comparison .greaterThan) (.ref "added")
      (.literal (.number 100)))) = .ok ⟨none, some more⟩ ∧
    more.admits Decimal.readPlain? "100" = false ∧ more.admits Decimal.readPlain? "250" = true ∧
    ofCondition edits (some (.binary (.relation .overlap) (.ref "added")
      (.literal (.numberRange ⟨some 100, some 250⟩)))) = .ok ⟨none, some among⟩ ∧
    among.admits Decimal.readPlain? "100" = true ∧
    among.admits Decimal.readPlain? "250" = false := by
  have hfinite : (100 : Float).isFinite = true ∧ (250 : Float).isFinite = true := by
    decide +kernel
  have hread (y : Float) (text : String) (hy : y.isFinite = true)
      (htext : Value.numberText y = text) : Decimal.readPlain? text = some y :=
    htext ▸ Decimal.readPlain?_write hy
  have hhundred := hread 100 "100" hfinite.1 (by decide +kernel)
  have hmost := hread 250 "250" hfinite.2 (by decide +kernel)
  obtain ⟨hcompare, hrange⟩ := bounds_agree (x := edits) fun y hy => Decimal.readPlain?_write hy
  -- the row decides on the comparison, and so does the bound on its text
  obtain ⟨name, order, lower, upper, -, ⟨⟩, -, ⟨⟩, hagree⟩ :=
    hcompare .greaterThan (.ref "added") (.number 100) _ (by rintro _ ⟨⟩; exact hfinite.1) rfl
  have hbound (y : Float) (text : String) (accepted : Bool) (hy : y.isFinite = true)
      (htext : Decimal.readPlain? text = some y)
      (haccepted : Comparison.greaterThan.accepts ((Value.number y).compare (.number 100)) =
        accepted) :
      (Filter.bound "added" .numeric (some ⟨Value.numberText 100, some true⟩) none).admits
        Decimal.readPlain? text = accepted := by
    have hevaluate := hagree [[("added", .number y)]] (.number y) text rfl
      (.number htext (Double.isNaN_eq_false hy))
    rw [evaluate_comparison (v := .number y) rfl rfl rfl, haccepted] at hevaluate
    cases hevaluate
    rfl
  obtain ⟨name, lower, upper, ⟨⟩, ⟨⟩, hcontains⟩ :=
    hrange (.ref "added") ⟨some 100, some 250⟩ _ (by rintro _ ⟨⟩; exact hfinite.1)
      (by rintro _ ⟨⟩; exact hfinite.2) rfl
  exact ⟨_, _, rfl, hbound 100 "100" false hfinite.1 hhundred (by decide +kernel),
    hbound 250 "250" true hfinite.2 hmost (by decide +kernel), rfl,
    (hcontains 100 "100" hhundred).trans (by decide +kernel),
    (hcontains 250 "250" hmost).trans (by decide +kernel)⟩

end Native

end FederatedQuery
