import FederatedQuery.Proofs.Columns
import FederatedQuery.Proofs.Documents
import FederatedQuery.Value.Cell
import FederatedQuery.Value.Plain

/-!
# Finite values

The numbers in the cells of documents are finite, and arithmetic gives `null` where its result is
not finite. So evaluation stays among finite values, and so do rows with the values that are derived
from them.

Where doubles are numbers, the order of values is that of keys, so it is a total preorder and
sorting is consistent. And the plain form of a finite value has all its numbers.

## Main definitions

* `Value.IsFinite`, `Row.IsFinite`, `Expression.IsFinite`: all numbers are finite, at any depth.
* `Value.IsComparable`: values that are no numbers or finite ones.
* `Value.HasPlace`, `Value.key`: values that have a place in the order, and their keys.
* `Json.doubles`: the numbers of a document.

## Main results

* `Expression.isFinite_of_evaluate`: evaluation.
* `Row.isFinite_of_derive`: derived values.
* `Value.compare_eq_key`, `Dataset.transCmp_compareBy`: the order.
* `Value.doubles_plain`: plain forms.
-/

namespace FederatedQuery

/-- Every number of the value is finite, at any depth. -/
def Value.IsFinite (v : Value) : Prop := ∀ u ∈ v.parts, ∀ x ∈ u.numbers, x.isFinite = true

/-- The value is no number that is not finite. -/
def Value.IsComparable (v : Value) : Prop := ∀ x ∈ v.number?, x.isFinite = true

/-- The value has a place in the order: it is no double that is not a number. -/
def Value.HasPlace (v : Value) : Prop := ∀ x ∈ v.number?, x.isNaN = false

/-- Every number in the cells of the row is finite, at any depth. -/
def Row.IsFinite (row : Row) : Prop := ∀ cell ∈ row, cell.2.IsFinite

/-- Every number in the literals of the expression is finite, at any depth. -/
def Expression.IsFinite (e : Expression) : Prop :=
  ∀ v ∈ e.values, ∀ x ∈ v.numbers, x.isFinite = true

/-! ### Values -/

namespace Value

variable {v : Value}

theorem isFinite_of_numbers (hdataset : v.isDataset = false)
    (h : ∀ x ∈ v.numbers, x.isFinite = true) : v.IsFinite := by
  rw [IsFinite, parts_of_isDataset hdataset]
  exact List.forall_mem_singleton.2 h

theorem isFinite_null : IsFinite .null := isFinite_of_numbers rfl nofun

theorem isFinite_boolean (b : Bool) : IsFinite (.boolean b) := isFinite_of_numbers rfl nofun

theorem isFinite_number {x : Float} : IsFinite (.number x) ↔ x.isFinite = true :=
  ⟨fun h => h _ List.mem_cons_self x List.mem_cons_self,
    fun h => isFinite_of_numbers rfl (List.forall_mem_singleton.2 h)⟩

theorem isFinite_dataset {rows : Dataset} :
    IsFinite (.dataset rows) ↔ ∀ row ∈ rows, Row.IsFinite row := by
  rw [IsFinite, parts, List.forall_mem_cons]
  constructor
  · rintro ⟨-, h⟩ row hrow cell hcell u hu
    exact h u (mem_partsOfRows.2 ⟨row, hrow, mem_partsOfCells.2 ⟨cell, hcell, hu⟩⟩)
  · refine fun h => ⟨nofun, fun u hu => ?_⟩
    obtain ⟨row, hrow, hu⟩ := mem_partsOfRows.1 hu
    obtain ⟨cell, hcell, hu⟩ := mem_partsOfCells.1 hu
    exact h row hrow cell hcell u hu

theorem IsFinite.isComparable (h : v.IsFinite) : v.IsComparable := by
  cases v with
  | number x =>
    rintro _ ⟨⟩
    exact isFinite_number.1 h
  | _ => exact nofun

/-- A number that is not finite does not become a number. -/
theorem isFinite_ofDouble (x : Float) : IsFinite (ofDouble x) := by
  rw [ofDouble]
  split
  · next h => exact isFinite_number.2 h
  · exact isFinite_null

/-- The cells of documents are finite. -/
theorem isFinite_ofCell {j : Json} (h : j.isDocument = true) : IsFinite (ofCell j) := by
  cases j with
  | int n => exact isFinite_number.2 (Double.isFinite_ofInt h)
  | float x => exact isFinite_number.2 h
  | _ => exact isFinite_of_numbers rfl nofun

end Value

/-! ### Rows -/

namespace Row

variable {row : Row} {name : String} {value : Value}

theorem isFinite_nil : IsFinite [] := nofun

theorem IsFinite.put (h : row.IsFinite) (hvalue : value.IsFinite) (name : String) :
    (row.put name value).IsFinite := by
  intro cell hcell
  obtain rfl | hcell := mem_put hcell
  · exact hvalue
  · exact h cell hcell

theorem IsFinite.extend (h : row.IsFinite) {cells : List (String × Value)}
    (hcells : ∀ cell ∈ cells, cell.2.IsFinite) : (row.extend cells).IsFinite :=
  fun cell hcell => (mem_extend hcell).elim (h cell) (hcells cell)

theorem IsFinite.foldl_erase (h : row.IsFinite) (names : List String) :
    (names.foldl erase row).IsFinite := by
  induction names generalizing row with
  | nil => exact h
  | cons name names ih => exact ih fun cell hcell => h cell (List.mem_filter.1 hcell).1

theorem IsFinite.get? (h : row.IsFinite) (hvalue : row.get? name = some value) : value.IsFinite :=
  h _ (mem_of_get?_eq_some hvalue)

/-- A cell that is missing counts as null, which is finite. -/
theorem IsFinite.getD (h : row.IsFinite) (name : String) :
    ((row.get? name).getD .null).IsFinite := by
  cases hvalue : row.get? name with
  | none => exact Value.isFinite_null
  | some value => exact h.get? hvalue

end Row

/-! ### Evaluation -/

theorem Scope.isFinite_of_lookup? {scope : Scope} (h : ∀ row ∈ scope, row.IsFinite) {name : String}
    {value : Value} (hvalue : scope.lookup? name = some value) : value.IsFinite := by
  obtain ⟨row, hrow, hget⟩ := List.exists_of_findSome?_eq_some hvalue
  exact (h row hrow).get? hget

theorem Arithmetic.isFinite_of_onValues {op : Arithmetic} {a b value : Value}
    (h : op.onValues a b = .ok value) : value.IsFinite := by
  unfold onValues at h
  split at h
  · exact Except.ok.inj h ▸ Value.isFinite_null
  · exact Except.ok.inj h ▸ Value.isFinite_null
  · exact Except.ok.inj h ▸ Value.isFinite_ofDouble _
  · exact nomatch h

namespace Expression

variable {e : Expression} {scope : Scope}

theorem isFinite_literal {v : Value} : (literal v).IsFinite ↔ v.IsFinite := by
  rw [IsFinite, values_literal, Value.IsFinite]

theorem IsFinite.child (h : e.IsFinite) {child : Expression} (hchild : child ∈ e.children) :
    child.IsFinite := forall_values hchild h

/-- The value of an operation is finite, whatever its operands are. -/
theorem isFinite_of_operation (he : e.children ≠ []) {value : Value}
    (h : e.evaluate scope = .ok value) : value.IsFinite := by
  unfold evaluate at h
  split at h
  · exact absurd rfl he
  · exact absurd rfl he
  · obtain ⟨x, -, h⟩ := Except.bind_eq_ok.1 h
    exact Except.ok.inj h ▸ Value.isFinite_boolean _
  · split at h
    · obtain ⟨x, -, h⟩ := Except.bind_eq_ok.1 h
      obtain ⟨y, -, h⟩ := Except.bind_eq_ok.1 h
      exact Arithmetic.isFinite_of_onValues h
    · obtain ⟨x, -, h⟩ := Except.bind_eq_ok.1 h
      obtain ⟨y, -, h⟩ := Except.bind_eq_ok.1 h
      rw [← Except.ok.inj h, Comparison.onValues]
      split
      · exact Value.isFinite_null
      · exact Value.isFinite_boolean _
    · obtain ⟨x, -, h⟩ := Except.bind_eq_ok.1 h
      obtain ⟨y, -, h⟩ := Except.bind_eq_ok.1 h
      exact Except.ok.inj h ▸ Value.isFinite_boolean _
    · obtain ⟨x, -, h⟩ := Except.bind_eq_ok.1 h
      split at h
      · obtain ⟨y, -, h⟩ := Except.bind_eq_ok.1 h
        exact Except.ok.inj h ▸ Value.isFinite_boolean _
      · exact Except.ok.inj h ▸ Value.isFinite_boolean _
    · obtain ⟨x, -, h⟩ := Except.bind_eq_ok.1 h
      split at h
      · exact Except.ok.inj h ▸ Value.isFinite_boolean _
      · obtain ⟨y, -, h⟩ := Except.bind_eq_ok.1 h
        exact Except.ok.inj h ▸ Value.isFinite_boolean _
    · cases h
  · cases h

/-- **Evaluation.** In finite rows, an expression with finite literals has a finite value. -/
theorem isFinite_of_evaluate (hscope : ∀ row ∈ scope, row.IsFinite) (he : e.IsFinite)
    {value : Value} (h : e.evaluate scope = .ok value) : value.IsFinite := by
  cases e with
  | literal v =>
    rw [evaluate] at h
    exact Except.ok.inj h ▸ isFinite_literal.1 he
  | ref name =>
    rw [evaluate] at h
    split at h
    · next hvalue => exact Except.ok.inj h ▸ Scope.isFinite_of_lookup? hscope hvalue
    · cases h
  | _ => exact isFinite_of_operation (by simp [children]) h

end Expression

/-- **Derived values.** They leave a row finite. -/
theorem Row.isFinite_of_derive {scope : Scope} {row row' : Row}
    {derived : List (String × Expression)} (hscope : ∀ row ∈ scope, row.IsFinite)
    (hrow : row.IsFinite) (hderived : ∀ entry ∈ derived, entry.2.IsFinite)
    (h : row.derive scope derived = .ok row') : row'.IsFinite := by
  induction derived generalizing row with
  | nil => exact Except.ok.inj h ▸ hrow
  | cons entry derived ih =>
    obtain ⟨hentry, hrest⟩ := List.forall_mem_cons.1 hderived
    obtain ⟨row₁, hrow₁, h⟩ := Except.bind_eq_ok.1 h
    obtain ⟨value, hvalue, hput⟩ := Except.bind_eq_ok.1 hrow₁
    obtain rfl := Except.ok.inj hput
    have hfinite := Expression.isFinite_of_evaluate (List.forall_mem_cons.2 ⟨hrow, hscope⟩) hentry
      hvalue
    exact ih (hrow.put hfinite entry.1) hrest h

/-- What is left to do with finite rows leaves them finite. -/
theorem Finish.isFinite_of_apply {f : Finish} {scope : Scope} {rows rows' : Dataset}
    (hscope : ∀ row ∈ scope, row.IsFinite) (hrows : ∀ row ∈ rows, row.IsFinite)
    (hderived : ∀ entry ∈ f.derived, entry.2.IsFinite) (h : f.apply scope rows = .ok rows') :
    ∀ row ∈ rows', row.IsFinite := by
  intro row hrow
  obtain ⟨origin, horigin, derived, horiginal, rfl⟩ := exists_of_mem h hrow
  have hfinite := Row.isFinite_of_derive hscope (hrows origin horigin) hderived horiginal
  exact hfinite.foldl_erase f.hidden

/-! ### The order of values -/

namespace Value

theorem IsComparable.hasPlace {v : Value} (h : v.IsComparable) : v.HasPlace :=
  fun x hx => Double.isNaN_eq_false (h x hx)

/-- A list of integers, first that of the kind, and a list of strings. Values have the order of the
first ones and then of the second ones. -/
def key : Value → List Int × List String
  | .null => ([0], [])
  | .boolean b => ([1, b.toNat], [])
  | .number x => (2 :: Double.key x, [])
  | .string s => ([3], [s])
  | .time t => ([4, t.key], [])
  | .timeRange r => ([5, r.start.key, r.stop.key], [])
  | .numberRange _ => ([6], [])
  | .stringSet items => ([7], items)
  | .dataset _ => ([8], [])

/-- The order of keys. -/
def compareKeys : Value → Value → Ordering :=
  compareLex (compareOn fun v => v.key.1) (compareOn fun v => v.key.2)

instance : Std.TransCmp compareKeys :=
  inferInstanceAs (Std.TransCmp (compareLex (compareOn fun v : Value => v.key.1)
    (compareOn fun v : Value => v.key.2)))

theorem compareNumbers_eq_key {x y : Float} (hx : x.isNaN = false) (hy : y.isNaN = false) :
    compareNumbers x y = Ord.compare (Double.key x) (Double.key y) := by
  unfold compareNumbers
  split
  · next hlt => exact ((Double.lt_iff_key hx hy).1 hlt).symm
  · next hnlt =>
    rw [Double.lt_iff_key hx hy] at hnlt
    split
    · next hgt =>
      rw [Double.lt_iff_key hy hx] at hgt
      exact (Std.OrientedCmp.gt_of_lt hgt).symm
    · next hngt =>
      rw [Double.lt_iff_key hy hx, ← Std.OrientedCmp.gt_iff_lt] at hngt
      cases hkeys : Ord.compare (Double.key x) (Double.key y) with
      | lt => exact absurd hkeys hnlt
      | eq => rfl
      | gt => exact absurd hkeys hngt

theorem compareTruth_eq (a b : Bool) :
    compareTruth a b = Ord.compare (a.toNat : Int) (b.toNat : Int) := by
  cases a <;> cases b <;> rfl

theorem compareStrings_eq (as bs : List String) : compareStrings as bs = Ord.compare as bs := by
  rw [List.compare_eq_compareLex]
  induction as generalizing bs with
  | nil => cases bs <;> rfl
  | cons a as ih =>
    cases bs with
    | nil => rfl
    | cons b bs => rw [compareStrings, List.compareLex_cons_cons, ih]

/-- Lists that begin with the same are compared by what comes next. -/
theorem compare_cons_self {α : Type} [Ord α] [Std.ReflOrd α] (a : α) (as bs : List α) :
    Ord.compare (a :: as) (a :: bs) = Ord.compare as bs := by
  rw [List.compare_eq_compareLex, List.compareLex_cons_cons, Std.ReflOrd.compare_self]
  rfl

theorem compare_singleton {α : Type} [Ord α] (a b : α) :
    Ord.compare [a] [b] = Ord.compare a b := by
  rw [List.compare_eq_compareLex, List.compareLex_cons_cons, List.compareLex_nil_nil,
    Ordering.then_eq]

/-- **The order of values** is that of their keys. -/
theorem compare_eq_key {v w : Value} (hv : v.HasPlace) (hw : w.HasPlace) :
    v.compare w = compareKeys v w := by
  have hkeys : compareKeys v w =
      (Ord.compare v.key.1 w.key.1).then (Ord.compare v.key.2 w.key.2) := rfl
  rw [hkeys]
  cases v <;> cases w
  -- values of different kinds differ in the first integer
  all_goals try rfl
  case number.number x y =>
    rw [key, key, compare_cons_self, ← compareNumbers_eq_key (hv x rfl) (hw y rfl)]
    exact Ordering.then_eq.symm
  case string.string s t =>
    rw [key, key, compare_singleton s t]
    rfl
  case boolean.boolean a b =>
    rw [key, key, compare_cons_self, compare_singleton, ← compareTruth_eq]
    exact Ordering.then_eq.symm
  case time.time t u =>
    rw [key, key, compare_cons_self, compare_singleton]
    exact Ordering.then_eq.symm
  case timeRange.timeRange r s =>
    rw [key, key, compare_cons_self, List.compare_eq_compareLex, List.compareLex_cons_cons,
      ← List.compare_eq_compareLex, compare_singleton]
    exact Ordering.then_eq.symm
  case stringSet.stringSet as bs => exact compareStrings_eq as bs

/-- Each value has the same place as itself, even a double that is not a number. -/
theorem compare_self (v : Value) : v.compare v = .eq := by
  have hcompare (h : v.HasPlace) : v.compare v = .eq :=
    (compare_eq_key h h).trans Std.ReflCmp.compare_self
  cases v with
  | number x =>
    rw [compare, compareNumbers, if_neg (Double.lt_irrefl x), if_neg (Double.lt_irrefl x)]
  | _ => exact hcompare nofun

end Value

namespace Dataset

/-- The order of two rows by the keys of their cells in a column. -/
def compareKeysBy (key : SortKey) (a b : Row) : Ordering :=
  let x := (Row.get? a key.name).getD .null
  let y := (Row.get? b key.name).getD .null
  match key.direction with
  | .ascending => x.compareKeys y
  | .descending => y.compareKeys x

instance (key : SortKey) : Std.TransCmp (compareKeysBy key) := by
  have hkeys : Std.TransCmp fun (a b : Row) =>
      Value.compareKeys ((a.get? key.name).getD .null) ((b.get? key.name).getD .null) :=
    { eq_swap := Std.OrientedCmp.eq_swap, isLE_trans := Std.TransCmp.isLE_trans }
  unfold compareKeysBy
  cases key.direction with
  | ascending => exact hkeys
  | descending => exact .opposite

theorem compareBy_eq_keys {key : SortKey} {a b : Row}
    (ha : ((Row.get? a key.name).getD .null).HasPlace)
    (hb : ((Row.get? b key.name).getD .null).HasPlace) :
    compareBy key a b = compareKeysBy key a b := by
  unfold compareBy compareKeysBy
  cases key.direction with
  | ascending => exact Value.compare_eq_key ha hb
  | descending => exact Value.compare_eq_key hb ha

/-- **The comparator of sorts.** Among rows whose cells in the column are comparable, it is a total
preorder. -/
theorem transCmp_compareBy {rows : Dataset} {key : SortKey}
    (h : ∀ row ∈ rows, ((Row.get? row key.name).getD .null).IsComparable) :
    Std.TransCmp fun (a b : {row // row ∈ rows}) => compareBy key a.1 b.1 := by
  have heq : (fun (a b : {row // row ∈ rows}) => compareBy key a.1 b.1) =
      fun a b => compareKeysBy key a.1 b.1 :=
    funext₂ fun a b => compareBy_eq_keys (h a.1 a.2).hasPlace (h b.1 b.2).hasPlace
  rw [heq]
  exact { eq_swap := Std.OrientedCmp.eq_swap, isLE_trans := Std.TransCmp.isLE_trans }

end Dataset

/-! ### Plain forms -/

namespace Json

mutual

/-- The numbers of a document that are no integers, at any depth, in order. -/
def doubles : Json → List Float
  | .float x => [x]
  | .array items => doublesOfItems items
  | .object fields => doublesOfFields fields
  | _ => []

/-- The numbers of items. -/
def doublesOfItems : List Json → List Float
  | [] => []
  | item :: rest => doubles item ++ doublesOfItems rest

/-- The numbers of fields. -/
def doublesOfFields : List (String × Json) → List Float
  | [] => []
  | (_, value) :: rest => doubles value ++ doublesOfFields rest

end

theorem doubles_boundToJson {bound : Option Float} (h : ∀ x ∈ bound, x.isFinite = true) :
    (NumberRange.boundToJson bound).doubles = bound.toList := by
  cases bound with
  | none => rfl
  | some x =>
    rw [NumberRange.boundToJson, ofDouble, if_pos (h x rfl)]
    rfl

theorem doublesOfItems_map_string (items : List String) :
    doublesOfItems (items.map Json.string) = [] := by
  induction items with
  | nil => rfl
  | cons item items ih => exact ih

end Json

namespace Value

mutual

/-- **Plain forms.** The plain form of a finite value has all the numbers of the value: none of them
becomes `null`. -/
theorem doubles_plain : (v : Value) → v.IsFinite → v.plain.doubles = v.parts.flatMap numbers
  | .null, _ | .boolean _, _ | .string _, _ | .time _, _ | .timeRange _, _ => rfl
  | .number x, h => by
    rw [plain, Json.ofDouble, if_pos (isFinite_number.1 h)]
    rfl
  | .numberRange r, h => by
    have hfinite := h _ List.mem_cons_self
    have hstart := Json.doubles_boundToJson fun x (hx : x ∈ r.start) => hfinite x
      (List.mem_append_left _ (Option.mem_toList.2 hx))
    have hstop := Json.doubles_boundToJson fun x (hx : x ∈ r.stop) => hfinite x
      (List.mem_append_right _ (Option.mem_toList.2 hx))
    rw [plain, NumberRange.toJson, Json.doubles, Json.doublesOfFields, Json.doublesOfFields,
      Json.doublesOfFields, hstart, hstop, List.append_nil]
    exact (List.append_nil _).symm
  | .stringSet items, _ => Json.doublesOfItems_map_string items
  | .dataset rows, h => by
    rw [plain, Json.doubles, parts, List.flatMap_cons]
    exact doubles_plainRows rows fun u hu => h u (List.mem_cons_of_mem _ hu)

theorem doubles_plainRows : (rows : List (List (String × Value))) →
    (∀ u ∈ partsOfRows rows, ∀ x ∈ u.numbers, x.isFinite = true) →
      Json.doublesOfItems (plainRows rows) = (partsOfRows rows).flatMap numbers
  | [], _ => rfl
  | row :: rest, h => by
    rw [plainRows, Json.doublesOfItems, Json.doubles, partsOfRows, List.flatMap_append,
      doubles_plainCells row fun u hu => h u (List.mem_append_left _ hu),
      doubles_plainRows rest fun u hu => h u (List.mem_append_right _ hu)]

theorem doubles_plainCells : (cells : List (String × Value)) →
    (∀ u ∈ partsOfCells cells, ∀ x ∈ u.numbers, x.isFinite = true) →
      Json.doublesOfFields (plainCells cells) = (partsOfCells cells).flatMap numbers
  | [], _ => rfl
  | (name, v) :: rest, h => by
    rw [plainCells, Json.doublesOfFields, partsOfCells, List.flatMap_append,
      doubles_plain v fun u hu => h u (List.mem_append_left _ hu),
      doubles_plainCells rest fun u hu => h u (List.mem_append_right _ hu)]

end

end Value

end FederatedQuery
