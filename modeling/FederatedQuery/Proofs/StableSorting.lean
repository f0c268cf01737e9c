import FederatedQuery.Proofs.Finiteness

/-!
# Stable sorts

Values are compared by kind and, within a kind, as that kind is. Apart from doubles that are not
numbers this is a total preorder in which null comes first; the infinities have their places at the
ends of the numbers. Within a kind only equal values have the same place, except that all ranges of
numbers and all datasets share one.

So sorting rows by a column puts them in order, and the rows whose values have the same place stay
in the order in which they came.

## Main definitions

* `Row.valueAt`: the value by which a row is sorted.

## Main results

* `Value.compare_swap`, `Value.compare_isLE_trans`: the preorder.
* `Value.compare_eq_eq_iff`: values with the same place.
* `Dataset.pairwise_sortBy`: sorted rows are in order.
* `Dataset.filter_sortBy`: rows with the same place stay in order.
-/

namespace FederatedQuery

/-! ### The order of values -/

theorem Instant.compare_eq_eq_iff {t u : Instant} : t.compare u = .eq ↔ t = u :=
  Int.compare_eq_eq.trans ⟨key_inj, congrArg key⟩

theorem TimeRange.compare_eq_eq_iff {r s : TimeRange} : r.compare s = .eq ↔ r = s := by
  obtain ⟨start, stop⟩ := r
  obtain ⟨start', stop'⟩ := s
  rw [compare, Ordering.then_eq_eq, Instant.compare_eq_eq_iff, Instant.compare_eq_eq_iff, mk.injEq]

namespace Value

variable {u v w : Value}

theorem compare_swap (hv : v.HasPlace) (hw : w.HasPlace) : w.compare v = (v.compare w).swap := by
  rw [compare_eq_key hv hw, compare_eq_key hw hv]
  exact Std.OrientedCmp.eq_swap

theorem compare_isLE_trans (hu : u.HasPlace) (hv : v.HasPlace) (hw : w.HasPlace)
    (huv : (u.compare v).isLE = true) (hvw : (v.compare w).isLE = true) :
    (u.compare w).isLE = true := by
  rw [compare_eq_key hu hv] at huv
  rw [compare_eq_key hv hw] at hvw
  rw [compare_eq_key hu hw]
  exact Std.TransCmp.isLE_trans huv hvw

/-- Null comes before every other value. -/
theorem null_compare (v : Value) : Value.null.compare v = if v.isNull then .eq else .lt := by
  cases v <;> rfl

theorem rank_eq_iff_kind : v.rank = w.rank ↔ v.kind = w.kind := by
  cases v <;> cases w <;> simp [rank, kind]

theorem compareNumbers_eq_eq_iff {x y : Float} (hx : x.isNaN = false) (hy : y.isNaN = false) :
    compareNumbers x y = .eq ↔ (x == y) = true := by
  rw [compareNumbers_eq_key hx hy, Double.beq_iff_key hx hy]

theorem compareTruth_eq_eq_iff {a b : Bool} : compareTruth a b = .eq ↔ a = b := by
  cases a <;> cases b <;> decide

theorem compareStrings_eq_eq_iff {as bs : List String} : compareStrings as bs = .eq ↔ as = bs := by
  rw [compareStrings_eq]
  exact Std.LawfulEqCmp.compare_eq_iff_eq

/-- **Values with the same place.** Of one kind, except for ranges of numbers and datasets, these
are the equal ones. -/
theorem compare_eq_eq_iff (hv : v.HasPlace) (hw : w.HasPlace) (hkind : v.kind = w.kind)
    (hrange : v.kind ≠ .numberRange) (hdataset : v.kind ≠ .dataset) :
    v.compare w = .eq ↔ (v == w) = true := by
  cases v with
  | null =>
    cases w with
    | null => exact iff_of_true rfl rfl
    | _ => exact nomatch hkind
  | boolean a =>
    cases w with
    | boolean b => exact compareTruth_eq_eq_iff.trans beq_iff_eq.symm
    | _ => exact nomatch hkind
  | number x =>
    cases w with
    | number y => exact compareNumbers_eq_eq_iff (hv x rfl) (hw y rfl)
    | _ => exact nomatch hkind
  | string s =>
    cases w with
    | string t =>
      change Ord.compare s t = .eq ↔ (s == t) = true
      exact Std.LawfulEqCmp.compare_eq_iff_eq.trans beq_iff_eq.symm
    | _ => exact nomatch hkind
  | time t =>
    cases w with
    | time t' => exact Instant.compare_eq_eq_iff.trans beq_iff_eq.symm
    | _ => exact nomatch hkind
  | timeRange r =>
    cases w with
    | timeRange r' => exact TimeRange.compare_eq_eq_iff.trans beq_iff_eq.symm
    | _ => exact nomatch hkind
  | numberRange => exact absurd rfl hrange
  | stringSet as =>
    cases w with
    | stringSet bs => exact compareStrings_eq_eq_iff.trans beq_iff_eq.symm
    | _ => exact nomatch hkind
  | dataset => exact absurd rfl hdataset

end Value

/-! ### Sorted rows -/

/-- The value of a row in a column; a missing cell counts as null. -/
def Row.valueAt (row : Row) (name : String) : Value := (row.get? name).getD .null

namespace Dataset

variable {key : SortKey} {rows : Dataset}

theorem compareBy_eq (key : SortKey) (a b : Row) :
    compareBy key a b = key.compare (a.valueAt key.name) (b.valueAt key.name) := rfl

theorem isLE_compareKeysBy_trans (key : SortKey) (a b c : Row)
    (hab : (compareKeysBy key a b).isLE = true) (hbc : (compareKeysBy key b c).isLE = true) :
    (compareKeysBy key a c).isLE = true := Std.TransCmp.isLE_trans hab hbc

theorem isLE_compareKeysBy_total (key : SortKey) (a b : Row) :
    ((compareKeysBy key a b).isLE || (compareKeysBy key b a).isLE) = true := by
  have hswap : compareKeysBy key b a = (compareKeysBy key a b).swap := Std.OrientedCmp.eq_swap
  rw [hswap]
  cases compareKeysBy key a b <;> rfl

/-- Sorting rows is sorting them by keys, if the values in the column have a place. -/
theorem sortBy_eq_keys (h : ∀ row ∈ rows, (row.valueAt key.name).HasPlace) :
    sortBy key rows = rows.mergeSort fun a b => (compareKeysBy key a b).isLE := by
  have hmap := List.map_mergeSort (f := id) (l := rows)
    (r := fun a b => compareBy key a b != .gt) (s := fun a b => (compareKeysBy key a b).isLE)
    fun a ha b hb => by
      rw [compareBy_eq_keys (h a ha) (h b hb), id, id]
      cases compareKeysBy key a b <;> rfl
  rwa [List.map_id, List.map_id] at hmap

/-- **Sorts sort.** Rows whose values in the column have a place are in order once they are
sorted. -/
theorem pairwise_sortBy (h : ∀ row ∈ rows, (row.valueAt key.name).HasPlace) :
    (sortBy key rows).Pairwise fun a b => compareBy key a b ≠ .gt := by
  have hmem {row : Row} (hrow : row ∈ sortBy key rows) : (row.valueAt key.name).HasPlace :=
    h row ((sortBy_perm key rows).mem_iff.1 hrow)
  have hsorted : (sortBy key rows).Pairwise fun a b => (compareKeysBy key a b).isLE = true := by
    rw [sortBy_eq_keys h]
    exact List.pairwise_mergeSort (isLE_compareKeysBy_trans key) (isLE_compareKeysBy_total key) rows
  refine hsorted.imp_of_mem fun {a b} ha hb hle hgt => ?_
  rw [← compareBy_eq_keys (hmem ha) (hmem hb), hgt] at hle
  cases hle

/-- Rows whose values have the same place as a given value are not apart. -/
theorem compareKeysBy_eq_eq {a b : Row} {v : Value} (ha : (a.valueAt key.name).HasPlace)
    (hb : (b.valueAt key.name).HasPlace) (hv : v.HasPlace)
    (hav : (a.valueAt key.name).compare v = .eq) (hbv : (b.valueAt key.name).compare v = .eq) :
    compareKeysBy key a b = .eq := by
  rw [Value.compare_eq_key ha hv] at hav
  rw [Value.compare_eq_key hb hv] at hbv
  have heq : (a.valueAt key.name).compareKeys (b.valueAt key.name) = .eq :=
    Std.TransCmp.eq_trans hav (Std.OrientedCmp.eq_symm hbv)
  unfold compareKeysBy
  cases key.direction with
  | ascending => exact heq
  | descending => exact Std.OrientedCmp.eq_symm heq

/-- **Sorts are stable.** The rows whose values in the column have the same place as a given value
stay in their order. -/
theorem filter_sortBy (h : ∀ row ∈ rows, (row.valueAt key.name).HasPlace) {v : Value}
    (hv : v.HasPlace) :
    (sortBy key rows).filter (fun row => (row.valueAt key.name).compare v == .eq) =
      rows.filter fun row => (row.valueAt key.name).compare v == .eq := by
  set same : Row → Bool := fun row => (row.valueAt key.name).compare v == .eq
  have hties : (rows.filter same).Pairwise fun a b => (compareKeysBy key a b).isLE = true := by
    refine List.pairwise_of_forall_mem_list fun a ha b hb => ?_
    obtain ⟨ha, hav⟩ := List.mem_filter.1 ha
    obtain ⟨hb, hbv⟩ := List.mem_filter.1 hb
    rw [compareKeysBy_eq_eq (h a ha) (h b hb) hv (beq_iff_eq.1 hav) (beq_iff_eq.1 hbv)]
    rfl
  have hsub : (rows.filter same).Sublist (sortBy key rows) := by
    rw [sortBy_eq_keys h]
    exact List.sublist_mergeSort (isLE_compareKeysBy_trans key) (isLE_compareKeysBy_total key)
      hties List.filter_sublist
  have hfilter := hsub.filter same
  simp only [List.filter_filter, Bool.and_self] at hfilter
  exact (hfilter.eq_of_length ((sortBy_perm key rows).filter same).length_eq.symm).symm

end Dataset

namespace Sample

/-- Edits of a lion, a bear and an ant. Those of the lion and the ant add infinitely many
characters. -/
def endlessEdits : Dataset :=
  [[("added", .number (1 / 0)), ("page", .string "Lion")], [("page", .string "Bear")],
    [("added", .number (1 / 0)), ("page", .string "Ant")]]

end Sample

/-- **The order of values and its sorts.** Apart from doubles that are not numbers, values are in a
total preorder. Values of different kinds are ordered by kind, with null first; of one kind, except
for ranges of numbers and datasets, only equal ones have the same place. Whatever the column and
the direction, rows whose values have a place stay the same rows when they are sorted, are then in
this direction, and those among them whose values have the same place stay in their order. -/
theorem Dataset.sortBy_stable :
    (∀ v w : Value, v.HasPlace → w.HasPlace →
      w.compare v = (v.compare w).swap ∧
        (∀ u : Value, u.HasPlace → (u.compare v).isLE = true → (v.compare w).isLE = true →
          (u.compare w).isLE = true) ∧
        (v.kind = w.kind → v.kind ≠ .numberRange → v.kind ≠ .dataset →
          (v.compare w = .eq ↔ (v == w) = true))) ∧
    (∀ v w : Value, v.kind ≠ w.kind → v.compare w = Ord.compare v.rank w.rank) ∧
    (∀ v : Value, Value.null.compare v = if v.isNull then .eq else .lt) ∧
    ∀ (key : SortKey) (rows : Dataset), (∀ row ∈ rows, (row.valueAt key.name).HasPlace) →
      (sortBy key rows).Perm rows ∧
        (sortBy key rows).Pairwise (fun a b =>
          (key.compare (a.valueAt key.name) (b.valueAt key.name)).isLE = true) ∧
        ∀ v : Value, v.HasPlace →
          (sortBy key rows).filter (fun row => (row.valueAt key.name).compare v == .eq) =
            rows.filter fun row => (row.valueAt key.name).compare v == .eq := by
  refine ⟨fun v w hv hw => ⟨Value.compare_swap hv hw,
    fun u hu => Value.compare_isLE_trans hu hv hw, Value.compare_eq_eq_iff hv hw⟩,
    fun v w hkind => Value.compare_of_rank_ne (mt Value.rank_eq_iff_kind.1 hkind),
    Value.null_compare, fun key rows h => ⟨sortBy_perm key rows, ?_, fun v => filter_sortBy h⟩⟩
  refine (pairwise_sortBy h).imp fun {a b} hab => ?_
  rwa [← compareBy_eq, ← Ordering.ne_gt_iff_isLE]

open Sample in
/-- The greatest edits come first, that of the lion before that of the ant. -/
theorem Dataset.sortBy_stable_endless :
    (∀ row ∈ endlessEdits, (row.valueAt "added").HasPlace) ∧
      (Value.number (1 / 0)).HasPlace ∧
      Value.null.compare (.number (1 / 0)) = ((Value.number (1 / 0)).compare .null).swap ∧
      (sortBy ⟨"added", .descending⟩ endlessEdits).Perm endlessEdits ∧
      (sortBy ⟨"added", .descending⟩ endlessEdits).filter
          (fun row => (row.valueAt "added").compare (.number (1 / 0)) == .eq) =
        [[("added", .number (1 / 0)), ("page", .string "Lion")],
          [("added", .number (1 / 0)), ("page", .string "Ant")]] := by
  have hinfinity : (Value.number (1 / 0)).HasPlace := by
    rintro _ ⟨⟩
    decide
  have hrows : ∀ row ∈ endlessEdits, (row.valueAt "added").HasPlace :=
    List.forall_mem_cons.2 ⟨hinfinity, List.forall_mem_cons.2 ⟨nofun,
      List.forall_mem_singleton.2 hinfinity⟩⟩
  obtain ⟨hvalues, -, -, hsort⟩ := sortBy_stable
  obtain ⟨hperm, -, hties⟩ := hsort ⟨"added", .descending⟩ endlessEdits hrows
  exact ⟨hrows, hinfinity, (hvalues _ .null hinfinity nofun).1, hperm,
    (hties _ hinfinity).trans rfl⟩

end FederatedQuery
