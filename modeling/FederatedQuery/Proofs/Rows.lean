import FederatedQuery.Execution.Answer
import FederatedQuery.Execution.Finish
import FederatedQuery.Proofs.Success
import Mathlib.Data.String.Basic

/-!
# The cells of rows

Writing, deriving and dropping cells leave the other cells of a row alone. If the value of a cell
depends on nothing but its name, cells may be written in any order and more than once.

## Main definitions

* `Row.only`, `Row.without`: the cells of some names, and those of all other names.
* `Row.write`: a row into which several cells are written.
* `Row.IsSorted`: rows with names in ascending order.

## Main results

* `Row.get?_write`, `Row.get?_erase`, `Row.get?_derive`: the cells of rows.
* `Row.put_comm`, `Row.write_congr`: the order in which cells are written does not matter.
* `Row.IsSorted.ofCells_eq`: cells in the order of their names are a row.
* `Row.get?_extend`: extending a row by cells with different names.
* `Row.extend_eq_write`: extending a row writes the cells of another one.
* `Row.IsSorted.ext`: rows with the same cells are the same.
* `Compiled.get?_row`, `Finish.get?_dropHidden`: the cells of fetched and finished rows.
-/

namespace FederatedQuery

/-! ### Finding entries -/

theorem List.lookup_cons_ite {α : Type} (n : String) (v : α) (l : List (String × α))
    (name : String) : ((n, v) :: l).lookup name = if name = n then some v else l.lookup name := by
  rw [List.lookup_cons]
  by_cases h : name = n
  · rw [h, beq_self_eq_true, if_pos rfl]
  · rw [beq_false_of_ne h, if_neg h]

theorem List.lookup_eq_none_iff_notMem {α : Type} {l : List (String × α)} {name : String} :
    l.lookup name = none ↔ name ∉ l.map Prod.fst := by
  rw [List.lookup_eq_none_iff, List.mem_map, not_exists]
  exact forall_congr' fun entry => by rw [bne_iff_ne, not_and, ne_comm]

namespace Row

/-! ### Reading cells -/

theorem get?_cons (n : String) (v : Value) (row : Row) (name : String) :
    get? ((n, v) :: row) name = if name = n then some v else row.get? name :=
  List.lookup_cons_ite n v row name

theorem get?_put_eq (row : Row) (name : String) (value : Value) (other : String) :
    (row.put name value).get? other = if other = name then some value else row.get? other := by
  by_cases h : other = name
  · rw [h, get?_put, if_pos rfl]
  · rw [get?_put_of_ne row value h, if_neg h]

/-- Dropping a cell leaves the others alone. -/
theorem get?_erase (row : Row) (name other : String) :
    (row.erase name).get? other = if other = name then none else row.get? other := by
  induction row with
  | nil => exact (ite_self none).symm
  | cons cell row ih =>
    obtain ⟨n, v⟩ := cell
    rw [erase] at ih ⊢
    by_cases hn : n = name
    · rw [List.filter_cons_of_neg (by simp [hn]), ih, get?_cons, hn]
      by_cases h : other = name
      · rw [if_pos h, if_pos h]
      · rw [if_neg h, if_neg h, if_neg h]
    · rw [List.filter_cons_of_pos (by simp [hn]), get?_cons, get?_cons, ih]
      by_cases h : other = n
      · rw [if_pos h, if_pos h, if_neg (h ▸ hn)]
      · rw [if_neg h, if_neg h]

theorem get?_foldl_erase (names : List String) (row : Row) (name : String) :
    (names.foldl erase row).get? name = if name ∈ names then none else row.get? name := by
  induction names generalizing row with
  | nil => rw [if_neg List.not_mem_nil, List.foldl_nil]
  | cons n names ih =>
    rw [List.foldl_cons, ih, get?_erase]
    by_cases hname : name ∈ names
    · rw [if_pos hname, if_pos (List.mem_cons_of_mem n hname)]
    · by_cases h : name = n
      · rw [if_neg hname, if_pos h, if_pos (List.mem_cons.2 (.inl h))]
      · rw [if_neg hname, if_neg h, if_neg (List.not_mem_cons_of_ne_of_not_mem h hname)]

theorem derive_cons (scope : Scope) (row : Row) (name : String) (e : Expression)
    (derived : List (String × Expression)) :
    row.derive scope ((name, e) :: derived) =
      e.evaluate (row :: scope) >>= fun v => (row.put name v).derive scope derived := by
  rw [derive, List.foldlM_cons, bind_assoc]
  rfl

/-- Values derived from expressions that are evaluated alike make the same row. They need to be so
only in rows with a property that is kept when one of the values is written. -/
theorem derive_congr {scope : Scope} {P : Row → Prop} {row : Row}
    {derived others : List (String × Expression)} (hrow : P row)
    (hput : ∀ row v, P row → ∀ name ∈ derived.map Prod.fst, P (row.put name v))
    (h : ∀ row, P row → List.Forall₂ (fun p q => p.1 = q.1 ∧
      p.2.evaluate (row :: scope) = q.2.evaluate (row :: scope)) derived others) :
    row.derive scope derived = row.derive scope others := by
  induction derived generalizing row others with
  | nil =>
    cases h row hrow
    rfl
  | cons value derived ih =>
    obtain ⟨name, e⟩ := value
    obtain _ | @⟨_, ⟨name', e'⟩, _, others, ⟨rfl, heval⟩, -⟩ := h row hrow
    rw [derive_cons, derive_cons, heval]
    refine bind_congr fun v => ih (hput row v hrow name List.mem_cons_self) ?_ ?_
    · exact fun row v hrow n hn => hput row v hrow n (List.mem_cons_of_mem name hn)
    · intro row hrow
      exact (List.forall₂_cons.1 (h row hrow)).2

/-- Deriving values leaves the other cells alone. -/
theorem get?_derive {scope : Scope} {row row' : Row} {derived : List (String × Expression)}
    (h : row.derive scope derived = .ok row') {name : String}
    (hname : name ∉ derived.map Prod.fst) : row'.get? name = row.get? name := by
  revert hname
  refine Except.foldlM_induction
    (motive := fun done next => name ∉ done.map Prod.fst → next.get? name = row.get? name) h
    (fun _ => rfl) fun done entry next last hdone hlast hname => ?_
  obtain ⟨value, -, ⟨⟩⟩ := Except.bind_eq_ok.1 hlast
  rw [List.map_append, List.mem_append, not_or, List.map_singleton, List.mem_singleton] at hname
  rw [get?_put_of_ne next value hname.2, hdone hname.1]

/-! ### One cell after the other -/

theorem put_cons (n : String) (v : Value) (row : Row) (name : String) (value : Value) :
    put ((n, v) :: row) name value =
      if name = n then (name, value) :: row
      else if name < n then (name, value) :: (n, v) :: row
      else (n, v) :: put row name value := rfl

/-- Of two values written into one cell, the last one counts. -/
theorem put_put (row : Row) (name : String) (v w : Value) :
    (row.put name v).put name w = row.put name w := by
  induction row with
  | nil => rw [put, put, put_cons, if_pos rfl]
  | cons cell row ih =>
    obtain ⟨n, u⟩ := cell
    rw [put_cons, put_cons]
    split
    · rw [put_cons, if_pos rfl]
    · split
      · rw [put_cons, if_pos rfl]
      · next hne hlt => rw [put_cons, if_neg hne, if_neg hlt, ih]

/-- Cells of different names may be written in any order. -/
theorem put_comm (row : Row) {n m : String} (h : n ≠ m) (v w : Value) :
    (row.put n v).put m w = (row.put m w).put n v := by
  induction row with
  | nil =>
    obtain hlt | hlt := lt_or_gt_of_ne h
    · simp [put, put_cons, h, h.symm, hlt, hlt.not_gt]
    · simp [put, put_cons, h, h.symm, hlt, hlt.not_gt]
  | cons cell row ih =>
    obtain ⟨k, u⟩ := cell
    obtain hn | rfl | hn := lt_trichotomy n k
    · obtain hm | rfl | hm := lt_trichotomy m k
      · obtain hlt | hlt := lt_or_gt_of_ne h
        · simp [put_cons, h, h.symm, hlt, hlt.not_gt, hn, hn.ne, hm, hm.ne]
        · simp [put_cons, h, h.symm, hlt, hlt.not_gt, hn, hn.ne, hm, hm.ne]
      · simp [put_cons, h, h.symm, hn, hn.not_gt]
      · simp [put_cons, h.symm, hn, hn.ne, hm.not_gt, hm.ne', (hn.trans hm).not_gt]
    · obtain hm | hm := lt_or_gt_of_ne h
      · simp [put_cons, h.symm, hm.not_gt]
      · simp [put_cons, h, h.symm, hm, hm.not_gt]
    · obtain hm | rfl | hm := lt_trichotomy m k
      · simp [put_cons, h, hm, hm.ne, hn.not_gt, hn.ne', (hm.trans hn).not_gt]
      · simp [put_cons, h, hn.not_gt]
      · simp [put_cons, hn.not_gt, hn.ne', hm.not_gt, hm.ne', ih]

/-! ### Parts of rows -/

/-- The cells of a row that have the given names. -/
def only (row : Row) (names : List String) : Row := row.filter fun cell => cell.1 ∈ names

/-- The cells of a row that have other names. -/
def without (row : Row) (names : List String) : Row := names.foldl erase row

theorem get?_only (row : Row) (names : List String) (name : String) :
    (row.only names).get? name = if name ∈ names then row.get? name else none := by
  induction row with
  | nil => exact (ite_self none).symm
  | cons cell row ih =>
    obtain ⟨n, v⟩ := cell
    rw [only] at ih ⊢
    by_cases hn : n ∈ names
    · rw [List.filter_cons_of_pos (by simpa using hn), get?_cons, get?_cons, ih]
      by_cases h : name = n
      · rw [if_pos h, if_pos h, if_pos (h ▸ hn)]
      · rw [if_neg h, if_neg h]
    · rw [List.filter_cons_of_neg (by simpa using hn), get?_cons, ih]
      by_cases h : name = n
      · rw [if_neg (h ▸ hn), if_neg (h ▸ hn)]
      · rw [if_neg h]

theorem get?_without (row : Row) (names : List String) (name : String) :
    (row.without names).get? name = if name ∈ names then none else row.get? name :=
  get?_foldl_erase names row name

/-! ### Writing several cells -/

/-- Writes the cells of the given names. -/
def write (cell : String → Value) (row : Row) (names : List String) : Row :=
  names.foldl (fun row name => row.put name (cell name)) row

variable {cell : String → Value}

@[simp] theorem write_nil (row : Row) : write cell row [] = row := rfl

@[simp] theorem write_cons (row : Row) (name : String) (names : List String) :
    write cell row (name :: names) = write cell (row.put name (cell name)) names := rfl

theorem write_append (row : Row) (names others : List String) :
    write cell row (names ++ others) = write cell (write cell row names) others :=
  List.foldl_append

theorem get?_write (row : Row) (names : List String) (name : String) :
    (write cell row names).get? name =
      if name ∈ names then some (cell name) else row.get? name := by
  induction names generalizing row with
  | nil => rw [if_neg List.not_mem_nil, write_nil]
  | cons n names ih =>
    rw [write_cons, ih, get?_put_eq]
    by_cases hname : name ∈ names
    · rw [if_pos hname, if_pos (List.mem_cons_of_mem n hname)]
    · by_cases h : name = n
      · rw [if_neg hname, if_pos h, if_pos (List.mem_cons.2 (.inl h)), h]
      · rw [if_neg hname, if_neg h, if_neg (List.not_mem_cons_of_ne_of_not_mem h hname)]

/-- One of the cells may be written first or last. -/
theorem write_put (row : Row) (name : String) (names : List String) :
    write cell (row.put name (cell name)) names =
      (write cell row names).put name (cell name) := by
  induction names generalizing row with
  | nil => rfl
  | cons n names ih =>
    rw [write_cons, write_cons, ← ih]
    by_cases h : name = n
    · rw [h]
    · rw [put_comm row h]

/-- A cell need not be written twice. -/
theorem write_put_of_mem (row : Row) {name : String} {names : List String} (h : name ∈ names) :
    write cell (row.put name (cell name)) names = write cell row names := by
  induction names generalizing row with
  | nil => exact absurd h List.not_mem_nil
  | cons n names ih =>
    rw [write_cons, write_cons]
    obtain rfl | hmem := List.mem_cons.1 h
    · rw [put_put]
    · by_cases hn : name = n
      · rw [hn, put_put]
      · rw [put_comm row hn, ih _ hmem]

/-- Cells need not be written twice. -/
theorem write_write_of_subset (row : Row) {names others : List String} (h : others ⊆ names) :
    write cell (write cell row others) names = write cell row names := by
  induction others generalizing row with
  | nil => rfl
  | cons n others ih =>
    obtain ⟨hmem, hsubset⟩ := List.cons_subset.1 h
    rw [write_cons, ih _ hsubset, write_put_of_mem row hmem]

theorem write_comm (row : Row) (names others : List String) :
    write cell (write cell row names) others = write cell (write cell row others) names := by
  induction others generalizing row with
  | nil => rfl
  | cons n others ih => rw [write_cons, write_cons, ← write_put, ih]

/-- **The order of writing.** It does not matter in which order, and how often, cells are
written. -/
theorem write_congr (row : Row) {names others : List String} (h : ∀ n, n ∈ names ↔ n ∈ others) :
    write cell row names = write cell row others :=
  calc write cell row names
    _ = write cell (write cell row others) names :=
        (write_write_of_subset row fun n => (h n).2).symm
    _ = write cell (write cell row names) others := write_comm row others names
    _ = write cell row others := write_write_of_subset row fun n => (h n).1

/-! ### Names in ascending order -/

/-- The names of a row are in ascending order. -/
def IsSorted (row : Row) : Prop := row.Pairwise fun a b => a.1 < b.1

instance (row : Row) : Decidable row.IsSorted :=
  inferInstanceAs (Decidable (row.Pairwise fun a b => a.1 < b.1))

theorem mem_put {row : Row} {name : String} {value : Value} {other : String × Value}
    (h : other ∈ row.put name value) : other = (name, value) ∨ other ∈ row := by
  induction row with
  | nil => exact .inl (List.mem_singleton.1 h)
  | cons cell row ih =>
    obtain ⟨n, v⟩ := cell
    rw [put_cons] at h
    split at h
    · exact (List.mem_cons.1 h).imp_right (List.mem_cons_of_mem _)
    · split at h
      · exact List.mem_cons.1 h
      · obtain rfl | hmem := List.mem_cons.1 h
        · exact .inr List.mem_cons_self
        · exact (ih hmem).imp_right (List.mem_cons_of_mem _)

theorem IsSorted.put {row : Row} (h : row.IsSorted) (name : String) (value : Value) :
    (row.put name value).IsSorted := by
  induction row with
  | nil => exact List.pairwise_singleton _ _
  | cons cell row ih =>
    obtain ⟨n, v⟩ := cell
    obtain ⟨hn, hrow⟩ := List.pairwise_cons.1 h
    rw [put_cons]
    split
    · next heq => exact List.pairwise_cons.2 ⟨fun other hother => heq ▸ hn other hother, hrow⟩
    · next hne =>
      split
      · next hlt =>
        refine List.pairwise_cons.2 ⟨fun other hother => ?_, h⟩
        obtain rfl | hmem := List.mem_cons.1 hother
        · exact hlt
        · exact hlt.trans (hn other hmem)
      · next hge =>
        refine List.pairwise_cons.2 ⟨fun other hother => ?_, ih hrow⟩
        obtain rfl | hmem := mem_put hother
        · exact lt_of_le_of_ne (not_lt.1 hge) (Ne.symm hne)
        · exact hn other hmem

theorem IsSorted.write {row : Row} (h : row.IsSorted) (names : List String) :
    (Row.write cell row names).IsSorted := by
  induction names generalizing row with
  | nil => exact h
  | cons n names ih => exact ih (h.put n (cell n))

theorem IsSorted.foldl_erase {row : Row} (h : row.IsSorted) (names : List String) :
    (names.foldl erase row).IsSorted := by
  induction names generalizing row with
  | nil => exact h
  | cons n names ih => exact ih (List.Pairwise.filter _ h)

theorem IsSorted.derive {scope : Scope} {row row' : Row} {derived : List (String × Expression)}
    (hrow : row.IsSorted) (h : row.derive scope derived = .ok row') : row'.IsSorted := by
  refine Except.foldlM_induction (motive := fun _ next => next.IsSorted) h hrow
    fun _ entry next last hnext hlast => ?_
  obtain ⟨value, -, ⟨⟩⟩ := Except.bind_eq_ok.1 hlast
  exact hnext.put entry.1 value

/-- In a row with names in ascending order, each cell is found under its name. -/
theorem IsSorted.get?_of_mem {row : Row} (h : row.IsSorted) {name : String} {value : Value}
    (hmem : (name, value) ∈ row) : row.get? name = some value := by
  induction row with
  | nil => exact absurd hmem List.not_mem_nil
  | cons cell row ih =>
    obtain ⟨n, v⟩ := cell
    obtain ⟨hn, hrow⟩ := List.pairwise_cons.1 h
    rw [get?_cons]
    obtain ⟨⟨⟩⟩ | hmem := List.mem_cons.1 hmem
    · exact if_pos rfl
    · rw [if_neg (hn _ hmem).ne', ih hrow hmem]

/-- A cell whose name comes after all others is written at the end. -/
theorem put_of_forall_lt {row : Row} {name : String} (h : ∀ cell ∈ row, cell.1 < name)
    (value : Value) : row.put name value = row ++ [(name, value)] := by
  induction row with
  | nil => rfl
  | cons cell row ih =>
    obtain ⟨n, v⟩ := cell
    obtain ⟨hn, hrow⟩ := List.forall_mem_cons.1 h
    rw [put_cons, if_neg hn.ne', if_neg hn.not_gt, ih hrow]
    rfl

theorem extend_of_isSorted {row : Row} (cells : List (String × Value))
    (h : IsSorted (row ++ cells)) : row.extend cells = row ++ cells := by
  induction cells generalizing row with
  | nil => exact (List.append_nil row).symm
  | cons cell cells ih =>
    obtain ⟨name, value⟩ := cell
    have hlt : ∀ other ∈ row, other.1 < name := fun other hother =>
      (List.pairwise_append.1 h).2.2 other hother _ List.mem_cons_self
    rw [List.append_cons] at h
    rw [extend, List.foldl_cons, put_of_forall_lt hlt, ← extend, ih h, ← List.append_cons]

/-- Cells in the order of their names make the row that they are. -/
theorem IsSorted.ofCells_eq {row : Row} (h : row.IsSorted) : ofCells row = row :=
  extend_of_isSorted row h

theorem mem_extend {row : Row} {cells : List (String × Value)} {other : String × Value}
    (h : other ∈ row.extend cells) : other ∈ row ∨ other ∈ cells := by
  induction cells generalizing row with
  | nil => exact .inl h
  | cons cell cells ih =>
    obtain hput | hmem := ih h
    · obtain rfl | hrow := mem_put hput
      · exact .inr List.mem_cons_self
      · exact .inl hrow
    · exact .inr (List.mem_cons_of_mem _ hmem)

theorem IsSorted.extend {row : Row} (h : row.IsSorted) (cells : List (String × Value)) :
    (row.extend cells).IsSorted := by
  induction cells generalizing row with
  | nil => exact h
  | cons cell cells ih => exact ih (h.put cell.1 cell.2)

/-- Of a row that is extended by cells with different names, the new cells are found first. -/
theorem get?_extend {cells : List (String × Value)} (h : (cells.map Prod.fst).Nodup) (row : Row)
    (name : String) : (row.extend cells).get? name = (cells.lookup name).or (row.get? name) := by
  induction cells generalizing row with
  | nil => rfl
  | cons cell cells ih =>
    obtain ⟨n, v⟩ := cell
    obtain ⟨hn, hcells⟩ := List.nodup_cons.1 h
    refine (ih hcells _).trans ?_
    rw [get?_put_eq, List.lookup_cons_ite]
    split
    · next hname =>
      rw [hname, List.lookup_eq_none_iff_notMem.2 hn]
      rfl
    · rfl

/-- A row that is extended by the values that there are of some names. -/
theorem get?_extend_filterMap (f : String → Option Value) (names : List String) (row : Row)
    (name : String) :
    (row.extend (names.filterMap fun n => (f n).map (n, ·))).get? name =
      if name ∈ names then (f name).or (row.get? name) else row.get? name := by
  induction names generalizing row with
  | nil => rfl
  | cons n names ih =>
    rw [List.filterMap_cons]
    cases hn : f n with
    | none =>
      refine (ih row).trans ?_
      by_cases hname : name = n
      · rw [hname, hn, Option.none_or, ite_self, ite_self]
      · exact if_congr (by rw [List.mem_cons, or_iff_right hname]) rfl rfl
    | some v =>
      refine (ih (row.put n v)).trans ?_
      by_cases hname : name = n
      · rw [hname, get?_put, hn, if_pos List.mem_cons_self]
        exact ite_self (some v)
      · rw [get?_put_of_ne row v hname]
        exact if_congr (by rw [List.mem_cons, or_iff_right hname]) rfl rfl

/-- A row has no cells but those that it is made of. -/
theorem mem_of_mem_ofCells {cells : List (String × Value)} {other : String × Value}
    (h : other ∈ ofCells cells) : other ∈ cells :=
  (mem_extend h).resolve_left List.not_mem_nil

theorem isSorted_ofCells (cells : List (String × Value)) : (ofCells cells).IsSorted :=
  IsSorted.extend List.Pairwise.nil cells

theorem mem_of_get?_eq_some {row : Row} {name : String} {value : Value}
    (h : row.get? name = some value) : (name, value) ∈ row := by
  induction row with
  | nil => exact nomatch h
  | cons cell row ih =>
    obtain ⟨n, v⟩ := cell
    rw [get?_cons] at h
    split at h
    · next heq =>
      cases h
      exact heq ▸ List.mem_cons_self
    · exact List.mem_cons_of_mem _ (ih h)

/-- Extending a row by another one writes the cells of the other one. -/
theorem extend_eq_write {other : Row} (hsorted : other.IsSorted) {names : List String}
    (hcells : ∀ n, other.get? n = if n ∈ names then some (cell n) else none) (row : Row) :
    row.extend other = write cell row names := by
  have hmem (n : String) (v : Value) (h : (n, v) ∈ other) : n ∈ names ∧ v = cell n := by
    have hget := (hcells n).symm.trans (hsorted.get?_of_mem h)
    split at hget
    · next hn => exact ⟨hn, (Option.some.inj hget).symm⟩
    · exact nomatch hget
  have hnames (n : String) : n ∈ other.map Prod.fst ↔ n ∈ names := by
    constructor
    · intro h
      obtain ⟨⟨_, v⟩, hv, rfl⟩ := List.mem_map.1 h
      exact (hmem _ v hv).1
    · intro h
      exact List.mem_map.2 ⟨(n, cell n), mem_of_get?_eq_some ((hcells n).trans (if_pos h)), rfl⟩
  rw [← write_congr row hnames, write, List.foldl_map, extend]
  refine List.foldl_ext _ _ _ fun row entry hentry => ?_
  rw [(hmem entry.1 entry.2 hentry).2]

/-! ### Rows with the same cells -/

/-- Rows with names in ascending order are the same if they have the same cells. -/
theorem IsSorted.ext {row other : Row} (hrow : row.IsSorted) (hother : other.IsSorted)
    (h : ∀ n, row.get? n = other.get? n) : row = other := by
  have hcells (n : String) : row.get? n =
      if n ∈ row.map Prod.fst then some ((row.get? n).getD .null) else none := by
    split
    · next hn =>
      obtain ⟨⟨_, v⟩, hv, rfl⟩ := List.mem_map.1 hn
      rw [hrow.get?_of_mem hv, Option.getD_some]
    · next hn =>
      refine Option.eq_none_iff_forall_ne_some.2 fun v hv => hn ?_
      exact List.mem_map.2 ⟨(n, v), mem_of_get?_eq_some hv, rfl⟩
  calc row
    _ = ofCells row := hrow.ofCells_eq.symm
    _ = Row.write (fun n => (row.get? n).getD .null) [] (row.map Prod.fst) :=
        extend_eq_write hrow hcells []
    _ = ofCells other := (extend_eq_write hother (fun n => (h n).symm.trans (hcells n)) []).symm
    _ = other := hother.ofCells_eq

theorem IsSorted.without {row : Row} (h : row.IsSorted) (names : List String) :
    (row.without names).IsSorted :=
  h.foldl_erase names

theorem IsSorted.only {row : Row} (h : row.IsSorted) (names : List String) :
    (row.only names).IsSorted :=
  List.Pairwise.filter _ h

/-- A cell that is not dropped may be written before or after others are dropped. -/
theorem put_without {row : Row} (h : row.IsSorted) {names : List String} {name : String}
    (hname : name ∉ names) (value : Value) :
    (row.put name value).without names = (row.without names).put name value := by
  refine ((h.put name value).without names).ext ((h.without names).put name value) fun n => ?_
  rw [get?_without, get?_put_eq, get?_put_eq, get?_without]
  by_cases hn : n = name
  · rw [if_pos hn, if_pos hn, if_neg (hn ▸ hname)]
  · rw [if_neg hn, if_neg hn]

/-- Writing a cell again that has been dropped with others. -/
theorem without_of_get? {row : Row} (h : row.IsSorted) {names others : List String}
    {name : String} {value : Value} (hrow : row.get? name = some value) (hname : name ∉ others)
    (hothers : ∀ n, n ∈ names ↔ n = name ∨ n ∈ others) :
    (row.without names).put name value = row.without others := by
  refine ((h.without names).put name value).ext (h.without others) fun n => ?_
  rw [get?_without, get?_put_eq, get?_without]
  by_cases hn : n = name
  · rw [if_pos hn, hn, if_neg hname, hrow]
  · rw [if_neg hn]
    exact if_congr ((hothers n).trans (or_iff_right hn)) rfl rfl

end Row

/-- Dropping the hidden columns leaves the other cells alone. -/
theorem Finish.get?_dropHidden (f : Finish) (row : Row) (name : String) :
    (f.dropHidden row).get? name = if name ∈ f.hidden then none else row.get? name :=
  Row.get?_foldl_erase f.hidden row name

/-- A fetched row has the native columns, and next to them at most the key of its group. -/
theorem Compiled.get?_row (c : Compiled) (record : Json.Fields) (name : String) :
    (c.row record).get? name =
      if name ∈ c.columns ∨ c.grouping.any (·.name = name) then some (recordCell record name)
      else none := by
  change (Row.write (recordCell record) _ c.columns).get? name = _
  rw [Row.get?_write]
  by_cases hname : name ∈ c.columns
  · rw [if_pos hname, if_pos (.inl hname)]
  · rw [if_neg hname]
    cases c.grouping with
    | none => rw [if_neg (by simpa using hname), Row.get?, List.lookup_nil]
    | some g =>
      simp only [Row.put, Row.get?_cons, Option.any_some, hname, false_or, decide_eq_true_eq]
      by_cases h : name = g.name
      · rw [if_pos h, if_pos h.symm, h]
      · rw [if_neg h, if_neg (Ne.symm h), Row.get?, List.lookup_nil]

end FederatedQuery
