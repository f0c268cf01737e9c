import FederatedQuery.Proofs.Records
import FederatedQuery.Proofs.Tables
import Mathlib.Data.List.Forall2

/-!
# Nested datasets in comma-separated text

A column that holds nothing but datasets is left out of the text of a dataset. A column in which a
dataset stands beside something else is not: there the dataset is written in its compact plain form,
as any value is that has no text of its own.

So what nested datasets hold is in the text exactly as far as they stand in such columns. This is
said by comparing datasets that are equal but for what their nested datasets hold: as a text can be
read back, equal texts have equal cells.

## Main definitions

* `Dataset.EqUpToNesting`: two datasets are equal but for what their nested datasets hold.
* `Dataset.NestedAlike`: where they stand in a column, nested datasets are written alike.
* `Dataset.refill`: the dataset with another one put for all nested ones.

## Main results

* `Dataset.EqUpToNesting.columns_eq`: the columns do not depend on what nested datasets hold.
* `Dataset.EqUpToNesting.toTable_eq_iff`: when two such datasets have one text.
* `Dataset.toTable_nested`: what a text tells of nested datasets.
-/

namespace FederatedQuery

/-! ### Equality up to nested datasets -/

/-- The values are equal, or both of them are datasets. -/
inductive Value.EqUpToNesting : Value → Value → Prop
  | refl (v : Value) : EqUpToNesting v v
  | dataset (inner inner' : Dataset) : EqUpToNesting (.dataset inner) (.dataset inner')

/-- The rows have cells of the same names, with equal values or datasets in them. -/
def Row.EqUpToNesting (row row' : Row) : Prop :=
  List.Forall₂ (fun cell cell' => cell.1 = cell'.1 ∧ cell.2.EqUpToNesting cell'.2) row row'

/-- The datasets have equally many rows, with equal values or datasets in their cells. -/
def Dataset.EqUpToNesting (rows rows' : Dataset) : Prop :=
  List.Forall₂ Row.EqUpToNesting rows rows'

variable {row row' : Row} {rows rows' : Dataset} {name : String}

theorem Value.EqUpToNesting.isDataset_eq {v v' : Value} (h : v.EqUpToNesting v') :
    v.isDataset = v'.isDataset := by
  cases h <;> rfl

/-- Cells of one name hold equal values or datasets, or are missing in both rows. -/
theorem Row.EqUpToNesting.get? (h : row.EqUpToNesting row') (name : String) :
    Option.Rel Value.EqUpToNesting (row.get? name) (row'.get? name) := by
  unfold Row.get?
  induction h with
  | nil => exact .none
  | @cons cell cell' _ _ hcell _ ih =>
    obtain ⟨n, v⟩ := cell
    obtain ⟨_, v'⟩ := cell'
    obtain ⟨rfl, hv⟩ : n = _ ∧ v.EqUpToNesting v' := hcell
    rw [List.lookup_cons, List.lookup_cons]
    cases name == n with
    | true => exact .some hv
    | false => exact ih

/-- The names that a row adds to the columns. -/
theorem Row.EqUpToNesting.names_eq (h : row.EqUpToNesting row') :
    (row.filter fun cell => !cell.2.isDataset).map Prod.fst =
      (row'.filter fun cell => !cell.2.isDataset).map Prod.fst := by
  induction h with
  | nil => rfl
  | cons hcell _ ih =>
    simp only [List.filter_cons, hcell.2.isDataset_eq]
    split
    · rw [List.map_cons, List.map_cons, hcell.1, ih]
    · exact ih

/-- **The columns do not depend on what nested datasets hold.** -/
theorem Dataset.EqUpToNesting.columns_eq (h : EqUpToNesting rows rows') :
    columns rows = columns rows' := by
  rw [columns_eq_foldl, columns_eq_foldl]
  congr 1
  induction h with
  | nil => rfl
  | cons hrow _ ih => rw [List.flatMap_cons, List.flatMap_cons, hrow.names_eq, ih]

/-! ### Cells -/

/-- If the cells called `name` hold datasets, these have one compact plain form. -/
def Row.NestedAlike (row row' : Row) (name : String) : Prop :=
  ∀ inner inner', row.get? name = some (.dataset inner) →
    row'.get? name = some (.dataset inner') →
      (Dataset.plain inner).compress = (Dataset.plain inner').compress

/-- Where datasets stand in a column, those of corresponding cells have one compact plain form. -/
def Dataset.NestedAlike (rows rows' : Dataset) : Prop :=
  List.Forall₂ (fun row row' => ∀ name ∈ columns rows, Row.NestedAlike row row' name) rows rows'

/-- A nested dataset is written in its compact plain form. -/
theorem Table.cell_dataset (inner : Dataset) :
    cell (some (.dataset inner)) = (Dataset.plain inner).compress := rfl

/-- Corresponding cells have one text, unless they hold datasets that are not written alike. -/
theorem Row.EqUpToNesting.cell_eq_iff (h : row.EqUpToNesting row') :
    Table.cell (row.get? name) = Table.cell (row'.get? name) ↔ row.NestedAlike row' name := by
  have hcells := h.get? name
  unfold NestedAlike
  generalize row.get? name = cell at hcells ⊢
  generalize row'.get? name = cell' at hcells ⊢
  cases hcells with
  | none => exact iff_of_true rfl fun _ _ hinner => nomatch hinner
  | some hv =>
    cases hv with
    | refl v =>
      refine iff_of_true rfl fun inner inner' hinner hinner' => ?_
      obtain rfl : inner = inner' := by simpa using hinner.symm.trans hinner'
      rfl
    | dataset inner inner' =>
      rw [Table.cell_dataset, Table.cell_dataset]
      exact ⟨fun heq => by rintro _ _ ⟨⟩ ⟨⟩; exact heq, fun halike => halike _ _ rfl rfl⟩

namespace Dataset

/-! ### Texts -/

/-- The fields of a row, for some columns. -/
def fields (names : List String) (row : Row) : List String :=
  names.map fun name => Table.cell (Row.get? row name)

theorem toTable_eq_join (rows : Dataset) :
    toTable rows =
      String.join ((columns rows :: rows.map (fields (columns rows))).map Table.record) := by
  rw [List.map_cons, List.map_map]
  rfl

theorem read_toTable_fields (h : columns rows ≠ []) :
    Table.read (toTable rows) = some (columns rows :: rows.map (fields (columns rows))) := by
  rw [toTable_eq_join]
  refine Table.read_join_record (List.forall_mem_cons.2 ⟨h, List.forall_mem_map.2 fun row _ => ?_⟩)
  exact mt List.map_eq_nil_iff.1 h

/-- Texts with some columns tell what the fields are. -/
theorem fields_eq_of_toTable_eq (hcolumns : columns rows = columns rows') (hne : columns rows ≠ [])
    (h : toTable rows = toTable rows') :
    rows.map (fields (columns rows)) = rows'.map (fields (columns rows')) := by
  have hrecords : some (columns rows :: rows.map (fields (columns rows))) =
      some (columns rows' :: rows'.map (fields (columns rows'))) := by
    rw [← read_toTable_fields hne, ← read_toTable_fields (hcolumns ▸ hne), h]
  exact (List.cons.inj (Option.some.inj hrecords)).2

/-- The fields are equal if and only if nested datasets are written alike. -/
theorem EqUpToNesting.fields_eq_iff (h : EqUpToNesting rows rows') (names : List String) :
    rows.map (fields names) = rows'.map (fields names) ↔
      List.Forall₂ (fun row row' => ∀ name ∈ names, Row.NestedAlike row row' name) rows rows' := by
  induction h with
  | nil => exact iff_of_true rfl .nil
  | cons hrow _ ih =>
    simp only [List.map_cons, List.cons.injEq, List.forall₂_cons, ih, fields, List.map_inj_left,
      hrow.cell_eq_iff]

/-- **Two datasets that are equal but for what their nested datasets hold** have one text if and
only if nested datasets in their columns are written alike. -/
theorem EqUpToNesting.toTable_eq_iff (h : EqUpToNesting rows rows') :
    toTable rows = toTable rows' ↔ NestedAlike rows rows' := by
  rw [NestedAlike, ← h.fields_eq_iff]
  constructor
  · intro htext
    by_cases hcolumns : columns rows = []
    · -- no field is written, so the text tells nothing; there is nothing to tell either
      rw [h.fields_eq_iff, hcolumns]
      exact h.imp fun _ _ _ _ hname => nomatch hname
    · rw [fields_eq_of_toTable_eq h.columns_eq hcolumns htext, h.columns_eq]
  · intro hfields
    rw [toTable_eq_join, toTable_eq_join, ← h.columns_eq, hfields]

end Dataset

/-! ### Other nested datasets -/

/-- The value with `inner` put for a dataset. -/
def Value.refill (inner : Dataset) : Value → Value
  | .dataset _ => .dataset inner
  | v => v

namespace Dataset

/-- The dataset with `inner` put for all nested ones. -/
def refill (inner rows : Dataset) : Dataset :=
  rows.map fun row => row.map fun cell => (cell.1, cell.2.refill inner)

theorem eqUpToNesting_refill (inner rows : Dataset) : EqUpToNesting rows (refill inner rows) := by
  refine List.forall₂_map_right_iff.2 (List.forall₂_same.2 fun row _ => ?_)
  refine List.forall₂_map_right_iff.2 (List.forall₂_same.2 fun cell _ => ⟨rfl, ?_⟩)
  cases cell.2 <;> constructor

/-- If putting `inner` for nested datasets does not change the text, then those in columns are
written as `inner` is. -/
theorem compress_eq_of_refill {inner inner' : Dataset}
    (h : toTable rows = toTable (refill inner rows)) (hname : name ∈ columns rows)
    (hrow : row ∈ rows) (hcell : Row.get? row name = some (.dataset inner')) :
    (Dataset.plain inner').compress = (Dataset.plain inner).compress := by
  have halike : NestedAlike rows (refill inner rows) :=
    (eqUpToNesting_refill inner rows).toTable_eq_iff.1 h
  have hrefilled : Row.get? (row.map fun cell => (cell.1, cell.2.refill inner)) name =
      some (.dataset inner) := by
    rw [Row.get?, Json.lookup_map_snd, ← Row.get?, hcell]
    rfl
  exact List.forall₂_same.1 (List.forall₂_map_right_iff.1 halike) row hrow name hname _ _ hcell
    hrefilled

/-- **What a text tells of nested datasets.** For datasets that are equal but for what their nested
datasets hold, the columns are the same, and the texts are the same if and only if the nested
datasets in these columns are written alike. So the text does not depend on what nested datasets
hold if and only if no row has one of them in a column. -/
theorem toTable_nested (rows : Dataset) :
    (∀ rows', EqUpToNesting rows rows' →
      columns rows = columns rows' ∧ (toTable rows = toTable rows' ↔ NestedAlike rows rows')) ∧
    ((∀ rows', EqUpToNesting rows rows' → toTable rows = toTable rows') ↔
      ∀ name ∈ columns rows, ∀ row ∈ rows, ∀ inner, Row.get? row name ≠ some (.dataset inner)) := by
  refine ⟨fun rows' h => ⟨h.columns_eq, h.toTable_eq_iff⟩, fun hsame => ?_, fun hnone => ?_⟩
  · -- no dataset is written both as one without rows and as one with an empty row
    intro name hname row hrow inner hcell
    have hwritten (inner' : Dataset) :
        (Dataset.plain inner).compress = (Dataset.plain inner').compress :=
      compress_eq_of_refill (hsame _ (eqUpToNesting_refill inner' rows)) hname hrow hcell
    exact absurd ((hwritten []).symm.trans (hwritten [[]])) (by decide)
  · intro rows' h
    refine h.toTable_eq_iff.2 (List.forall₂_iff_zip.2 ⟨h.length_eq, fun hrows name hname => ?_⟩)
    exact fun inner _ hcell => absurd hcell (hnone name hname _ (List.of_mem_zip hrows).1 inner)

end Dataset

namespace Sample

/-- Two pages, with a note on either of them. -/
def remarks (front back : Value) : Dataset :=
  [[("Note", front), ("Page", .string "Front")], [("Note", back), ("Page", .string "Back")]]

theorem eqUpToNesting_remarks {front front' back back' : Value}
    (hfront : front.EqUpToNesting front') (hback : back.EqUpToNesting back') :
    (remarks front back).EqUpToNesting (remarks front' back') :=
  .cons (.cons ⟨rfl, hfront⟩ (.cons ⟨rfl, .refl _⟩ .nil))
    (.cons (.cons ⟨rfl, hback⟩ (.cons ⟨rfl, .refl _⟩ .nil)) .nil)

end Sample

open Sample in
/-- If both notes are datasets, the text has the pages only, whatever is noted. -/
theorem Dataset.toTable_nested_remarks :
    EqUpToNesting (remarks (.dataset []) (.dataset [[("Page", .string "Lion")]]))
        (remarks (.dataset [[]]) (.dataset [])) ∧
      toTable (remarks (.dataset []) (.dataset [[("Page", .string "Lion")]])) =
        toTable (remarks (.dataset [[]]) (.dataset [])) := by
  have hsame : EqUpToNesting (remarks (.dataset []) (.dataset [[("Page", .string "Lion")]]))
      (remarks (.dataset [[]]) (.dataset [])) :=
    eqUpToNesting_remarks (.dataset _ _) (.dataset _ _)
  refine ⟨hsame, (toTable_nested _).2.2 ?_ _ hsame⟩
  intro name hname row hrow inner
  obtain rfl : name = "Page" := List.mem_singleton.1 hname
  obtain rfl | rfl : row = _ ∨ row = _ := by simpa [remarks] using hrow
  · exact nofun
  · exact nofun

open Sample in
/-- If one note is a text, a dataset in the other one is written out. -/
theorem Dataset.toTable_mixed_remarks :
    EqUpToNesting (remarks (.string "kept") (.dataset [[("Page", .string "Lion")]]))
        (remarks (.string "kept") (.dataset [])) ∧
      toTable (remarks (.string "kept") (.dataset [[("Page", .string "Lion")]])) =
        "Note,Page\nkept,Front\n\"[\x7b\"\"Page\"\":\"\"Lion\"\"\x7d]\",Back\n" ∧
      toTable (remarks (.string "kept") (.dataset [])) = "Note,Page\nkept,Front\n[],Back\n" ∧
      toTable (remarks (.string "kept") (.dataset [[("Page", .string "Lion")]])) ≠
        toTable (remarks (.string "kept") (.dataset [])) :=
  ⟨eqUpToNesting_remarks (.refl _) (.dataset _ _), rfl, rfl, by decide⟩

end FederatedQuery
