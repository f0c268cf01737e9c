import FederatedQuery.Proofs.Sample
import Mathlib.Algebra.Group.Nat.Defs
import Mathlib.Data.List.Lex

/-!
# The order of versions

A version is a text such as `0.10.0-rc3`. What can be compared of it are the numbers at its front,
between points and hyphens; they end where something else than a number stands between two of these.
They are compared as lists are, number by number: `0.9.2` comes before `0.10.0`, and a version
before those that continue it. With how many zeros a number begins, and by which of the two signs
numbers are separated, does not matter.

A version that begins with no number is not at least any other one, and neither is one in which a
number does not fit into a word.

## Main definitions

* `Version.Leads`: the numbers at the front of a text.

## Main results

* `Version.existsUnique_leads`: every text has such numbers, be it none.
* `Version.Leads.parse?_eq`: these numbers are read.
* `Version.notBelow_iff_le`: they are compared as lists are.
* `External.versionAtLeast_iff_le`: the comparison of versions.
-/

namespace FederatedQuery

namespace Version

/-! ### Numbers at the front of a text -/

/-- The text is a number, in one or more digits. -/
def IsNumeral (run : List Char) : Prop := run ≠ [] ∧ ∀ c ∈ run, c.isDigit = true

/-- The text is over, or goes on with a separator. -/
def Breaks (rest : List Char) : Prop := ∀ c ∈ rest.head?, isSeparator c = true

/-- The numbers at the front of a text, each before a separator or the end of the text. They end
where something else stands there, whatever comes after it. -/
inductive Leads : List Nat → List Char → Prop
  | none {piece rest : List Char} (hpiece : ∀ c ∈ piece, isSeparator c = false)
      (hnumeral : ¬IsNumeral piece) (hrest : Breaks rest) : Leads [] (piece ++ rest)
  | one {run : List Char} (hrun : IsNumeral run) : Leads [Text.numeral run] run
  | more {run rest : List Char} {sep : Char} {numbers : List Nat} (hrun : IsNumeral run)
      (hsep : isSeparator sep = true) (hnumbers : Leads numbers rest) :
      Leads (Text.numeral run :: numbers) (run ++ sep :: rest)

variable {run piece rest : List Char} {sep : Char}

theorem isNumber_iff : isNumber run = true ↔ IsNumeral run := by
  simp [isNumber, IsNumeral]

/-- No digit is a separator. -/
theorem IsNumeral.not_isSeparator (h : IsNumeral run) : ∀ c ∈ run, isSeparator c = false := by
  intro c hc
  have hdigit := h.2 c hc
  rw [isSeparator, Bool.or_eq_false_iff, decide_eq_false_iff_not, decide_eq_false_iff_not]
  constructor <;> rintro rfl <;> exact nomatch hdigit

/-- What stands before the first separator is a piece. -/
theorem pieces_append (hpiece : ∀ c ∈ piece, isSeparator c = false) (hsep : isSeparator sep = true)
    (rest : List Char) : pieces (piece ++ sep :: rest) = piece :: pieces rest := by
  induction piece with
  | nil => simp [pieces, hsep]
  | cons c piece ih =>
    obtain ⟨hc, hpiece⟩ := List.forall_mem_cons.1 hpiece
    simp [pieces, hc, ih hpiece]

/-- A text without separators is one piece. -/
theorem pieces_eq_singleton (hpiece : ∀ c ∈ piece, isSeparator c = false) :
    pieces piece = [piece] := by
  induction piece with
  | nil => rfl
  | cons c piece ih =>
    obtain ⟨hc, hpiece⟩ := List.forall_mem_cons.1 hpiece
    simp [pieces, hc, ih hpiece]

variable {text : String} {cs : List Char} {numbers : List Nat}

/-- The numbers at the front of a text are those of its first pieces. -/
theorem Leads.map_takeWhile (h : Leads numbers cs) :
    ((pieces cs).takeWhile isNumber).map Text.numeral = numbers := by
  induction h with
  | @none piece rest hpiece hnumeral hrest =>
    rw [← isNumber_iff] at hnumeral
    cases rest with
    | nil => simp [pieces_eq_singleton hpiece, hnumeral]
    | cons sep rest => simp [pieces_append hpiece (hrest sep rfl), hnumeral]
  | one hrun =>
    rw [pieces_eq_singleton hrun.not_isSeparator]
    simp [isNumber_iff.2 hrun]
  | more hrun hsep _ ih =>
    rw [pieces_append hrun.not_isSeparator hsep, List.takeWhile_cons_of_pos (isNumber_iff.2 hrun),
      List.map_cons, ih]

/-- There are numbers at the front of a text, whatever it begins with. -/
theorem exists_leads (hpiece : ∀ c ∈ piece, isSeparator c = false) (rest : List Char) :
    ∃ numbers, Leads numbers (piece ++ rest) := by
  -- the piece grows up to the next separator, where a new one begins
  induction rest generalizing piece with
  | nil =>
    by_cases hnumeral : IsNumeral piece
    · rw [List.append_nil]
      exact ⟨_, .one hnumeral⟩
    · exact ⟨[], .none hpiece hnumeral nofun⟩
  | cons c rest ih =>
    by_cases hsep : isSeparator c = true
    · by_cases hnumeral : IsNumeral piece
      · obtain ⟨numbers, hnumbers⟩ := @ih [] nofun
        exact ⟨_, .more hnumeral hsep hnumbers⟩
      · exact ⟨[], .none hpiece hnumeral fun _ hc => Option.some.inj hc ▸ hsep⟩
    · rw [List.append_cons]
      refine ih (List.forall_mem_append.2 ⟨hpiece, List.forall_mem_singleton.2 ?_⟩)
      exact eq_false_of_ne_true hsep

/-- **Every text has its numbers at the front**, be it none. -/
theorem existsUnique_leads (cs : List Char) : ∃! numbers, Leads numbers cs :=
  existsUnique_of_exists_of_unique (@exists_leads [] nofun cs)
    fun _ _ h h' => h.map_takeWhile.symm.trans h'.map_takeWhile

/-- **The numbers of a version** are read, if there are some and they fit into words. -/
theorem Leads.parse?_eq (h : Leads numbers text.toList) :
    parse? text =
      if numbers ≠ [] ∧ ∀ n ∈ numbers, n < Word.count then some numbers else Option.none := by
  have hparse : parse? text =
      guard (!numbers.isEmpty && numbers.all (· < Word.count)) >>= fun _ => some numbers := by
    rw [← h.map_takeWhile]
    rfl
  rw [hparse]
  by_cases hnumbers : numbers ≠ [] ∧ ∀ n ∈ numbers, n < Word.count
  · have hguard : (!numbers.isEmpty && numbers.all (· < Word.count)) = true := by
      simpa using hnumbers
    rw [if_pos hnumbers, hguard]
    rfl
  · have hguard : (!numbers.isEmpty && numbers.all (· < Word.count)) = false := by
      rw [← Bool.not_eq_true]
      simpa using hnumbers
    rw [if_neg hnumbers, hguard]
    rfl

/-! ### Comparison -/

/-- **Versions are compared as lists of numbers.** -/
theorem notBelow_iff_le {xs ys : List Nat} : notBelow xs ys = true ↔ ys ≤ xs := by
  induction xs generalizing ys with
  | nil => cases ys <;> simp [notBelow, ← not_lt]
  | cons x xs ih =>
    cases ys with
    | nil => simp [notBelow, ← not_lt]
    | cons y ys =>
      rw [notBelow, ← not_lt, List.cons_lt_cons_iff]
      split
      · next heq => simp [heq, ih]
      · next hne =>
        simp only [decide_eq_true_eq, hne, false_and, or_false]
        omega

end Version

/-- **The comparison of versions.** Let a backend be of a version with some numbers at its front. If
there are any, and all of them fit into words, then it is at least of another such version if and
only if the numbers of that one are not after its own, in the order of lists. If there is none, or
one that does not fit into a word, then it is not at least of any version. -/
theorem External.versionAtLeast_iff_le {x : External} {version : String} {xs : List Nat}
    (hversion : x.version = some version) (hxs : Version.Leads xs version.toList) :
    (xs ≠ [] → (∀ n ∈ xs, n < 2 ^ 64) → ∀ least ys, Version.Leads ys least.toList → ys ≠ [] →
      (∀ n ∈ ys, n < 2 ^ 64) → (x.versionAtLeast least = true ↔ ys ≤ xs)) ∧
    ((xs = [] ∨ ∃ n ∈ xs, 2 ^ 64 ≤ n) → ∀ least, x.versionAtLeast least = false) := by
  have hword : Word.count = 2 ^ 64 := Word.count_eq
  constructor
  · intro hne hfits least ys hys hne' hfits'
    rw [← hword] at hfits hfits'
    have hpresent := hxs.parse?_eq.trans (if_pos ⟨hne, hfits⟩)
    have hwanted := hys.parse?_eq.trans (if_pos ⟨hne', hfits'⟩)
    simp [versionAtLeast, Version.atLeast, hversion, hpresent, hwanted, Version.notBelow_iff_le]
  · intro hunknown least
    have hnone : Version.parse? version = none := by
      rw [hxs.parse?_eq, if_neg]
      rintro ⟨hne, hfits⟩
      obtain hnil | ⟨n, hn, hlarge⟩ := hunknown
      · exact hne hnil
      · exact absurd (hfits n hn) (hword ▸ not_lt.2 hlarge)
    simp [versionAtLeast, Version.atLeast, hversion, hnone]

open Sample in
/-- A candidate for version `0.10.0` is at least of version `0.9.2`, however that is written. -/
theorem External.versionAtLeast_iff_le_candidate :
    Version.Leads [0, 10, 0] "0.10.0-rc3".toList ∧ Version.Leads [0, 9, 2] "0-9.02".toList ∧
      { edits with version := some "0.10.0-rc3" }.versionAtLeast "0-9.02" = true := by
  have hnumeral {run : List Char} (h : run.isEmpty = false ∧ run.all Char.isDigit = true) :
      Version.IsNumeral run :=
    ⟨List.isEmpty_eq_false_iff.1 h.1, List.all_eq_true.1 h.2⟩
  have hsuffix : Version.Leads [] ['r', 'c', '3'] :=
    @Version.Leads.none ['r', 'c', '3'] [] (by simp [Version.isSeparator])
      (fun h => Bool.false_ne_true (h.2 'r' List.mem_cons_self)) nofun
  have hpresent : Version.Leads [0, 10, 0] "0.10.0-rc3".toList :=
    @Version.Leads.more ['0'] _ '.' _ (hnumeral ⟨rfl, rfl⟩) rfl <|
      @Version.Leads.more ['1', '0'] _ '.' _ (hnumeral ⟨rfl, rfl⟩) rfl <|
        @Version.Leads.more ['0'] _ '-' _ (hnumeral ⟨rfl, rfl⟩) rfl hsuffix
  have hwanted : Version.Leads [0, 9, 2] "0-9.02".toList :=
    @Version.Leads.more ['0'] _ '-' _ (hnumeral ⟨rfl, rfl⟩) rfl <|
      @Version.Leads.more ['9'] _ '.' _ (hnumeral ⟨rfl, rfl⟩) rfl <|
        @Version.Leads.one ['0', '2'] (hnumeral ⟨rfl, rfl⟩)
  have horder : [0, 9, 2] ≤ [0, 10, 0] := by decide
  exact ⟨hpresent, hwanted,
    ((versionAtLeast_iff_le rfl hpresent).1 (by decide) (by decide) _ _ hwanted (by decide)
      (by decide)).2 horder⟩

end FederatedQuery
