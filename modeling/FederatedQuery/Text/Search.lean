/-!
# Searching in texts

## Main definitions

* `Text.contains`: whether a text holds another one.
-/

namespace FederatedQuery.Text

/-- Whether a list of characters holds another one in consecutive places. -/
def containsChars (pattern : List Char) : List Char → Bool
  | [] => pattern.isEmpty
  | c :: rest => pattern.isPrefixOf (c :: rest) || containsChars pattern rest

/-- Whether a text holds another one. -/
def contains (s pattern : String) : Bool := containsChars pattern.toList s.toList

/-- A text is held by every text that has it between two others. -/
theorem containsChars_iff {pattern cs : List Char} :
    containsChars pattern cs = true ↔ ∃ before after, cs = before ++ pattern ++ after := by
  induction cs with
  | nil =>
    simp only [containsChars, List.isEmpty_iff]
    constructor
    · rintro rfl
      exact ⟨[], [], rfl⟩
    · rintro ⟨before, after, h⟩
      simp only [List.nil_eq, List.append_eq_nil_iff] at h
      exact h.1.2
  | cons c rest ih =>
    simp only [containsChars, Bool.or_eq_true, List.isPrefixOf_iff_prefix, ih]
    constructor
    · rintro (⟨after, h⟩ | ⟨before, after, rfl⟩)
      · exact ⟨[], after, by simpa using h.symm⟩
      · exact ⟨c :: before, after, rfl⟩
    · rintro ⟨before, after, h⟩
      cases before with
      | nil => exact .inl ⟨after, by simpa using h.symm⟩
      | cons b before =>
        simp only [List.cons_append, List.cons.injEq] at h
        exact .inr ⟨before, after, h.2⟩

end FederatedQuery.Text
