import FederatedQuery.Proofs.Instants
import FederatedQuery.Proofs.Truth

/-!
# Intervals read back

The interval text of a range of time shows whole milliseconds: both ends are cut. A backend that
tells milliseconds apart and reads the text as the half-open range between the two instants does
not always see the milliseconds of the range. A start inside a millisecond brings in this
millisecond, which the range does not hold, and an end inside a millisecond takes this one away,
which the range does hold unless it also starts in it.

## Main definitions

* `Instant.IsMilli`: the start of a millisecond.
* `TimeRange.ofInterval?`: the range that an interval text names.

## Main results

* `Instant.read?_millis`: the text of an instant with milliseconds is read as the cut instant.
* `TimeRange.ofInterval?_interval`: the text of a range is read as the cut range.
* `TimeRange.interval_milliseconds`: the milliseconds that an interval text adds and loses.
-/

namespace FederatedQuery

open Text

/-! ### Starts of milliseconds -/

namespace Instant

/-- An instant at the start of a millisecond. -/
def IsMilli (t : Instant) : Prop := t.nano % 1000000 = 0

instance (t : Instant) : Decidable t.IsMilli := inferInstanceAs (Decidable (_ = _))

theorem eq_iff_key {a b : Instant} : a = b ↔ a.key = b.key := ⟨congrArg key, key_inj⟩

theorem isMilli_iff_key {t : Instant} : t.IsMilli ↔ t.key % 1000000 = 0 := by
  simp only [IsMilli, key]
  omega

theorem key_cut (t : Instant) : t.cut.key = t.key - t.key % 1000000 := by
  simp only [key, cut]
  omega

theorem isMilli_cut (t : Instant) : t.cut.IsMilli := by
  rw [isMilli_iff_key, key_cut]
  omega

theorem IsRegular.cut {t : Instant} (h : t.IsRegular) : t.cut.IsRegular := by
  intro hleap
  have hcut : 1000000000 ≤ t.nano - t.nano % 1000000 := of_decide_eq_true hleap
  exact h (decide_eq_true (by omega))

/-! ### Texts with milliseconds -/

theorem readFraction?_millisText {t : Instant} (h : t.IsMilli) :
    readFraction? (t.millisText ++ ['Z']) = some (t.subsecond, ['Z']) := by
  have hwhole : t.subsecond % 1000000 = 0 := by
    simp only [IsMilli] at h
    simp only [subsecond]
    omega
  have hmax : t.subsecond < 1000000000 := Nat.mod_lt _ (by decide)
  refine (readFraction?_padded (by decide) (by decide) (by omega)).trans ?_
  rw [show 10 ^ (9 - 3) * (t.subsecond / 1000000) = t.subsecond by omega]

/-- The text of a regular instant with milliseconds is read as the start of its millisecond. -/
theorem read?_millis {t : Instant} (h : t.IsRegular) : read? t.millis = some t.cut := by
  rw [← millis_cut]
  exact (read?_text_eq t.cut (readFraction?_millisText t.isMilli_cut)).trans (ofWall?_wall h.cut)

/-- There is no slash in the text of an instant. -/
theorem slash_notMem_millis (t : Instant) : '/' ∉ t.millis.toList := by
  have hpadded (width n : Nat) : '/' ∉ padded width n := fun h =>
    absurd (isDigit_of_mem_padded h) (by decide)
  have hyear (year : Int) : '/' ∉ yearText year := by
    unfold yearText
    split_ifs <;> simp [hpadded]
  simp [millis, dateText, clockText, millisText, hpadded, hyear]

end Instant

namespace TimeRange

/-- The range that an interval text names: two instants with a slash between them. -/
def ofInterval? (text : String) : Option TimeRange := do
  let start ← Instant.read? (.ofList (text.toList.takeWhile (· != '/')))
  let stop ← Instant.read? (.ofList ((text.toList.dropWhile (· != '/')).drop 1))
  some ⟨start, stop⟩

/-- The interval text of a range with regular ends is read as the cut range. -/
theorem ofInterval?_interval {r : TimeRange} (hstart : r.start.IsRegular)
    (hstop : r.stop.IsRegular) : ofInterval? r.interval = some r.cut := by
  have hchars : ∀ c ∈ r.start.millis.toList, (c != '/') = true := fun c hc =>
    bne_iff_ne.2 fun h => r.start.slash_notMem_millis (h ▸ hc)
  have htext : r.interval.toList = r.start.millis.toList ++ '/' :: r.stop.millis.toList := by
    simp [interval]
  have hbefore : r.interval.toList.takeWhile (· != '/') = r.start.millis.toList := by
    rw [htext, List.takeWhile_append_of_pos hchars]
    simp
  have hafter : r.interval.toList.dropWhile (· != '/') = '/' :: r.stop.millis.toList := by
    rw [htext, List.dropWhile_append_of_pos hchars]
    simp
  rw [ofInterval?, hbefore, hafter, List.drop_one, List.tail_cons, String.ofList_toList,
    String.ofList_toList, Instant.read?_millis hstart, Instant.read?_millis hstop]
  rfl

/-! ### Milliseconds of a range -/

/-- The millisecond that an interval text adds to a range: the one in which the range starts, if
it does not start with it. -/
def Adds (r : TimeRange) (t : Instant) : Prop :=
  t = r.start.cut ∧ ¬r.start.IsMilli ∧ t < r.stop.cut

/-- The millisecond that an interval text takes from a range: the one in which the range ends, if
it does not end with it. -/
def Loses (r : TimeRange) (t : Instant) : Prop :=
  t = r.stop.cut ∧ ¬r.stop.IsMilli ∧ r.start ≤ t

variable {r : TimeRange} {t : Instant}

/-- No start of a millisecond lies between an end of a range and the cut end. -/
theorem adds_iff (ht : t.IsMilli) : r.Adds t ↔ r.cut.contains t ∧ ¬r.contains t := by
  rw [contains_iff, contains_iff]
  simp only [Adds, cut, Instant.isMilli_iff_key, Instant.eq_iff_key, Instant.le_iff,
    Instant.lt_iff, Instant.key_cut] at ht ⊢
  omega

theorem loses_iff (ht : t.IsMilli) : r.Loses t ↔ r.contains t ∧ ¬r.cut.contains t := by
  rw [contains_iff, contains_iff]
  simp only [Loses, cut, Instant.isMilli_iff_key, Instant.eq_iff_key, Instant.le_iff,
    Instant.lt_iff, Instant.key_cut] at ht ⊢
  omega

theorem exists_adds_iff : (∃ t, r.Adds t) ↔ ¬(r.start.IsMilli ∨ r.stop.cut ≤ r.start.cut) := by
  simp only [Adds, exists_eq_left, Instant.lt_iff, Instant.le_iff, not_or, not_le]

theorem exists_loses_iff : (∃ t, r.Loses t) ↔ ¬(r.stop.IsMilli ∨ r.stop.cut < r.start) := by
  simp only [Loses, exists_eq_left, Instant.lt_iff, Instant.le_iff, not_or, not_lt]

/-- **The milliseconds of an interval text.** Take a range with regular ends. A query over this
range and a filter of it name the same interval text, which a backend reads as the half-open range
between two instants. Of all starts of milliseconds it adds the one in which the range starts, if
the range does not start with it and does not end before the next one, and loses the one in which
the range ends, if the range does not end with it and starts no later. So the milliseconds of the
range are told if and only if neither of them is there. -/
theorem interval_milliseconds (hstart : r.start.IsRegular) (hstop : r.stop.IsRegular) :
    ∃ text told,
      (∀ q : Native.Query, q.span = .range r →
        q.toJson.get? "intervals" = some (.string text)) ∧
      (Native.Filter.interval r).toJson.get? "intervals" = some (.array [.string text]) ∧
      ofInterval? text = some told ∧
      (∀ t : Instant, t.IsMilli →
        (told.contains t ∧ ¬r.contains t ↔ r.Adds t) ∧
          (r.contains t ∧ ¬told.contains t ↔ r.Loses t)) ∧
      ((∀ t : Instant, t.IsMilli → (r.contains t ↔ told.contains t)) ↔
        (r.start.IsMilli ∨ r.stop.cut ≤ r.start.cut) ∧
          (r.stop.IsMilli ∨ r.stop.cut < r.start)) := by
  have hquery (q : Native.Query) (h : q.span = .range r) :
      q.toJson.get? "intervals" = some (.string r.interval) := by
    unfold Native.Query.toJson
    rw [h]
    rfl
  refine ⟨r.interval, r.cut, hquery, rfl, ofInterval?_interval hstart hstop,
    fun t ht => ⟨(adds_iff ht).symm, (loses_iff ht).symm⟩, ?_⟩
  have hadds := not_congr (exists_adds_iff (r := r))
  have hloses := not_congr (exists_loses_iff (r := r))
  rw [not_not, not_exists] at hadds hloses
  rw [← hadds, ← hloses]
  constructor
  · intro hsame
    constructor
    · intro t h
      have ht : t.IsMilli := h.1 ▸ r.start.isMilli_cut
      obtain ⟨htold, hr⟩ := (adds_iff ht).1 h
      exact hr ((hsame t ht).2 htold)
    · intro t h
      have ht : t.IsMilli := h.1 ▸ r.stop.isMilli_cut
      obtain ⟨hr, htold⟩ := (loses_iff ht).1 h
      exact htold ((hsame t ht).1 hr)
  · rintro ⟨hadds, hloses⟩ t ht
    constructor
    · exact fun hr => Decidable.not_not.1 fun htold => hloses t ((loses_iff ht).2 ⟨hr, htold⟩)
    · exact fun htold => Decidable.not_not.1 fun hr => hadds t ((adds_iff ht).2 ⟨htold, hr⟩)

end TimeRange

namespace Sample

/-- The instant so many half milliseconds after the start of 1970. -/
def halfMillis (n : Fin 1000) : Instant :=
  { Instant.epoch with nano := n * 500000, nano_lt := by omega }

/-- The range between two halves of milliseconds. -/
def halfMillisRange (a b : Fin 1000) : TimeRange := ⟨halfMillis a, halfMillis b⟩

theorem halfMillisRange_regular :
    (halfMillisRange 1 5).start.IsRegular ∧ (halfMillisRange 1 5).stop.IsRegular :=
  ⟨fun hleap => absurd hleap (by decide), fun hleap => absurd hleap (by decide)⟩

end Sample

open Sample in
/-- A range that starts and ends inside a millisecond has a text that does not tell its
milliseconds. -/
theorem TimeRange.interval_milliseconds_inside :
    (halfMillisRange 1 5).start.IsRegular ∧ (halfMillisRange 1 5).stop.IsRegular ∧
      ∃ text told,
        (Native.Filter.interval (halfMillisRange 1 5)).toJson.get? "intervals" =
          some (.array [.string text]) ∧
        ofInterval? text = some told ∧
        ¬∀ t : Instant, t.IsMilli → ((halfMillisRange 1 5).contains t ↔ told.contains t) := by
  obtain ⟨hstart, hstop⟩ := halfMillisRange_regular
  obtain ⟨text, told, -, htext, htold, -, hsame⟩ := interval_milliseconds hstart hstop
  refine ⟨hstart, hstop, text, told, htext, htold, fun h => ?_⟩
  exact absurd (hsame.1 h).2 (by decide)

open Sample in
/-- That range holds the second and the third millisecond of 1970. The range that its text names
holds the first and the second one. -/
theorem TimeRange.interval_inside :
    ∃ told, ofInterval? (halfMillisRange 1 5).interval = some told ∧
      ((halfMillisRange 1 5).contains (halfMillis 0) = false ∧
        told.contains (halfMillis 0) = true) ∧
      ((halfMillisRange 1 5).contains (halfMillis 4) = true ∧
        told.contains (halfMillis 4) = false) := by
  obtain ⟨hstart, hstop⟩ := halfMillisRange_regular
  exact ⟨(halfMillisRange 1 5).cut, ofInterval?_interval hstart hstop, by decide, by decide⟩

end FederatedQuery
