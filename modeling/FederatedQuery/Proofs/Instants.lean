import FederatedQuery.Proofs.Calendar
import FederatedQuery.Time.Printer
import FederatedQuery.Time.Reader
import Mathlib.Data.List.Induction

/-!
# Instants read back

The text of an instant that has been read from a text gives this instant again. Not every instant
has a text: the second half of its nanoseconds is written as the second 60 of a minute, so it must
follow the second 59. Instants that have been read are of this form, since the offset from UTC is a
number of whole minutes.

## Main definitions

* `Instant.IsRegular`: instants that have a text.

## Main results

* `Instant.isRegular_of_read?`: what has been read has a text.
* `Instant.read?_canonical`: the text of a regular instant is read as this instant.
-/

namespace FederatedQuery

/-! ### Runs of digits -/

namespace Text

/-- The digits lie next to each other. -/
theorem toNat_of_isDigit {c : Char} (h : c.isDigit = true) : 48 ≤ c.toNat ∧ c.toNat ≤ 57 := by
  simp only [Char.isDigit, Bool.and_eq_true, decide_eq_true_eq, UInt32.le_iff_toNat_le] at h
  exact h

theorem isDigit_of_mem_digits {n : Nat} {c : Char} (h : c ∈ digits n) : c.isDigit = true :=
  Nat.isDigit_of_mem_toDigits (by decide) (by decide) h

theorem isDigit_of_mem_padded {width n : Nat} {c : Char} (h : c ∈ padded width n) :
    c.isDigit = true := by
  obtain h | h := List.mem_append.1 h
  · rw [List.eq_of_mem_replicate h]
    rfl
  · exact isDigit_of_mem_digits h

theorem numeral_digits (n : Nat) : numeral (digits n) = n := Nat.ofDigitChars_ten_toDigits

/-- Zeros at the front do not count. -/
theorem numeral_replicate_append (k : Nat) (cs : List Char) :
    numeral (List.replicate k '0' ++ cs) = numeral cs := by
  change Nat.ofDigitChars 10 (List.replicate k '0' ++ cs) 0 = Nat.ofDigitChars 10 cs 0
  rw [Nat.ofDigitChars_append, Nat.ofDigitChars_replicate_zero, Nat.mul_zero]

theorem numeral_padded (width n : Nat) : numeral (padded width n) = n := by
  rw [padded, numeral_replicate_append, numeral_digits]

theorem length_padded {width n : Nat} (hwidth : 0 < width) (h : n < 10 ^ width) :
    (padded width n).length = width := by
  have hlength := (Nat.length_toDigits_le_iff (by decide : 1 < 10) hwidth).2 h
  rw [padded, List.length_append, List.length_replicate]
  exact Nat.sub_add_cancel hlength

theorem length_padded_pos (width n : Nat) : 0 < (padded width n).length := by
  rw [padded, List.length_append]
  exact Nat.add_pos_right _ Nat.length_toDigits_pos

/-- Zeros at the end count as powers of ten. -/
theorem numeral_append_replicate (cs : List Char) (k : Nat) :
    numeral (cs ++ List.replicate k '0') = 10 ^ k * numeral cs := by
  change Nat.ofDigitChars 10 (cs ++ List.replicate k '0') 0 = 10 ^ k * Nat.ofDigitChars 10 cs 0
  rw [Nat.ofDigitChars_append, Nat.ofDigitChars_replicate_zero]

/-- A run of digits stands for a number of no more digits. -/
theorem numeral_lt {cs : List Char} (h : ∀ c ∈ cs, c.isDigit = true) :
    numeral cs < 10 ^ cs.length := by
  induction cs using List.reverseRecOn with
  | nil => decide
  | append_singleton cs c ih =>
    have hcs := ih fun d hd => h d (List.mem_append_left _ hd)
    have hc := toNat_of_isDigit (h c (List.mem_append_right _ List.mem_cons_self))
    have hdigit : digitValue c ≤ 9 := Nat.sub_le_sub_right hc.2 48
    rw [numeral_append_singleton, List.length_append, List.length_singleton, Nat.pow_succ]
    omega

/-- A run of digits that ends where the text goes on with something else is taken whole. -/
theorem takeDigits_append {least : Nat} {run rest : List Char} (hrun : ∀ c ∈ run, c.isDigit = true)
    (hleast : least ≤ run.length) (hrest : ∀ c ∈ rest.head?, c.isDigit = false) :
    takeDigits least none (run ++ rest) = some (run, rest) := by
  have htake : rest.takeWhile Char.isDigit = [] := by
    cases rest with
    | nil => rfl
    | cons c rest => exact List.takeWhile_cons_of_neg (Bool.eq_false_iff.1 (hrest c rfl))
  simp only [takeDigits, List.takeWhile_append_of_pos hrun, htake, List.append_nil,
    if_neg (Nat.not_lt.2 hleast), List.drop_left]

/-- A run of digits of the greatest length is taken, whatever follows it. -/
theorem takeDigits_append_of_length {least most : Nat} {run rest : List Char}
    (hrun : ∀ c ∈ run, c.isDigit = true) (hlength : run.length = most) (hleast : least ≤ most) :
    takeDigits least (some most) (run ++ rest) = some (run, rest) := by
  have htake : (run ++ rest.takeWhile Char.isDigit).take most = run := by
    rw [← hlength, List.take_left]
  simp only [takeDigits, List.takeWhile_append_of_pos hrun, htake, hlength,
    if_neg (Nat.not_lt.2 hleast), List.drop_left' hlength]

/-- A digit is not blank. -/
theorem isBlank_of_isDigit {c : Char} (h : c.isDigit = true) : isBlank c = false := by
  have hc := toNat_of_isDigit h
  simp only [isBlank]
  grind

/-- A run of digits has no blanks at its front. -/
theorem trimStart_append {run rest : List Char} (hrun : ∀ c ∈ run, c.isDigit = true)
    (hpos : 0 < run.length) : trimStart (run ++ rest) = run ++ rest := by
  cases run with
  | nil => cases hpos
  | cons c run =>
    exact List.dropWhile_cons_of_neg (Bool.eq_false_iff.1 (isBlank_of_isDigit
      (hrun c List.mem_cons_self)))

/-- A run of digits starts with a digit. -/
theorem append_ne_cons {run rest cs : List Char} {c : Char} (hrun : ∀ d ∈ run, d.isDigit = true)
    (hpos : 0 < run.length) (hc : c.isDigit = false) : run ++ rest ≠ c :: cs := by
  cases run with
  | nil => cases hpos
  | cons d run =>
    intro h
    have hd := hrun d List.mem_cons_self
    rw [(List.cons.inj h).1, hc] at hd
    cases hd

end Text

/-! ### Parts of a text -/

namespace Instant

open Text

theorem readShort?_padded {n : Nat} (h : n < 100) (rest : List Char) :
    readShort? (padded 2 n ++ rest) = some (n, rest) := by
  have hdigits : ∀ c ∈ padded 2 n, c.isDigit = true := fun _ => isDigit_of_mem_padded
  rw [readShort?, trimStart_append hdigits (length_padded_pos 2 n),
    takeDigits_append_of_length hdigits (length_padded (by decide) h) (by decide)]
  exact congrArg (fun m => some (m, rest)) (numeral_padded 2 n)

/-- A separator, and a number of two digits. -/
theorem readMark?_bind {mark : Char} (hmark : isBlank mark = false) {n : Nat} (h : n < 100)
    (rest : List Char) :
    (readMark? mark (mark :: (padded 2 n ++ rest))).bind readShort? = some (n, rest) := by
  have htrim : trimStart (mark :: (padded 2 n ++ rest)) = mark :: (padded 2 n ++ rest) :=
    List.dropWhile_cons_of_neg (Bool.eq_false_iff.1 hmark)
  rw [readMark?, htrim, expect, if_pos rfl, Option.bind_some, readShort?_padded h]

theorem readYear?_yearText (year : Int) (rest : List Char) :
    readYear? (yearText year ++ '-' :: rest) = some (year, '-' :: rest) := by
  have hdigits : ∀ c ∈ padded 4 year.natAbs, c.isDigit = true := fun _ => isDigit_of_mem_padded
  have hpos := length_padded_pos 4 year.natAbs
  have hsigned : takeDigits 1 none (padded 4 year.natAbs ++ '-' :: rest) =
      some (padded 4 year.natAbs, '-' :: rest) :=
    takeDigits_append hdigits hpos fun c hc => by cases hc; rfl
  rw [yearText]
  split
  · rename_i hneg
    have htrim : trimStart ('-' :: padded 4 year.natAbs ++ '-' :: rest) =
        '-' :: (padded 4 year.natAbs ++ '-' :: rest) := rfl
    rw [readYear?, htrim]
    simp only [hsigned, Option.map_some, numeral_padded]
    rw [Int.ofNat_natAbs_of_nonpos (Int.le_of_lt hneg), Int.neg_neg]
  split
  · rename_i hneg hlong
    have htrim : trimStart ('+' :: padded 4 year.natAbs ++ '-' :: rest) =
        '+' :: (padded 4 year.natAbs ++ '-' :: rest) := rfl
    rw [readYear?, htrim]
    simp only [hsigned, Option.map_some, numeral_padded]
    rw [Int.natAbs_of_nonneg (Int.not_lt.1 hneg)]
  · rename_i hneg hlong
    have hshort : takeDigits 1 (some 4) (padded 4 year.natAbs ++ '-' :: rest) =
        some (padded 4 year.natAbs, '-' :: rest) :=
      takeDigits_append_of_length hdigits (length_padded (by decide) (by omega)) (by decide)
    rw [readYear?, trimStart_append hdigits hpos]
    split
    · rename_i h
      exact absurd h (append_ne_cons hdigits hpos rfl)
    · rename_i h
      exact absurd h (append_ne_cons hdigits hpos rfl)
    · simp only [hshort, Option.map_some, numeral_padded]
      rw [Int.natAbs_of_nonneg (Int.not_lt.1 hneg)]

/-- A fraction of at most nine digits, in nanoseconds. -/
theorem readFraction?_padded {width n : Nat} (hpos : 0 < width) (hmax : width ≤ 9)
    (h : n < 10 ^ width) :
    readFraction? ('.' :: (padded width n ++ ['Z'])) = some (10 ^ (9 - width) * n, ['Z']) := by
  have hdigits : ∀ c ∈ padded width n, c.isDigit = true := fun _ => isDigit_of_mem_padded
  have hlength := length_padded hpos h
  have htake : takeDigits 1 none (padded width n ++ ['Z']) = some (padded width n, ['Z']) :=
    takeDigits_append hdigits (length_padded_pos width n) fun c hc => by cases hc; rfl
  have hnine : (padded width n ++ List.replicate 9 '0').take 9 =
      padded width n ++ List.replicate (9 - width) '0' := by
    rw [List.take_append, hlength, List.take_of_length_le (hlength.trans_le hmax),
      List.take_replicate, Nat.min_eq_left (Nat.sub_le 9 width)]
  rw [readFraction?, htake, Option.bind_eq_bind, Option.bind_some]
  simp only [hnine, numeral_append_replicate, numeral_padded]

theorem readFraction?_fractionText (t : Instant) :
    readFraction? (t.fractionText ++ ['Z']) = some (t.subsecond, ['Z']) := by
  have hmax : t.subsecond < 1000000000 := Nat.mod_lt _ (by decide)
  rw [fractionText]
  split
  · rename_i hzero
    rw [hzero]
    rfl
  split
  · rename_i hmillis
    refine (readFraction?_padded (by decide) (by decide) (by omega)).trans ?_
    rw [show 10 ^ (9 - 3) * (t.subsecond / 1000000) = t.subsecond by omega]
  split
  · rename_i hmicros
    refine (readFraction?_padded (by decide) (by decide) (by omega)).trans ?_
    rw [show 10 ^ (9 - 6) * (t.subsecond / 1000) = t.subsecond by omega]
  · refine (readFraction?_padded (by decide) (by decide) hmax).trans ?_
    rw [Nat.sub_self, Nat.pow_zero, Nat.one_mul]

/-! ### Instants -/

/-- A leap second follows the last second of a minute. -/
def IsRegular (t : Instant) : Prop := t.isLeap = true → t.second % 60 = 59

/-- The date and the time of day that a text shows. -/
def wall (t : Instant) : Wall :=
  let clock := (t.second % 86400).toNat
  ⟨t.date, clock / 3600, clock / 60 % 60, clock % 60 + if t.isLeap then 1 else 0, t.subsecond⟩

/-- The months and days of a date have two digits. -/
theorem date_lt (t : Instant) : t.date.month < 100 ∧ t.date.day < 100 := by
  have hdate : t.date.isValid = true := Time.Date.isValid_ofDayNumber _
  simp only [Time.Date.isValid, Bool.and_eq_true, decide_eq_true_eq] at hdate
  have hday : Time.daysInMonth t.date.year t.date.month ≤ 31 := by
    rw [Time.daysInMonth]
    split_ifs <;> decide
  omega

/-- A text of an instant gives its date and its time of day, if its fraction gives the
nanoseconds. -/
theorem read?_text_eq (t : Instant) {fraction : List Char}
    (hfraction : readFraction? (fraction ++ ['Z']) = some (t.subsecond, ['Z'])) :
    read? (String.ofList (t.dateText ++ 'T' :: t.clockText ++ fraction ++ ['Z'])) =
      ofWall? t.wall 0 := by
  obtain ⟨hmonth, hday⟩ := t.date_lt
  have hclock : (t.second % 86400).toNat < 86400 := by omega
  have hsecond : (t.second % 86400).toNat % 60 + (if t.isLeap then 1 else 0) < 100 := by
    split <;> omega
  have hjoin (rest : List Char) : readJoin? ('T' :: rest) = some rest := rfl
  have hzone : readZone? (trimStart ['Z']) = some (0, []) := rfl
  have hend : (trimStart []).isEmpty = true := rfl
  rw [read?, String.toList_ofList, dateText, clockText]
  simp only [List.append_assoc, List.cons_append, readYear?_yearText, Option.bind_eq_bind,
    Option.bind_some, readMark?_bind (by decide : isBlank '-' = false) hmonth,
    readMark?_bind (by decide : isBlank '-' = false) hday, hjoin,
    readShort?_padded (by omega : (t.second % 86400).toNat / 3600 < 100),
    readMark?_bind (by decide : isBlank ':' = false)
      (by omega : (t.second % 86400).toNat / 60 % 60 < 100),
    readMark?_bind (by decide : isBlank ':' = false) hsecond, hfraction, hzone,
    hend, guard, if_true, pure, wall]

/-- The instant at which a clock shows a time that there is. -/
theorem ofWall?_eq {w : Wall} {offset : Int} (hdate : w.date.isValid = true)
    (hyear : -262143 ≤ w.date.year ∧ w.date.year ≤ 262142)
    (hclock : w.hour ≤ 23 ∧ w.minute ≤ 59 ∧ w.second ≤ 60)
    (hoffset : -86400 < offset ∧ offset < 86400) :
    ofWall? w offset =
      ofSecond? (w.date.dayNumber * 86400 +
        (w.hour * 3600 + w.minute * 60 + (if w.second = 60 then 59 else w.second : Nat)) - offset)
        (if w.second = 60 then w.nano + 1000000000 else w.nano) := by
  simp only [ofWall?, guard, hdate, hyear, hclock, hoffset, and_self, if_true, Option.bind_eq_bind,
    pure, Option.bind_some]
  split_ifs <;> rfl

/-- The date and the time of day of a regular instant give it again. -/
theorem ofWall?_wall {t : Instant} (h : t.IsRegular) : ofWall? t.wall 0 = some t := by
  obtain ⟨hmin, hmax⟩ := And.intro t.second_ge t.second_le
  have hyear : -262143 ≤ t.date.year ∧ t.date.year ≤ 262142 :=
    Time.Date.year_ofDayNumber (by omega) (by omega)
  have hvalid : t.date.isValid = true := Time.Date.isValid_ofDayNumber _
  have hday : t.date.dayNumber = t.second / 86400 := Time.Date.dayNumber_ofDayNumber _
  have hself : ofSecond? t.second t.nano = some t := dif_pos ⟨t.nano_lt, hmin, hmax⟩
  have hnano := t.nano_lt
  rw [ofWall?_eq hvalid hyear _ (by decide), ← hself]
  · cases hleap : t.isLeap with
    | true =>
      have hlast := h hleap
      have hlow := of_decide_eq_true hleap
      have hsecond : t.wall.second = 60 := by
        simp only [wall, hleap, if_true]
        omega
      rw [if_pos hsecond, if_pos hsecond]
      congr 1
      · simp only [wall, hday]
        omega
      · simp only [wall, subsecond]
        omega
    | false =>
      have hhigh := of_decide_eq_false hleap
      have hsecond : t.wall.second = (t.second % 86400).toNat % 60 := by
        simp only [wall, hleap, Bool.false_eq_true, if_false, Nat.add_zero]
      have hne : t.wall.second ≠ 60 := by omega
      rw [if_neg hne, if_neg hne, hsecond]
      congr 1
      · simp only [wall, hday]
        omega
      · simp only [wall, subsecond]
        omega
  · simp only [wall]
    split_ifs <;> omega

/-- **Instants.** The text of a regular instant is read as this instant. -/
theorem read?_canonical {t : Instant} (h : t.IsRegular) : read? t.canonical = some t :=
  (read?_text_eq t (readFraction?_fractionText t)).trans (ofWall?_wall h)

/-! ### What has been read -/

theorem of_ofSecond? {second : Int} {nano : Nat} {t : Instant}
    (h : ofSecond? second nano = some t) : t.second = second ∧ t.nano = nano := by
  rw [ofSecond?] at h
  split at h
  · cases h
    exact ⟨rfl, rfl⟩
  · cases h

/-- A clock that is off by whole minutes shows leap seconds at the end of minutes. -/
theorem isRegular_of_ofWall? {w : Wall} {offset : Int} {t : Instant}
    (h : ofWall? w offset = some t) (hnano : w.nano < 1000000000) (hoffset : offset % 60 = 0) :
    t.IsRegular := by
  simp only [ofWall?, guard, Option.bind_eq_bind, Option.bind_eq_some_iff] at h
  obtain ⟨_, -, _, -, _, -, _, -, h⟩ := h
  obtain ⟨hsecond, hsub⟩ := of_ofSecond? h
  intro hleap
  have hlow := of_decide_eq_true hleap
  split_ifs at hsecond hsub with hlast
  · simp only at hsecond
    omega
  · simp only at hsub
    omega

/-- A fraction is read as less than a second. -/
theorem readFraction?_lt {cs rest : List Char} {nano : Nat}
    (h : readFraction? cs = some (nano, rest)) : nano < 1000000000 := by
  rw [readFraction?.eq_def] at h
  split at h
  · obtain ⟨⟨run, rest⟩, htake, h⟩ := Option.bind_eq_some_iff.1 h
    have hrun : ∀ c ∈ run, c.isDigit = true := by
      simp only [takeDigits] at htake
      split at htake
      · cases htake
      · cases htake
        exact List.all_eq_true.1 List.all_takeWhile
    have hdigits : ∀ c ∈ (run ++ List.replicate 9 '0').take 9, c.isDigit = true := by
      intro c hc
      obtain hc | hc := List.mem_append.1 (List.mem_of_mem_take hc)
      · exact hrun c hc
      · rw [List.eq_of_mem_replicate hc]
        rfl
    cases h
    exact (numeral_lt hdigits).trans_le
      (Nat.pow_le_pow_right (by decide) (List.length_take_le 9 _))
  · cases h
    decide

/-- An offset is a number of whole minutes. -/
theorem readOffset?_mod {separator? : List Char → Option (List Char)} {cs rest : List Char}
    {offset : Int} (h : readOffset? separator? cs = some (offset, rest)) : offset % 60 = 0 := by
  rw [readOffset?.eq_def] at h
  split at h
  · cases h
    rfl
  · cases h
    rfl
  · simp only [Option.bind_eq_bind, Option.bind_eq_some_iff] at h
    obtain ⟨⟨negative, _⟩, -, ⟨hours, _⟩, -, _, -, ⟨minutes, _⟩, -, _, -, h⟩ := h
    cases h
    split_ifs <;> omega

theorem readZone?_mod {cs rest : List Char} {offset : Int}
    (h : readZone? cs = some (offset, rest)) : offset % 60 = 0 := by
  rw [readZone?] at h
  split at h
  · cases h
    rfl
  · exact readOffset?_mod h

/-- What has been read has a text. -/
theorem isRegular_of_read? {s : String} {t : Instant} (h : read? s = some t) : t.IsRegular := by
  simp only [read?, Option.bind_eq_bind, Option.bind_eq_some_iff] at h
  obtain ⟨_, -, _, -, _, -, _, -, _, -, _, -, ⟨nano, _⟩, hnano, ⟨offset, _⟩, hoffset, _, -, h⟩ := h
  exact isRegular_of_ofWall? h (readFraction?_lt hnano) (readZone?_mod hoffset)

/-- The text of an instant that has been read gives it again. -/
theorem read?_canonical_of_read? {s : String} {t : Instant} (h : read? s = some t) :
    read? t.canonical = some t :=
  read?_canonical (isRegular_of_read? h)

end Instant

end FederatedQuery
