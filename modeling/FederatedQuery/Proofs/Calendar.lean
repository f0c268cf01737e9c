import FederatedQuery.Time.Calendar
import Mathlib.Tactic.IntervalCases

/-!
# Days and dates

The date of a day number exists, and its day number is the given one. Years begin in March, and 400
of them, a cycle, have 146097 days. In a cycle a day is placed by centuries, by groups of four years,
by years and by days. A century and a group of four years are one day longer when they end with a
leap day, so that the 366th day of a year is there in the last year of a group only, and in the last
group of a century only for the last century of the cycle.

## Main definitions

* `Date.IsPosition`: the place of a day in a cycle.

## Main results

* `Date.dayNumber_ofDayNumber`, `Date.isValid_ofDayNumber`: the date of a day number.
* `Date.year_ofDayNumber`: the years in the range of instants.
-/

namespace FederatedQuery.Time.Date

/-- The day of a cycle of 400 years lies after `c` centuries, `q` groups of four years, `t` years and
`d` days. -/
structure IsPosition (dayOfCycle c q t d : Int) : Prop where
  day_eq : dayOfCycle = 36524 * c + 1461 * q + 365 * t + d
  centuries : 0 ≤ c ∧ c ≤ 3
  fours : 0 ≤ q ∧ q ≤ 24
  years : 0 ≤ t ∧ t ≤ 3
  days : 0 ≤ d ∧ d ≤ 365
  /-- The leap day is the last day of the last year. -/
  leap : d = 365 → t = 3 ∧ (q = 24 → c = 3)

/-- Every day of a cycle has its place. -/
theorem exists_isPosition (n : Int) : ∃ c q t d, IsPosition (n % 146097) c q t d := by
  generalize hday : n % 146097 = day
  have hrange : 0 ≤ day ∧ day ≤ 146096 := by omega
  clear hday
  let c := min (day / 36524) 3
  let q := (day - 36524 * c) / 1461
  let rest := (day - 36524 * c) % 1461
  let t := min (rest / 365) 3
  refine ⟨c, q, t, rest - 365 * t, ?_, ?_, ?_, ?_, ?_, ?_⟩ <;> omega

namespace IsPosition

variable {day c q t d : Int}

/-- The year of a day in its cycle. -/
theorem yearOfCycle_eq (h : IsPosition day c q t d) :
    (day - day / 1460 + day / 36524 - day / 146096) / 365 = 100 * c + 4 * q + t := by
  obtain ⟨hday, hc, hq, ht, hd, hleap⟩ := h
  have hcenturies : day / 36524 - day / 146096 = c := by
    obtain hlast | hlast : day / 146096 = 0 ∨ day / 146096 = 1 := by omega
    · have hne : day ≠ 146096 := by omega
      omega
    · omega
  have hfours : day / 1460 = 25 * c + q + (24 * c + q + 365 * t + d) / 1460 := by omega
  obtain h | h : (24 * c + q + 365 * t + d) / 1460 = 0 ∨
      (24 * c + q + 365 * t + d) / 1460 = 1 := by omega
  · omega
  · omega

/-- The year in its cycle, and the leap days before it. -/
theorem year_eq (h : IsPosition day c q t d) :
    (0 ≤ 100 * c + 4 * q + t ∧ 100 * c + 4 * q + t < 400) ∧
      (100 * c + 4 * q + t) / 4 = 25 * c + q ∧ (100 * c + 4 * q + t) / 100 = c := by
  obtain ⟨_, hc, hq, ht, _, _⟩ := h
  omega

end IsPosition

/-- The date of a day number from its place in its cycle. -/
theorem ofDayNumber_eq {n c q t d : Int} (h : IsPosition ((n + 719468) % 146097) c q t d) :
    ofDayNumber n =
      let shifted := (5 * d + 2) / 153
      let year := 100 * c + 4 * q + t + (n + 719468) / 146097 * 400
      { year := if shifted < 10 then year else year + 1
        month := (if shifted < 10 then shifted + 3 else shifted - 9).toNat
        day := (d - (153 * shifted + 2) / 5 + 1).toNat } := by
  obtain ⟨_, hfour, hhundred⟩ := h.year_eq
  have hdayOfYear : (n + 719468) % 146097 - (365 * (100 * c + 4 * q + t) +
      (100 * c + 4 * q + t) / 4 - (100 * c + 4 * q + t) / 100) = d := by
    have hday := h.day_eq
    omega
  simp only [ofDayNumber, h.yearOfCycle_eq, hdayOfYear]
  obtain hs | hs := Int.lt_or_le ((5 * d + 2) / 153) 10
  · have hlt : ¬ (5 * d + 2) / 153 + 3 ≤ 2 := by
      have hd := h.days
      omega
    simp only [hs, hlt, if_true, if_false]
  · have hle : (5 * d + 2) / 153 - 9 ≤ 2 := by
      have hd := h.days
      omega
    simp only [Int.not_lt.2 hs, hle, if_true, if_false]

/-- **Days.** The date of a day number has this day number. -/
theorem dayNumber_ofDayNumber (n : Int) : (ofDayNumber n).dayNumber = n := by
  obtain ⟨c, q, t, d, h⟩ := exists_isPosition (n + 719468)
  rw [ofDayNumber_eq h]
  obtain ⟨hrange, hfour, hhundred⟩ := h.year_eq
  obtain ⟨hday, _, _, _, hd, _⟩ := h
  have hn := Int.mul_ediv_add_emod (n + 719468) 146097
  generalize (n + 719468) / 146097 = cycle at *
  generalize (n + 719468) % 146097 = day at *
  have hcycle : (100 * c + 4 * q + t + cycle * 400) / 400 = cycle := by omega
  have hyear : (100 * c + 4 * q + t + cycle * 400) % 400 = 100 * c + 4 * q + t := by omega
  have hs : 0 ≤ (5 * d + 2) / 153 ∧ (5 * d + 2) / 153 ≤ 11 := by omega
  have hfirst : 1 ≤ d - (153 * ((5 * d + 2) / 153) + 2) / 5 + 1 := by omega
  generalize (5 * d + 2) / 153 = shifted at *
  simp only [dayNumber]
  obtain hlt | hle := Int.lt_or_le shifted 10
  · have hmonth : ¬ (shifted + 3).toNat ≤ 2 := by omega
    have hshift : (((shifted + 3).toNat : Int) + 9) % 12 = shifted := by omega
    simp only [hlt, hmonth, if_true, if_false, hshift, hcycle, hyear, hfour, hhundred]
    omega
  · have hmonth : (shifted - 9).toNat ≤ 2 := by omega
    have hshift : (((shifted - 9).toNat : Int) + 9) % 12 = shifted := by omega
    simp only [Int.not_lt.2 hle, hmonth, if_true, if_false, hshift, Int.add_sub_cancel, hcycle,
      hyear, hfour, hhundred]
    omega

/-- The date of a day number exists. -/
theorem isValid_ofDayNumber (n : Int) : (ofDayNumber n).isValid = true := by
  obtain ⟨c, q, t, d, h⟩ := exists_isPosition (n + 719468)
  rw [ofDayNumber_eq h]
  obtain ⟨_, hc, hq, ht, hd, hleap⟩ := h
  generalize (n + 719468) / 146097 = cycle
  have hs : 0 ≤ (5 * d + 2) / 153 ∧ (5 * d + 2) / 153 ≤ 11 := by omega
  generalize hshift : (5 * d + 2) / 153 = shifted at *
  obtain ⟨hmin, hmax⟩ := hs
  simp only [isValid, Bool.and_eq_true, decide_eq_true_eq, daysInMonth, isLeapYear]
  -- One case for each month, with its own length.
  interval_cases shifted <;> simp <;> omega

/-- The days in the range of instants lie in the years from -262143 to 262142. -/
theorem year_ofDayNumber {n : Int} (hmin : -96465292 ≤ n) (hmax : n ≤ 95026236) :
    -262143 ≤ (ofDayNumber n).year ∧ (ofDayNumber n).year ≤ 262142 := by
  obtain ⟨c, q, t, d, h⟩ := exists_isPosition (n + 719468)
  rw [ofDayNumber_eq h]
  obtain ⟨hday, hc, hq, ht, hd, _⟩ := h
  have hn := Int.mul_ediv_add_emod (n + 719468) 146097
  generalize (n + 719468) / 146097 = cycle at *
  generalize (n + 719468) % 146097 = day at *
  have hcycle : -656 ≤ cycle ∧ cycle ≤ 655 := by omega
  have hfirst : cycle = -656 → 256 ≤ 100 * c + 4 * q + t ∧
      (100 * c + 4 * q + t = 256 → 306 ≤ d) := by
    intro h
    omega
  have hlast : cycle = 655 → 100 * c + 4 * q + t ≤ 142 ∧
      (100 * c + 4 * q + t = 142 → d ≤ 305) := by
    intro h
    omega
  simp only
  split <;> omega

end FederatedQuery.Time.Date
