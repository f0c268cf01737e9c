import FederatedQuery.Expression.Build
import Mathlib.Data.Option.Basic

/-!
# The texts of periods

A period is written as an amount between what names its unit: `P` and `D` around days, `PT` and one
of `H`, `M` and `S` around hours, minutes and seconds. The amount is read digit by digit into a word
and then multiplied into another one. The digits of any number, however long, are either read as
this number or refused, and so is the product. So a text is a period exactly if it is written in
this way, with a positive amount, and not too long; every other text is refused as an invalid
period.

## Main definitions

* `Period.Written`: a text as a run of digits and the seconds in its unit.
* `Period.Spells`: the length that a text spells.

## Main results

* `Period.amount?_eq`: amounts are read without overflow.
* `Period.split?_eq_some_iff`: how texts are taken apart.
* `Period.parse_eq_ok_iff_spells`: the texts of periods.
-/

namespace FederatedQuery

/-! ### Amounts -/

theorem Word.natural?_eq_some_iff {m n : Nat} : natural? n = some m ↔ n < half ∧ m = n := by
  unfold natural?
  split
  · next h => simp [h, eq_comm]
  · next h => simp [h]

/-- More digits do not make a number smaller. -/
theorem Text.le_foldl_digits (run : List Char) (n : Nat) :
    n ≤ run.foldl (fun n c => 10 * n + digitValue c) n := by
  induction run generalizing n with
  | nil => exact Nat.le_refl n
  | cons c run ih =>
    have hstep : n ≤ 10 * n + digitValue c := by omega
    exact Nat.le_trans hstep (ih _)

namespace Period

/-- **Amounts are read without overflow.** Reading digit by digit gives the number that the digits
stand for, or nothing if it does not fit into a word. -/
theorem amount?_eq (run : List Char) : amount? run = Word.natural? (Text.numeral run) := by
  suffices h : ∀ n, n < Word.half →
      run.foldlM (fun n c => Word.natural? (10 * n + Text.digitValue c)) n =
        Word.natural? (run.foldl (fun n c => 10 * n + Text.digitValue c) n) from
    h 0 (by decide)
  induction run with
  | nil => exact fun n hn => (if_pos hn).symm
  | cons c run ih =>
    intro n _
    rw [List.foldlM_cons, List.foldl_cons]
    by_cases hnext : 10 * n + Text.digitValue c < Word.half
    · rw [Word.natural?, if_pos hnext]
      exact ih _ hnext
    · -- the number only grows with the digits that follow
      have hgrown := Text.le_foldl_digits run (10 * n + Text.digitValue c)
      rw [Word.natural?, Word.natural?, if_neg hnext, if_neg (by omega)]
      rfl

/-! ### Units -/

/-- The text is a run between what names a unit of so many seconds. -/
inductive Written : List Char → List Char → Nat → Prop
  | days (run : List Char) : Written ('P' :: (run ++ ['D'])) run 86400
  | hours (run : List Char) : Written ('P' :: 'T' :: (run ++ ['H'])) run 3600
  | minutes (run : List Char) : Written ('P' :: 'T' :: (run ++ ['M'])) run 60
  | seconds (run : List Char) : Written ('P' :: 'T' :: (run ++ ['S'])) run 1

theorem Written.unit_pos {cs run : List Char} {unit : Nat} (h : Written cs run unit) :
    0 < unit := by
  cases h <;> decide

theorem clockUnit?_eq_some_iff {c : Char} {unit : Nat} :
    clockUnit? c = some unit ↔
      c = 'S' ∧ unit = 1 ∨ c = 'M' ∧ unit = 60 ∨ c = 'H' ∧ unit = 3600 := by
  unfold clockUnit?
  split <;> simp_all [eq_comm]

variable {cs run : List Char} {unit : Nat}

/-- What is taken apart is written in this way. -/
theorem written_of_split? (h : split? cs = some (run, unit)) : Written cs run unit := by
  unfold split? at h
  split at h
  · next rest =>
    obtain ⟨unit', hunit, heq⟩ := Option.map_eq_some_iff.1 h
    obtain ⟨c, hlast, hclock⟩ := Option.bind_eq_some_iff.1 hunit
    obtain ⟨init, rfl⟩ := List.getLast?_eq_some_iff.1 hlast
    rw [List.dropLast_concat] at heq
    obtain ⟨rfl, rfl⟩ := Prod.mk.inj heq
    obtain ⟨rfl, rfl⟩ | ⟨rfl, rfl⟩ | ⟨rfl, rfl⟩ := clockUnit?_eq_some_iff.1 hclock
    · exact .seconds init
    · exact .minutes init
    · exact .hours init
  · next rest _ =>
    split at h
    · next hlast =>
      obtain ⟨init, rfl⟩ := List.getLast?_eq_some_iff.1 hlast
      rw [List.dropLast_concat] at h
      obtain ⟨rfl, rfl⟩ := Prod.mk.inj (Option.some.inj h)
      exact .days init
    · exact nomatch h
  · exact nomatch h

/-- **Texts are taken apart** at what names a unit, if digits stand in between. -/
theorem split?_eq_some_iff (hdigits : ∀ c ∈ run, c.isDigit = true) :
    split? cs = some (run, unit) ↔ Written cs run unit := by
  refine ⟨written_of_split?, fun h => ?_⟩
  cases h with
  | days =>
    have hclock : ∀ rest, run ++ ['D'] ≠ 'T' :: rest := by
      rintro rest heq
      cases run with
      | nil => exact nomatch heq
      | cons c run =>
        obtain ⟨rfl, -⟩ := List.cons.inj heq
        exact nomatch hdigits 'T' List.mem_cons_self
    rw [split?]
    · rw [List.getLast?_concat, if_pos rfl, List.dropLast_concat]
    · exact hclock
  | hours | minutes | seconds => simp [split?, clockUnit?]

/-! ### Lengths -/

/-- The text spells a length in seconds: a positive amount of a unit, in one or more digits, of at
most `9223372036854775` seconds. -/
def Spells (text : String) (seconds : Nat) : Prop :=
  ∃ run unit, Written text.toList run unit ∧ run ≠ [] ∧ (∀ c ∈ run, c.isDigit = true) ∧
    0 < Text.numeral run ∧ Text.numeral run * unit ≤ 9223372036854775 ∧
    seconds = Text.numeral run * unit

variable {text : String} {n : Nat} {p : Period}

theorem Spells.fits (h : Spells text n) : 0 < n ∧ n ≤ 9223372036854775 := by
  obtain ⟨run, unit, hwritten, -, -, hpos, hle, rfl⟩ := h
  exact ⟨Nat.mul_pos hpos hwritten.unit_pos, hle⟩

theorem seconds?_eq_some_iff : seconds? text.toList = some n ↔ Spells text n := by
  simp only [seconds?, Option.bind_eq_bind, Option.bind_eq_some_iff, Option.guard_eq_some',
    exists_const, amount?_eq, Word.natural?_eq_some_iff, Option.some.injEq, Bool.and_eq_true,
    Bool.not_eq_true', List.isEmpty_eq_false_iff, List.all_eq_true]
  constructor
  · rintro ⟨⟨run, unit⟩, hsplit, ⟨hrun, hdigits⟩, _, ⟨-, rfl⟩, hpos, _, ⟨-, rfl⟩, hle, rfl⟩
    exact ⟨run, unit, (split?_eq_some_iff hdigits).1 hsplit, hrun, hdigits, hpos, hle, rfl⟩
  · rintro ⟨run, unit, hwritten, hrun, hdigits, hpos, hle, rfl⟩
    -- what fits into a length fits into a word, and so does the amount, which is not larger
    have hseconds : Text.numeral run * unit < Word.half := Nat.lt_of_le_of_lt hle (by decide)
    have hamount : Text.numeral run < Word.half :=
      Nat.lt_of_le_of_lt (Nat.le_mul_of_pos_right _ hwritten.unit_pos) hseconds
    exact ⟨(run, unit), (split?_eq_some_iff hdigits).2 hwritten, ⟨hrun, hdigits⟩, _,
      ⟨hamount, rfl⟩, hpos, _, ⟨hseconds, rfl⟩, hle, rfl⟩

theorem parse?_eq_some_iff : parse? text = some p ↔ p.text = text ∧ Spells text p.seconds := by
  obtain ⟨ptext, pseconds, _, _⟩ := p
  rw [← seconds?_eq_some_iff]
  unfold parse?
  split
  · next hnone => simp [hnone]
  · next n hsome =>
    have hfits := (seconds?_eq_some_iff.1 hsome).fits
    rw [hsome, dif_pos hfits, Option.some.injEq, Option.some.injEq, mk.injEq]
    exact and_congr eq_comm Iff.rfl

theorem parse?_eq_none_iff : parse? text = none ↔ ¬∃ n, Spells text n := by
  rw [Option.eq_none_iff_forall_ne_some]
  constructor
  · rintro hnone ⟨n, hspells⟩
    obtain ⟨hpos, hle⟩ := hspells.fits
    exact hnone ⟨text, n, hpos, hle⟩ (parse?_eq_some_iff.2 ⟨rfl, hspells⟩)
  · exact fun hspells p hsome => hspells ⟨p.seconds, (parse?_eq_some_iff.1 hsome).2⟩

theorem parse_eq_ok_iff : parse text = .ok p ↔ parse? text = some p := by
  unfold parse
  split
  · next q hq => simp [hq]
  · next hnone => simp [hnone]

theorem parse_eq_error_iff {e : Malformation} :
    parse text = .error e ↔ e = .invalidPeriod text ∧ parse? text = none := by
  unfold parse
  split
  · next q hq => simp [hq]
  · next hnone => simp [hnone, eq_comm]

/-- **The texts of periods.** A text is read as a period if and only if it spells a length; the
period keeps the text and has this length. Every other text is refused as an invalid period, and
there is no other error. -/
theorem parse_eq_ok_iff_spells (text : String) :
    (∀ p, parse text = .ok p ↔ p.text = text ∧ Spells text p.seconds) ∧
      ((∃ p, parse text = .ok p) ↔ ∃ n, Spells text n) ∧
      ∀ e, parse text = .error e ↔ e = .invalidPeriod text ∧ ¬∃ n, Spells text n := by
  refine ⟨fun p => parse_eq_ok_iff.trans parse?_eq_some_iff, ?_, fun e => ?_⟩
  · rw [← not_iff_not, ← parse?_eq_none_iff, Option.eq_none_iff_forall_ne_some, not_exists]
    exact forall_congr' fun p => not_congr parse_eq_ok_iff
  · rw [parse_eq_error_iff, parse?_eq_none_iff]

example : Spells "PT007M" 420 :=
  ⟨_, _, .minutes ['0', '0', '7'], by decide, List.all_eq_true.1 rfl, by decide, by decide,
    by decide⟩

end Period

end FederatedQuery
