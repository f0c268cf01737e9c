import FederatedQuery.Proofs.Decimals
import FederatedQuery.Proofs.Mantissas

/-!
# Shortest decimals

The intervals of different doubles have no common point, so a decimal in the interval of a double
belongs to no other double. The shortest decimal is found in the interval within 17 digits, because
the interval is wider than the distance of decimals with 17 digits. So doubles with equal texts are
equal.

## Main definitions

* `gap`: the distance to the next double above.
* `attempt?`: the point for a double among the decimals with so many digits.

## Main results

* `Interval.eq_of_holds`: the intervals of different doubles have no common point.
* `exists_attempt?`, `exists_shortest`: the shortest decimal is found in the interval.
* `Layout.plain_injective`: the plain texts of different finite doubles are different.
* `Layout.plain_write_ofInt`: the plain texts of small integers.
-/

namespace FederatedQuery.Decimal

open Double

/-- The distance to the next double above. -/
def gap (x : Float) : Rat := (2 : Rat) ^ binaryExponent x

theorem gap_pos (x : Float) : 0 < gap x := zpow_pos (by norm_num) _

theorem magnitude_eq (x : Float) : magnitude x = mantissa x * gap x := rfl

/-! ### Intervals -/

namespace Interval

variable {x y : Float} {r : Rat}

theorem high_ofDouble (x : Float) : (ofDouble x).high = (mantissa x + 1 / 2) * gap x := by
  change magnitude x + gap x / 2 = _
  rw [magnitude_eq]
  ring

/-- Below a power of two the doubles are denser, but not below the least one with a leading bit. -/
theorem low_ofDouble (x : Float) :
    (mantissa x = 2 ^ 52 ∧ (ofDouble x).low = (mantissa x - 1 / 4) * gap x) ∨
      ((-1074 < binaryExponent x → 2 ^ 52 < mantissa x) ∧
        (ofDouble x).low = (mantissa x - 1 / 2) * gap x) := by
  have hlow : (ofDouble x).low = mantissa x * gap x -
      (if (fractionBits x = 0 && decide (1 < exponentBits x)) = true then gap x / 2
        else gap x) / 2 := rfl
  rw [hlow]
  split
  · next hdense =>
    simp only [Bool.and_eq_true, decide_eq_true_eq] at hdense
    refine .inl ⟨?_, by ring⟩
    rw [mantissa, if_neg (by omega), hdense.1]
    rfl
  · next hdense =>
    simp only [Bool.and_eq_true, decide_eq_true_eq] at hdense
    refine .inr ⟨fun h => ?_, by ring⟩
    unfold binaryExponent at h
    unfold mantissa fractionCount
    split at h <;> split <;> omega

/-- The interval reaches down to the midpoint between a double and the double below it. -/
theorem le_low_ofDouble (x : Float) : (mantissa x - 1 / 2) * gap x ≤ (ofDouble x).low := by
  obtain ⟨-, hlow⟩ | ⟨-, hlow⟩ := low_ofDouble x
  · rw [hlow]
    exact mul_le_mul_of_nonneg_right (by linarith) (gap_pos x).le
  · exact hlow.ge

theorem power_le_low_ofDouble (h : -1074 < binaryExponent x) :
    (2 ^ 52 - 1 / 4 : Rat) * gap x ≤ (ofDouble x).low := by
  obtain ⟨hpower, hlow⟩ | ⟨hlt, hlow⟩ := low_ofDouble x
  · rw [hlow, hpower]
    norm_num
  · have hsucc : (2 ^ 52 + 1 : Rat) ≤ mantissa x := by exact_mod_cast hlt h
    rw [hlow]
    exact mul_le_mul_of_nonneg_right (by linarith) (gap_pos x).le

theorem low_lt_magnitude (x : Float) : (ofDouble x).low < magnitude x := by
  rw [magnitude_eq]
  obtain ⟨-, hlow⟩ | ⟨-, hlow⟩ := low_ofDouble x <;>
    exact hlow.trans_lt (mul_lt_mul_of_pos_right (by linarith) (gap_pos x))

theorem magnitude_lt_high (x : Float) : magnitude x < (ofDouble x).high := by
  rw [magnitude_eq, high_ofDouble]
  exact mul_lt_mul_of_pos_right (by linarith) (gap_pos x)

/-- The width of an interval relative to its double. -/
theorem magnitude_div_lt_width (x : Float) :
    magnitude x / 10 ^ 16 < (ofDouble x).high - (ofDouble x).low := by
  have hgap := gap_pos x
  rw [magnitude_eq, high_ofDouble]
  obtain ⟨hpower, hlow⟩ | ⟨-, hlow⟩ := low_ofDouble x
  · rw [hlow, hpower]
    norm_num
    linarith
  · have hbound : (mantissa x : Rat) < 2 ^ 53 := by exact_mod_cast mantissa_lt x
    rw [hlow]
    calc mantissa x * gap x / 10 ^ 16 = mantissa x / 10 ^ 16 * gap x := by ring
      _ < 1 * gap x := mul_lt_mul_of_pos_right (by linarith) hgap
      _ = (mantissa x + 1 / 2) * gap x - (mantissa x - 1 / 2) * gap x := by ring

theorem le_of_holds {i : Interval} (h : i.holds r = true) : i.low ≤ r ∧ r ≤ i.high := by
  unfold holds at h
  split at h <;> simp only [Bool.and_eq_true, decide_eq_true_eq] at h
  · exact h
  · exact ⟨h.1.le, h.2.le⟩

/-- A number that rounds to a double is at most half of the distance to the next one away. -/
theorem abs_sub_le_of_holds (h : (ofDouble x).holds r = true) : |r - magnitude x| ≤ gap x / 2 := by
  obtain ⟨hlow, hhigh⟩ := le_of_holds h
  have hbelow := le_low_ofDouble x
  rw [high_ofDouble] at hhigh
  rw [magnitude_eq, abs_le]
  constructor <;> linarith

theorem lt_of_holds {i : Interval} (h : i.holds r = true) (hopen : i.closed = false) :
    i.low < r ∧ r < i.high := by
  unfold holds at h
  rw [hopen] at h
  simpa only [Bool.false_eq_true, if_false, Bool.and_eq_true, decide_eq_true_eq] using h

/-- Every number strictly between the ends belongs to the interval. -/
theorem holds_of_lt {i : Interval} (hlow : i.low < r) (hhigh : r < i.high) :
    i.holds r = true := by
  unfold holds
  split
  · simp [hlow.le, hhigh.le]
  · simp [hlow, hhigh]

/-- The interval of a double with an odd mantissa is open. -/
theorem even_or_lt_of_holds (h : (ofDouble x).holds r = true) :
    mantissa x % 2 = 0 ∨ (ofDouble x).low < r ∧ r < (ofDouble x).high := by
  by_cases heven : mantissa x % 2 = 0
  · exact .inl heven
  · exact .inr (lt_of_holds h (decide_eq_false heven))

/-- The interval of a greater double starts above: the mantissa can be raised by `d`. -/
theorem le_low_of_lt {d : Nat} (hbound : mantissa x + d ≤ 2 ^ 53)
    (h : binaryExponent x < binaryExponent y ∨
      binaryExponent x = binaryExponent y ∧ mantissa x + d ≤ mantissa y) :
    (mantissa x + d - 1 / 2) * gap x ≤ (ofDouble y).low := by
  have hgap := gap_pos x
  obtain hlt | ⟨heq, hle⟩ := h
  · have hbound : (mantissa x + d : Rat) ≤ 2 ^ 53 := by exact_mod_cast hbound
    have hdouble : 2 * gap x ≤ gap y := by
      have hle : binaryExponent x + 1 ≤ binaryExponent y := hlt
      calc 2 * gap x = (2 : Rat) ^ (binaryExponent x + 1) := by
            rw [zpow_add_one₀ (by norm_num), mul_comm]
            rfl
        _ ≤ gap y := zpow_le_zpow_right₀ (by norm_num) hle
    calc (mantissa x + d - 1 / 2) * gap x ≤ (2 ^ 53 - 1 / 2) * gap x :=
          mul_le_mul_of_nonneg_right (by linarith) hgap.le
      _ = (2 ^ 52 - 1 / 4) * (2 * gap x) := by ring
      _ ≤ (2 ^ 52 - 1 / 4) * gap y := mul_le_mul_of_nonneg_left hdouble (by norm_num)
      _ ≤ (ofDouble y).low :=
        power_le_low_ofDouble (lt_of_le_of_lt (le_binaryExponent x) hlt)
  · have hsame : gap x = gap y := by rw [gap, gap, heq]
    have hle : (mantissa x + d : Rat) ≤ mantissa y := by exact_mod_cast hle
    refine le_trans ?_ (le_low_ofDouble y)
    rw [hsame] at hgap ⊢
    exact mul_le_mul_of_nonneg_right (by linarith) hgap.le

/-- Two intervals that follow each other have an end in common, but not both are closed. -/
theorem not_holds_of_lt (h : binaryExponent x < binaryExponent y ∨
    binaryExponent x = binaryExponent y ∧ mantissa x < mantissa y)
    (hx : (ofDouble x).holds r = true) : ¬(ofDouble y).holds r = true := by
  intro hy
  have hgap := gap_pos x
  have hmantissa := mantissa_lt x
  have hhigh := (le_of_holds hx).2
  have hlow := (le_of_holds hy).1
  have hends := le_low_of_lt (d := 1) (x := x) (y := y) (by omega) (by omega)
  rw [Nat.cast_one] at hends
  obtain hevenx | ⟨-, hopen⟩ := even_or_lt_of_holds hx
  · obtain heveny | ⟨hopen, -⟩ := even_or_lt_of_holds hy
    · -- there is a double between two with even mantissas
      have hends := le_low_of_lt (d := 2) (x := x) (y := y) (by omega) (by omega)
      rw [high_ofDouble] at hhigh
      rw [Nat.cast_ofNat] at hends
      linarith
    · rw [high_ofDouble] at hhigh
      linarith
  · rw [high_ofDouble] at hopen
    linarith

/-- **Intervals of doubles.** The intervals of different doubles have no common point. -/
theorem eq_of_holds (hx : (ofDouble x).holds r = true) (hy : (ofDouble y).holds r = true) :
    mantissa x = mantissa y ∧ binaryExponent x = binaryExponent y := by
  obtain hlt | heq | hgt := lt_trichotomy (binaryExponent x) (binaryExponent y)
  · exact absurd hy (not_holds_of_lt (.inl hlt) hx)
  · refine ⟨?_, heq⟩
    obtain hlt | hmantissa | hgt := lt_trichotomy (mantissa x) (mantissa y)
    · exact absurd hy (not_holds_of_lt (.inr ⟨heq, hlt⟩) hx)
    · exact hmantissa
    · exact absurd hx (not_holds_of_lt (.inr ⟨heq.symm, hgt⟩) hy)
  · exact absurd hx (not_holds_of_lt (.inl hgt) hy)

end Interval

/-! ### Points of grids -/

section Grid

variable {tie : Tie} {i : Interval} {r unit : Rat}

/-- None is found if the interval holds neither of the neighbours. -/
theorem gridPoint?_eq_none_iff : gridPoint? tie i r unit = none ↔
    i.holds ((r / unit).floor * unit) = false ∧ i.holds ((r / unit).ceil * unit) = false := by
  unfold gridPoint?
  dsimp only
  split <;> simp_all
  split_ifs <;> cases tie <;> simp

/-- What is found is a neighbour in the interval. -/
theorem neighbour_of_gridPoint? {n : Nat} (h : gridPoint? tie i r unit = some n) :
    ∃ z, (z = (r / unit).floor ∨ z = (r / unit).ceil) ∧ n = z.toNat ∧
      i.holds (z * unit) = true := by
  have found {z : Int} (hz : z = (r / unit).floor ∨ z = (r / unit).ceil)
      (hholds : i.holds (z * unit) = true) (hn : some z.toNat = some n) :
      ∃ z, (z = (r / unit).floor ∨ z = (r / unit).ceil) ∧ n = z.toNat ∧ i.holds (z * unit) = true :=
    ⟨z, hz, (Option.some.inj hn).symm, hholds⟩
  unfold gridPoint? at h
  dsimp only at h
  split at h
  · exact nomatch h
  · next hdown _ => exact found (.inl rfl) hdown h
  · next _ hup => exact found (.inr rfl) hup h
  · next hdown hup =>
    split at h
    · exact found (.inl rfl) hdown h
    · split at h
      · exact found (.inr rfl) hup h
      · cases tie with
        | up => exact found (.inr rfl) hup h
        | toEven =>
          dsimp only at h
          split at h
          · exact found (.inl rfl) hdown h
          · exact found (.inr rfl) hup h

/-- The point that is found lies in the interval. -/
theorem holds_of_gridPoint? (hr : 0 ≤ r) (hunit : 0 < unit) {n : Nat}
    (h : gridPoint? tie i r unit = some n) : i.holds (n * unit) = true := by
  have hquotient : 0 ≤ r / unit := div_nonneg hr hunit.le
  obtain ⟨z, hz, rfl, hholds⟩ := neighbour_of_gridPoint? h
  have hnonneg : 0 ≤ z := by
    obtain rfl | rfl := hz
    · exact Rat.le_floor_iff.2 hquotient
    · exact_mod_cast hquotient.trans Rat.le_ceil
  have hcast : ((z.toNat : Nat) : Rat) = (z : Rat) := by
    exact_mod_cast Int.toNat_of_nonneg hnonneg
  rwa [hcast]

/-- A point is found on a grid that is finer than the interval is wide. -/
theorem gridPoint?_ne_none (hlow : i.low < r) (hhigh : r < i.high) (hunit : 0 < unit)
    (hwidth : unit < i.high - i.low) : gridPoint? tie i r unit ≠ none := by
  intro h
  obtain ⟨hdown, hup⟩ := gridPoint?_eq_none_iff.1 h
  have hfloor : (r / unit).floor * unit ≤ r := (le_div_iff₀ hunit).1 (Rat.floor_le _)
  have hceil : r ≤ (r / unit).ceil * unit := (div_le_iff₀ hunit).1 Rat.le_ceil
  have hbelow : (r / unit).floor * unit ≤ i.low := by
    by_contra hlt
    exact absurd (Interval.holds_of_lt (not_le.1 hlt) (hfloor.trans_lt hhigh)) (by simp [hdown])
  have habove : i.high ≤ (r / unit).ceil * unit := by
    by_contra hlt
    exact absurd (Interval.holds_of_lt (hlow.trans_le hceil) (not_le.1 hlt)) (by simp [hup])
  have hstep : ((r / unit).ceil : Rat) ≤ (r / unit).floor + 1 := by
    have hle : (r / unit).ceil ≤ (r / unit).floor + 1 :=
      Rat.ceil_le_iff.2 (Rat.lt_floor_add_one _).le
    exact_mod_cast hle
  have hunits : (r / unit).ceil * unit ≤ (r / unit).floor * unit + unit := by
    calc ((r / unit).ceil : Rat) * unit ≤ ((r / unit).floor + 1) * unit :=
          mul_le_mul_of_nonneg_right hstep hunit.le
      _ = (r / unit).floor * unit + unit := by ring
  linarith

/-- A number is found on each grid that it is a point of. -/
theorem gridPoint?_ne_none_of_eq (hholds : i.holds r = true) (hunit : 0 < unit) {n : Nat}
    (h : r = n * unit) : gridPoint? tie i r unit ≠ none := by
  intro hnone
  have hquotient : r / unit = n := by rw [h, mul_div_cancel_right₀ _ hunit.ne']
  have hdown := (gridPoint?_eq_none_iff.1 hnone).1
  have hfloor : ((r / unit).floor : Rat) * unit = r := by
    rw [hquotient, h]
    exact congrArg (fun z : Int => (z : Rat) * unit) (Rat.floor_intCast n)
  rw [hfloor, hholds] at hdown
  exact absurd hdown (by decide)

end Grid

/-! ### The leading digit -/

/-- A positive rational is not less than the power of ten of its leading digit. -/
theorem pow_leadingExponent_le {r : Rat} (hr : 0 < r) : (10 : Rat) ^ leadingExponent r ≤ r := by
  unfold leadingExponent
  split
  · next hone =>
    have hfloor : 1 ≤ r.floor := Rat.le_floor_iff.2 hone
    have hpos : 0 < (Text.digits r.floor.toNat).length := Nat.length_toDigits_pos
    obtain ⟨p, hp⟩ : ∃ p, (Text.digits r.floor.toNat).length = p + 1 :=
      ⟨_, (Nat.sub_add_cancel hpos).symm⟩
    have hpow : 10 ^ p ≤ r.floor.toNat := by
      obtain rfl | hpos := Nat.eq_zero_or_pos p
      · rw [pow_zero]
        omega
      · have hlength := Nat.length_toDigits_le_iff (n := r.floor.toNat) (by decide : 1 < 10) hpos
        change (Text.digits r.floor.toNat).length ≤ p ↔ _ at hlength
        omega
    have hexponent : (((Text.digits r.floor.toNat).length : Int)) - 1 = p := by omega
    rw [hexponent, zpow_natCast]
    calc (10 : Rat) ^ p ≤ (r.floor.toNat : Rat) := by exact_mod_cast hpow
      _ = (r.floor : Rat) := by exact_mod_cast Int.toNat_of_nonneg (by omega)
      _ ≤ r := Rat.floor_le r
  · have hlength := (Nat.length_toDigits_le_iff (n := r⁻¹.ceil.toNat - 1) (by decide : 1 < 10)
      Nat.length_toDigits_pos).1 le_rfl
    change _ < 10 ^ (Text.digits (r⁻¹.ceil.toNat - 1)).length at hlength
    rw [zpow_neg, zpow_natCast]
    refine inv_le_of_inv_le₀ hr ?_
    calc r⁻¹ ≤ (r⁻¹.ceil : Rat) := Rat.le_ceil
      _ ≤ (r⁻¹.ceil.toNat : Rat) := by exact_mod_cast Int.self_le_toNat _
      _ ≤ _ := by
        have hle : r⁻¹.ceil.toNat ≤ 10 ^ (Text.digits (r⁻¹.ceil.toNat - 1)).length := by omega
        exact_mod_cast hle

theorem exists_leadingExponent_eq {r : Rat} (hr : 1 ≤ r) : ∃ k : Nat, leadingExponent r = k := by
  have hlength : 0 < (Text.digits r.floor.toNat).length := Nat.length_toDigits_pos
  refine ⟨(Text.digits r.floor.toNat).length - 1, ?_⟩
  rw [leadingExponent, if_pos hr]
  exact (Nat.cast_pred hlength).symm

/-! ### The shortest decimal -/

section Shortest

/-- The place of the last digit of a decimal with `j + 1` digits. -/
def lastPlace (x : Float) (j : Nat) : Int := leadingExponent (magnitude x) - j

/-- The point for a double on the grid of decimals with `j + 1` digits. -/
def attempt? (tie : Tie) (x : Float) (j : Nat) : Option Nat :=
  gridPoint? tie (Interval.ofDouble x) (magnitude x) ((10 : Rat) ^ lastPlace x j)

variable {tie : Tie} {x : Float}

/-- Decimals with seventeen digits are less far from each other than the interval is wide. -/
theorem attempt?_sixteen (h : 0 < magnitude x) : attempt? tie x 16 ≠ none := by
  refine gridPoint?_ne_none (Interval.low_lt_magnitude x) (Interval.magnitude_lt_high x)
    (by positivity) ?_
  calc (10 : Rat) ^ lastPlace x 16 = 10 ^ leadingExponent (magnitude x) / 10 ^ 16 := by
        rw [lastPlace, zpow_sub₀ (by norm_num), zpow_natCast]
    _ ≤ magnitude x / 10 ^ 16 := by
        gcongr
        exact pow_leadingExponent_le h
    _ < _ := Interval.magnitude_div_lt_width x

/-- **The shortest decimal.** It is the point that is found with the least number of digits, which
are seventeen at most. -/
theorem exists_attempt? (tie : Tie) (h : 0 < magnitude x) : ∃ j n,
    shortest tie x = Digits.ofNat n (lastPlace x j) ∧ attempt? tie x j = some n ∧
      ∀ k < j, attempt? tie x k = none := by
  have hfound : ((List.range 17).findSome? fun j =>
      (attempt? tie x j).map (Digits.ofNat · (lastPlace x j))) ≠ none := by
    intro hnone
    exact attempt?_sixteen h (Option.map_eq_none_iff.1
      (List.findSome?_eq_none_iff.1 hnone 16 (List.mem_range.2 (by decide))))
  obtain ⟨d, hd⟩ := Option.ne_none_iff_exists'.1 hfound
  obtain ⟨before, j, after, hrange, hj, hbefore⟩ := List.findSome?_eq_some_iff.1 hd
  obtain ⟨n, hn, rfl⟩ := Option.map_eq_some_iff.1 hj
  refine ⟨j, n, ?_, hn, fun k hk => ?_⟩
  · have hshortest : shortest tie x = ((List.range 17).findSome? fun j =>
        (attempt? tie x j).map (Digits.ofNat · (lastPlace x j))).getD
          (Digits.ofNat
            (magnitude x * (10 : Rat) ^ (16 - leadingExponent (magnitude x))).floor.toNat
            (leadingExponent (magnitude x) - 16)) := if_neg h.ne'
    rw [hshortest, hd]
    rfl
  · have hj : j < 17 := List.mem_range.1 (hrange ▸ List.mem_append_right _ List.mem_cons_self)
    have hmem : k ∈ before ++ j :: after := hrange ▸ List.mem_range.2 (hk.trans hj)
    have hsorted : (before ++ j :: after).Pairwise (· < ·) := hrange ▸ List.pairwise_lt_range
    have hafter := (List.pairwise_cons.1 (List.pairwise_append.1 hsorted).2.1).1
    obtain hmem | hmem := List.mem_append.1 hmem
    · exact Option.map_eq_none_iff.1 (hbefore k hmem)
    · obtain rfl | hmem := List.mem_cons.1 hmem
      · exact absurd hk (lt_irrefl k)
      · exact absurd (hafter k hmem) (Nat.lt_asymm hk)

theorem holds_magnitude (x : Float) : (Interval.ofDouble x).holds (magnitude x) = true :=
  Interval.holds_of_lt (Interval.low_lt_magnitude x) (Interval.magnitude_lt_high x)

/-- The shortest decimal lies in the interval. -/
theorem exists_shortest (tie : Tie) (x : Float) : ∃ n e, shortest tie x = Digits.ofNat n e ∧
    (Interval.ofDouble x).holds (n * (10 : Rat) ^ e) = true := by
  have hnonneg : 0 ≤ magnitude x := mul_nonneg (Nat.cast_nonneg _) (gap_pos x).le
  obtain hzero | hpos := hnonneg.eq_or_lt
  · refine ⟨0, 0, if_pos hzero.symm, ?_⟩
    rw [Nat.cast_zero, zero_mul, hzero]
    exact holds_magnitude x
  · obtain ⟨j, n, hshortest, hattempt, -⟩ := exists_attempt? tie hpos
    exact ⟨n, _, hshortest, holds_of_gridPoint? hnonneg (by positivity) hattempt⟩

/-- The shortest decimal of an integer is an integer: with the digits of the integer the integer
itself is found. -/
theorem exists_shortest_of_natCast (tie : Tie) {n : Nat} (hpos : 0 < n) (hn : magnitude x = n) :
    ∃ m p : Nat, shortest tie x = Digits.ofNat m p ∧
      (Interval.ofDouble x).holds (m * 10 ^ p : Nat) = true := by
  have hone : (1 : Rat) ≤ n := by exact_mod_cast hpos
  have hmagnitude : 0 < magnitude x := by
    rw [hn]
    linarith
  obtain ⟨j, m, hshortest, hattempt, hfirst⟩ := exists_attempt? tie hmagnitude
  obtain ⟨k, hk⟩ := exists_leadingExponent_eq (hone.trans_eq hn.symm)
  have hj : j ≤ k := by
    by_contra hlt
    refine gridPoint?_ne_none_of_eq (holds_magnitude x) (n := n) (by positivity) ?_
      (hfirst k (not_le.1 hlt))
    rw [hn, lastPlace, hk, sub_self, zpow_zero, mul_one]
  have hplace : lastPlace x j = (k - j : Nat) := by
    rw [lastPlace, hk]
    omega
  have hholds := holds_of_gridPoint? hmagnitude.le (by positivity) hattempt
  rw [hplace] at hshortest hholds
  refine ⟨m, k - j, hshortest, ?_⟩
  rwa [Nat.cast_mul, Nat.cast_pow, Nat.cast_ofNat, ← zpow_natCast]

end Shortest

/-! ### Texts -/

namespace Layout

theorem plain_write {x : Float} (h : x.isFinite = true) : plain.write x =
    String.ofList ((if isNegative x then ['-'] else []) ++
      plain.writePositional (shortest .up x)) := by
  have hcases : x.isNaN = false ∧ x.isInf = false := by
    change x.toModel.unpack.isFinite = true at h
    change x.toModel.unpack.isNaN = false ∧ x.toModel.unpack.isInf = false
    cases hu : x.toModel.unpack <;> rw [hu] at h <;> first | exact ⟨rfl, rfl⟩ | exact nomatch h
  rw [write, hcases.1]
  simp only [hcases.2, Bool.false_eq_true, if_false]
  rfl

/-- Only the texts of negative numbers start with a sign. -/
theorem isNegative_iff_head? {x : Float} (h : x.isFinite = true) :
    isNegative x = true ↔ (plain.write x).toList.head? = some '-' := by
  obtain ⟨n, e, hshortest, -⟩ := exists_shortest .up x
  obtain ⟨c, hc, hdigit⟩ := head?_writePositional (Digits.isRun_ofNat n e)
  rw [plain_write h, String.toList_ofList, hshortest]
  cases isNegative x with
  | true => exact iff_of_true rfl rfl
  | false =>
    refine iff_of_false Bool.false_ne_true fun hhead => ?_
    obtain rfl : c = '-' := Option.some.inj (hc.symm.trans hhead)
    exact absurd hdigit (by decide)

/-- **Texts of doubles.** The plain texts of different finite doubles are different. -/
theorem plain_injective {x y : Float} (hx : x.isFinite = true) (hy : y.isFinite = true)
    (h : plain.write x = plain.write y) : x = y := by
  have hsign : isNegative x = isNegative y := by
    rw [Bool.eq_iff_iff, isNegative_iff_head? hx, isNegative_iff_head? hy, h]
  obtain ⟨n, e, hshortest, hholds⟩ := exists_shortest .up x
  obtain ⟨n', e', hshortest', hholds'⟩ := exists_shortest .up y
  rw [plain_write hx, plain_write hy, String.ofList_inj, hshortest, hshortest', hsign] at h
  have htext := List.append_cancel_left h
  have hvalue : (n : Rat) * 10 ^ e = n' * 10 ^ e' := by
    rw [← Digits.value_ofNat, ← Digits.value_ofNat,
      ← textValue_writePositional (Digits.isRun_ofNat n e), htext,
      textValue_writePositional (Digits.isRun_ofNat n' e')]
  obtain ⟨hmantissa, hexponent⟩ := Interval.eq_of_holds hholds (hvalue ▸ hholds')
  exact ext_mantissa hsign hmantissa hexponent

/-- The shortest decimal of a small integer is this integer: there is no other integer nearby. -/
theorem exists_shortest_ofInt {i : Int} (hi : i ≠ 0) (hsmall : i.natAbs < 2 ^ 53) :
    ∃ m p : Nat, shortest .up (Float.ofInt i) = Digits.ofNat m p ∧ m * 10 ^ p = i.natAbs := by
  obtain ⟨-, hmagnitude, hexponent⟩ := fields_ofInt hi hsmall
  obtain ⟨m, p, hshortest, hholds⟩ :=
    exists_shortest_of_natCast .up (Int.natAbs_pos.2 hi) hmagnitude
  have hgap : gap (Float.ofInt i) ≤ 1 := zpow_le_one_of_nonpos₀ (by norm_num) hexponent
  have hnear : |((m * 10 ^ p : Nat) : Rat) - i.natAbs| < 1 := by
    have hhalf := Interval.abs_sub_le_of_holds hholds
    rw [hmagnitude] at hhalf
    linarith
  have hdistance : |((m * 10 ^ p : Nat) : Int) - i.natAbs| < 1 := by exact_mod_cast hnear
  refine ⟨m, p, hshortest, ?_⟩
  exact_mod_cast sub_eq_zero.1 (Int.abs_lt_one_iff.1 hdistance)

/-- **Texts of small integers.** -/
theorem plain_write_ofInt {i : Int} (hsmall : i.natAbs ≤ 2 ^ 53) :
    plain.write (Float.ofInt i) = String.ofList (Text.signed i) := by
  obtain rfl | hi := eq_or_ne i 0
  · decide +kernel
  obtain hpower | hlt := hsmall.eq_or_lt
  · obtain rfl | rfl := Int.natAbs_eq_iff.1 hpower
    · decide +kernel
    · decide +kernel
  obtain ⟨n, p, hshortest, hn⟩ := exists_shortest_ofInt hi hlt
  have hpos : 0 < n := Nat.pos_of_mul_pos_right (hn ▸ Int.natAbs_pos.2 hi)
  have hexact : Json.isExact i = true := by
    simp only [Json.isExact, Bool.and_eq_true, decide_eq_true_eq, Word.half, Word.count]
    omega
  rw [plain_write (isFinite_ofInt hexact), hshortest, writePositional_ofNat hpos, hn,
    (fields_ofInt hi hlt).1, Text.signed]
  simp only [decide_eq_true_eq]
  split <;> rfl

end Layout

end FederatedQuery.Decimal
