import FederatedQuery.Decimal.Layout
import FederatedQuery.Proofs.Instants
import Mathlib

/-!
# Decimals and their texts

A decimal is a run of digits and the place of its point, and it stands for a rational number. The
zeros at the end of the run are dropped, which does not change this number. The plain text of a
decimal has no exponent: it shows all digits around a point, with zeros in between where the run
does not reach the point. It can be read back, so the decimals of equal texts are equal numbers.

## Main definitions

* `Digits.value`: the number that a decimal stands for.
* `textValue`: the number that a plain text stands for.

## Main results

* `Digits.value_ofNat`: the decimal of a multiple of a power of ten.
* `Layout.textValue_writePositional`: the plain text of a decimal stands for this decimal.
* `Layout.writePositional_ofNat`: the plain text of an integer is made of its digits.
-/

namespace FederatedQuery

namespace Text

/-- A power of ten puts zeros behind the digits. -/
theorem digits_mul_pow {n : Nat} (hn : 0 < n) (k : Nat) :
    digits (n * 10 ^ k) = digits n ++ List.replicate k '0' := by
  induction k with
  | zero => rw [pow_zero, mul_one, List.replicate_zero, List.append_nil]
  | succ k ih =>
    have hpos : 0 < n * 10 ^ k := Nat.mul_pos hn (Nat.pow_pos (by decide))
    have hlast := Nat.toDigits_append_toDigits (by decide : 1 < 10) hpos (by decide : 0 < 10)
    rw [List.replicate_succ', ← List.append_assoc, ← ih]
    calc digits (n * 10 ^ (k + 1)) = Nat.toDigits 10 (10 * (n * 10 ^ k) + 0) := by
          rw [digits]
          congr 1
          ring
      _ = digits (n * 10 ^ k) ++ ['0'] := hlast.symm

/-- Different integers have different texts. -/
theorem signed_injective : Function.Injective signed := by
  intro i j h
  have hsign {m n : Nat} : '-' :: digits m ≠ digits n := fun h => by
    have hdigit : Char.isDigit '-' = true := isDigit_of_mem_digits (h ▸ List.mem_cons_self)
    exact absurd hdigit (by decide)
  have habs {m n : Nat} (h : digits m = digits n) : m = n := by
    rw [← numeral_digits m, h, numeral_digits]
  unfold signed at h
  split at h <;> split at h
  · have hsame := habs (List.cons.inj h).2
    omega
  · exact absurd h hsign
  · exact absurd h.symm hsign
  · have hsame := habs h
    omega

end Text

namespace Decimal

/-! ### The number of a decimal -/

/-- Zeros are dropped. -/
theorem exists_append_dropTrailingZeros (cs : List Char) :
    ∃ k, dropTrailingZeros cs ++ List.replicate k '0' = cs := by
  cases cs with
  | nil => exact ⟨0, rfl⟩
  | cons c rest =>
    let zeros := rest.reverse.takeWhile (· == '0')
    have hzeros : zeros = List.replicate zeros.length '0' := by
      refine List.eq_replicate_of_mem fun d hd => beq_iff_eq.1 ?_
      exact List.mem_takeWhile_imp (p := (· == '0')) hd
    refine ⟨zeros.length, ?_⟩
    rw [dropTrailingZeros, List.cons_append, ← List.reverse_replicate, ← hzeros,
      ← List.reverse_append, List.takeWhile_append_dropWhile, List.reverse_reverse]

namespace Digits

/-- The number that a decimal stands for. -/
def value (d : Digits) : Rat :=
  Text.numeral d.digits * (10 : Rat) ^ (d.exponent + 1 - d.digits.length)

/-- The digits of a decimal are digits, and there are some. -/
structure IsRun (d : Digits) : Prop where
  isDigit : ∀ c ∈ d.digits, c.isDigit = true
  ne_nil : d.digits ≠ []

variable (n : Nat) (e : Int)

theorem exponent_ofNat : (ofNat n e).exponent = e + (Text.digits n).length - 1 := rfl

theorem exists_append_ofNat : ∃ k, (ofNat n e).digits ++ List.replicate k '0' = Text.digits n ∧
    (Text.digits n).length = (ofNat n e).digits.length + k := by
  obtain ⟨k, hk⟩ := exists_append_dropTrailingZeros (Text.digits n)
  have hlength := congrArg List.length hk
  rw [List.length_append, List.length_replicate] at hlength
  exact ⟨k, hk, hlength.symm⟩

theorem isRun_ofNat : (ofNat n e).IsRun := by
  obtain ⟨k, hk, -⟩ := exists_append_ofNat n e
  constructor
  · intro c hc
    refine Text.isDigit_of_mem_digits (n := n) ?_
    rw [← hk]
    exact List.mem_append_left _ hc
  · have hpos : 0 < (Text.digits n).length := Nat.length_toDigits_pos
    change dropTrailingZeros (Text.digits n) ≠ []
    obtain ⟨c, rest, hrun⟩ := List.exists_cons_of_length_pos hpos
    rw [hrun]
    exact List.cons_ne_nil _ _

/-- **Zeros at the end do not count.** -/
theorem value_ofNat : (ofNat n e).value = n * (10 : Rat) ^ e := by
  obtain ⟨k, hk, hlength⟩ := exists_append_ofNat n e
  have hnumeral : n = 10 ^ k * Text.numeral (ofNat n e).digits := by
    rw [← Text.numeral_append_replicate, hk, Text.numeral_digits]
  have hexponent : (ofNat n e).exponent + 1 - (ofNat n e).digits.length = e + k := by
    rw [exponent_ofNat, hlength]
    omega
  calc (ofNat n e).value
      = Text.numeral (ofNat n e).digits * (10 : Rat) ^ (e + k) := by rw [value, hexponent]
    _ = (10 ^ k * Text.numeral (ofNat n e).digits : Nat) * (10 : Rat) ^ e := by
        rw [zpow_add₀ (by norm_num), zpow_natCast]
        push_cast
        ring
    _ = n * (10 : Rat) ^ e := by rw [← hnumeral]

end Digits

/-! ### The number of a text -/

/-- The number that a plain text without sign stands for. -/
def textValue (cs : List Char) : Rat :=
  let whole := cs.takeWhile Char.isDigit
  let fraction := (cs.dropWhile Char.isDigit).drop 1
  Text.numeral (whole ++ fraction) / (10 : Rat) ^ fraction.length

theorem textValue_of_whole {whole : List Char} (h : ∀ c ∈ whole, c.isDigit = true) :
    textValue whole = Text.numeral whole := by
  simp only [textValue, List.takeWhile_eq_self_iff.2 h, List.dropWhile_eq_nil_iff.2 h,
    List.drop_nil, List.append_nil, List.length_nil, pow_zero, div_one]

theorem textValue_of_point {whole fraction : List Char} (h : ∀ c ∈ whole, c.isDigit = true) :
    textValue (whole ++ '.' :: fraction) =
      Text.numeral (whole ++ fraction) / (10 : Rat) ^ fraction.length := by
  have hpoint : ('.' : Char).isDigit = false := rfl
  have htake : (whole ++ '.' :: fraction).takeWhile Char.isDigit = whole := by
    rw [List.takeWhile_append_of_pos h, List.takeWhile_cons, hpoint]
    exact List.append_nil _
  have hdrop : (whole ++ '.' :: fraction).dropWhile Char.isDigit = '.' :: fraction := by
    rw [List.dropWhile_append_of_pos h, List.dropWhile_cons, hpoint]
    rfl
  simp only [textValue, htake, hdrop, List.drop_succ_cons, List.drop_zero]

/-! ### Plain texts -/

namespace Layout

variable {d : Digits}

/-- Zeros stand between the point and the run. -/
theorem writePositional_of_neg (h : d.exponent < 0) : plain.writePositional d =
    ['0'] ++ '.' :: (List.replicate (d.exponent.natAbs - 1) '0' ++ d.digits) := by
  rw [writePositional, if_pos h]
  rfl

/-- Zeros stand behind the run, and there is no point. -/
theorem writePositional_of_length_le (h : (d.digits.length : Int) ≤ d.exponent + 1)
    (hexponent : 0 ≤ d.exponent) : plain.writePositional d =
      d.digits ++ List.replicate (d.exponent.natAbs + 1 - d.digits.length) '0' := by
  have hplaces : d.digits.length ≤ d.exponent.natAbs + 1 := by omega
  rw [writePositional, if_neg (by omega)]
  simp only [List.take_of_length_le hplaces, List.drop_eq_nil_of_le hplaces, List.isEmpty_nil,
    if_true]
  exact List.append_nil _

/-- The point stands inside of the run. -/
theorem writePositional_of_lt_length (h : d.exponent + 1 < (d.digits.length : Int))
    (hexponent : 0 ≤ d.exponent) : plain.writePositional d =
      d.digits.take (d.exponent.natAbs + 1) ++ '.' :: d.digits.drop (d.exponent.natAbs + 1) := by
  have hplaces : ¬d.digits.length ≤ d.exponent.natAbs + 1 := by omega
  have hlength : (d.digits.take (d.exponent.natAbs + 1)).length = d.exponent.natAbs + 1 :=
    List.length_take_of_le (by omega)
  have hfraction : (d.digits.drop (d.exponent.natAbs + 1)).isEmpty = false := by
    rwa [List.isEmpty_eq_false_iff, ne_eq, List.drop_eq_nil_iff]
  rw [writePositional, if_neg (by omega)]
  simp only [hlength, Nat.sub_self, List.replicate_zero, List.append_nil, hfraction,
    Bool.false_eq_true, if_false]

/-- The plain text of an integer is made of its digits. -/
theorem writePositional_ofNat {n : Nat} (hn : 0 < n) (k : Nat) :
    plain.writePositional (Digits.ofNat n k) = Text.digits (n * 10 ^ k) := by
  obtain ⟨z, hz, hlength⟩ := Digits.exists_append_ofNat n k
  have hpos : 0 < (Text.digits n).length := Nat.length_toDigits_pos
  have hexponent := Digits.exponent_ofNat n k
  rw [writePositional_of_length_le (by omega) (by omega), Text.digits_mul_pow hn, ← hz,
    List.append_assoc, List.replicate_append_replicate]
  congr 2
  omega

/-- **Plain texts are read back.** -/
theorem textValue_writePositional (hd : d.IsRun) :
    textValue (plain.writePositional d) = d.value := by
  have hten : (10 : Rat) ≠ 0 := by norm_num
  unfold Digits.value
  obtain hneg | hexponent := lt_or_ge d.exponent 0
  · have hfirst : ∀ c ∈ ['0'], c.isDigit = true := List.forall_mem_singleton.2 rfl
    have hzeros : ['0'] ++ (List.replicate (d.exponent.natAbs - 1) '0' ++ d.digits) =
        List.replicate d.exponent.natAbs '0' ++ d.digits := by
      obtain ⟨k, hk⟩ : ∃ k, d.exponent.natAbs = k + 1 := ⟨d.exponent.natAbs - 1, by omega⟩
      rw [hk, Nat.add_sub_cancel, List.replicate_succ]
      rfl
    have hplaces : d.exponent + 1 - (d.digits.length : Int) =
        -((d.exponent.natAbs - 1 + d.digits.length : Nat) : Int) := by
      omega
    rw [writePositional_of_neg hneg, textValue_of_point hfirst, hzeros,
      Text.numeral_replicate_append, List.length_append, List.length_replicate, hplaces, zpow_neg,
      zpow_natCast, div_eq_mul_inv]
  · obtain hle | hlt := le_or_gt (d.digits.length : Int) (d.exponent + 1)
    · have hwhole : ∀ c ∈ d.digits ++
          List.replicate (d.exponent.natAbs + 1 - d.digits.length) '0', c.isDigit = true :=
        List.forall_mem_append.2 ⟨hd.isDigit, fun c hc => List.eq_of_mem_replicate hc ▸ rfl⟩
      have hplaces : d.exponent + 1 - (d.digits.length : Int) =
          (d.exponent.natAbs + 1 - d.digits.length : Nat) := by
        omega
      rw [writePositional_of_length_le hle hexponent, textValue_of_whole hwhole,
        Text.numeral_append_replicate, hplaces, zpow_natCast, Nat.cast_mul, Nat.cast_pow,
        Nat.cast_ofNat, mul_comm]
    · have hplaces : d.exponent + 1 - (d.digits.length : Int) =
          -((d.digits.length - (d.exponent.natAbs + 1) : Nat) : Int) := by
        omega
      rw [writePositional_of_lt_length hlt hexponent,
        textValue_of_point fun c hc => hd.isDigit c (List.mem_of_mem_take hc),
        List.take_append_drop, List.length_drop, hplaces, zpow_neg, zpow_natCast, div_eq_mul_inv]

/-- A plain text without sign starts with a digit. -/
theorem head?_writePositional (hd : d.IsRun) :
    ∃ c ∈ (plain.writePositional d).head?, c.isDigit = true := by
  obtain ⟨c, rest, hdigits⟩ := List.exists_cons_of_ne_nil hd.ne_nil
  have hc : c.isDigit = true := hd.isDigit c (hdigits ▸ List.mem_cons_self)
  obtain hneg | hexponent := lt_or_ge d.exponent 0
  · rw [writePositional_of_neg hneg]
    exact ⟨'0', rfl, rfl⟩
  · obtain hle | hlt := le_or_gt (d.digits.length : Int) (d.exponent + 1)
    · rw [writePositional_of_length_le hle hexponent, hdigits]
      exact ⟨c, rfl, hc⟩
    · rw [writePositional_of_lt_length hlt hexponent, hdigits]
      exact ⟨c, rfl, hc⟩

end Layout

end Decimal

end FederatedQuery
