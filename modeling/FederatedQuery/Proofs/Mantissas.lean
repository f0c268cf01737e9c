import FederatedQuery.Decimal.Shortest
import FederatedQuery.Proofs.Doubles

/-!
# Mantissas of doubles

A double is given by its sign, its mantissa and its exponent, which are fields of its binary form.
An integer of up to 53 bits is a mantissa, after a shift. Shifting zeros in and out loses nothing,
so such an integer is rounded to itself.

## Main definitions

* `Double.scaled`: the mantissa of an integer.

## Main results

* `Double.ext_mantissa`: a double is determined by its sign, mantissa and exponent.
* `Double.roundWithAccuracy_exact`: mantissas of 53 bits are not changed by rounding.
* `Double.fields_ofInt`: small integers are doubles.
-/

namespace FederatedQuery.Double

open Float.Model Float.Model.UnpackedFloat Decimal

/-! ### Fields of the binary form -/

theorem fractionBits_lt (x : Float) : fractionBits x < fractionCount := Nat.mod_lt _ (by decide)

theorem mantissa_lt (x : Float) : mantissa x < 2 ^ 53 := by
  have hfraction := fractionBits_lt x
  unfold mantissa
  unfold fractionCount at *
  split <;> omega

theorem le_binaryExponent (x : Float) : -1074 ≤ binaryExponent x := by
  unfold binaryExponent
  split <;> omega

/-- The binary form from its fields. -/
theorem toNat_toBits (x : Float) : x.toBits.toNat =
    (if isNegative x then Word.half else 0) + exponentBits x * fractionCount + fractionBits x := by
  have hbits := x.toBits.toNat_lt
  simp only [isNegative, decide_eq_true_eq, exponentBits, fractionBits, fractionCount, Word.half]
  split <;> omega

/-- **Fields of doubles.** A double is determined by its sign, mantissa and exponent. -/
theorem ext_mantissa {x y : Float} (hsign : isNegative x = isNegative y)
    (hmantissa : mantissa x = mantissa y) (hexponent : binaryExponent x = binaryExponent y) :
    x = y := by
  have hfields : exponentBits x = exponentBits y ∧ fractionBits x = fractionBits y := by
    have hx := fractionBits_lt x
    have hy := fractionBits_lt y
    unfold mantissa at hmantissa
    unfold binaryExponent at hexponent
    constructor <;> split_ifs at hmantissa hexponent <;> omega
  have hbits : x.toBits = y.toBits := by
    rw [← UInt64.toNat_inj, toNat_toBits, toNat_toBits, hsign, hfields.1, hfields.2]
  obtain ⟨bits, hvalid⟩ := x
  obtain ⟨bits', hvalid'⟩ := y
  obtain rfl : bits = bits' := hbits
  rfl

theorem toNat_unpackMantissa (b : BitVec Format.binary64.numBits) :
    (unpackMantissa b).toNat = b.toNat % fractionCount := by
  simp [unpackMantissa, BitVec.extractLsb, fractionCount]

theorem toNat_unpackExponent (b : BitVec Format.binary64.numBits) :
    (unpackExponent b).toNat = b.toNat / fractionCount % 2048 := by
  simp [unpackExponent, BitVec.extractLsb, fractionCount, Nat.shiftRight_eq_div_pow]

theorem isNegative_unpackSign (b : BitVec Format.binary64.numBits) :
    (Sign.ofBitVec (unpackSign b) == .negative) =
      decide (Word.half ≤ b.toNat) := by
  have hbits : b.toNat < 2 ^ 64 := b.isLt
  have hsign : (unpackSign b).toNat = b.toNat / Word.half % 2 := by
    simp [unpackSign, BitVec.extractLsb, Word.half, Nat.shiftRight_eq_div_pow]
  unfold Sign.ofBitVec
  split
  · next hzero =>
    rw [hzero] at hsign
    change 0 = _ at hsign
    refine (decide_eq_false fun hhalf => ?_).symm
    unfold Word.half at *
    omega
  · next hone =>
    have hne : (unpackSign b).toNat ≠ 0 := fun h0 =>
      hone (BitVec.eq_of_toNat_eq h0)
    refine (decide_eq_true ?_).symm
    unfold Word.half at *
    omega

/-- The fields of a finite number. -/
theorem fields_of_unpack {x : Float} {s : Sign} {m : Nat} {e : Int} {hpos : 0 < m}
    (h : x.toModel.unpack = .finite s m e hpos) :
    isNegative x = (s == .negative) ∧ mantissa x = m ∧ binaryExponent x = e := by
  have hsign := isNegative_unpackSign x.toBits.toBitVec
  have hmantissa := toNat_unpackMantissa x.toBits.toBitVec
  have hexponent := toNat_unpackExponent x.toBits.toBitVec
  change UnpackedFloat.unpack .binary64 x.toBits.toBitVec = _ at h
  simp only [UnpackedFloat.unpack, exponentBias_binary64] at h
  split at h
  · split at h <;> exact nomatch h
  split at h
  · next hzero =>
    split at h
    · exact nomatch h
    injection h with hs hm he
    rw [hzero] at hexponent
    have hfield : exponentBits x = 0 := hexponent.symm
    refine ⟨?_, ?_, ?_⟩
    · rw [← hs]
      exact hsign.symm
    · rw [mantissa, if_pos hfield, ← hm]
      exact hmantissa.symm
    · rw [binaryExponent, if_pos hfield, ← he, hzero]
      rfl
  · next hnonzero =>
    injection h with hs hm he
    have hfield : exponentBits x ≠ 0 := fun h0 =>
      hnonzero (BitVec.eq_of_toNat_eq (hexponent.trans h0))
    refine ⟨?_, ?_, ?_⟩
    · rw [← hs]
      exact hsign.symm
    · rw [mantissa, if_neg hfield, ← hm, BitVec.toNat_append,
        ← Nat.shiftLeft_add_eq_or_of_lt (BitVec.isLt _), hmantissa]
      rfl
    · rw [binaryExponent, if_neg hfield, ← he, hexponent]
      rfl

/-! ### Exact rounding -/

theorem log2_mul_two_pow {m : Nat} (hm : m ≠ 0) (k : Nat) : (m * 2 ^ k).log2 = m.log2 + k := by
  induction k with
  | zero => rw [pow_zero, mul_one, Nat.add_zero]
  | succ k ih =>
    have hpos : m * 2 ^ k ≠ 0 := Nat.mul_ne_zero hm (Nat.two_pow_pos k).ne'
    rw [pow_succ', Nat.mul_left_comm, Nat.log2_two_mul hpos, ih, Nat.add_assoc]

/-- Zeros are shifted out without loss. -/
theorem shiftRight_exact (m k : Nat) :
    ExtendedMantissa.ofMantissaAndAccuracy (m * 2 ^ k) .exact >>> k = ⟨m, false, false⟩ := by
  change k.repeat ExtendedMantissa.shiftRightOne ⟨m * 2 ^ k, false, false⟩ = _
  induction k generalizing m with
  | zero => rw [pow_zero, mul_one]; rfl
  | succ k ih =>
    rw [Nat.repeat, pow_succ', ← mul_assoc, ih, ExtendedMantissa.shiftRightOne,
      Nat.mul_div_cancel m (by decide), Nat.mul_mod_left]
    rfl

theorem shiftToTargetExponent_exact {m : Nat} (hlog : m.log2 = 52) {e : Int} (he : -1074 ≤ e)
    (k : Nat) : shiftToTargetExponent .binary64 (m * 2 ^ k) (e - k) .exact =
      (⟨m, false, false⟩, e) := by
  have hpos : m ≠ 0 := by
    rintro rfl
    exact absurd hlog (by decide)
  have hshift :
      (max (((m * 2 ^ k).log2 : Int) + 1 + (e - k) - 53) (-1074) - (e - k)).toNat = k := by
    rw [log2_mul_two_pow hpos, hlog]
    omega
  simp only [shiftToTargetExponent, shiftToExponent, Format.targetExponent, totalExponent,
    minExponent_binary64, mantissaBits_binary64, hshift, shiftRight_exact]
  congr 1
  omega

/-- A number whose mantissa has 53 bits up to zeros at the end is rounded to itself. -/
theorem roundWithAccuracy_exact (s : Sign) {m : Nat} (hlog : m.log2 = 52) {e : Int}
    (he : -1074 ≤ e) (hpos : 0 < m) (k : Nat) :
    roundWithAccuracy .binary64 s (m * 2 ^ k) (e - k) .exact = .finite s m e hpos := by
  have hagain := shiftToTargetExponent_exact hlog he 0
  rw [pow_zero, mul_one, Nat.cast_zero, sub_zero] at hagain
  have hrounded : (ExtendedMantissa.mk m false false).roundedMantissa = m := rfl
  simp only [roundWithAccuracy, shiftToTargetExponent_exact hlog he k, hrounded, hagain]
  rw [dif_neg hpos.ne']

theorem unpackSign_packComponents (s : Sign) (e : BitVec 11) (m : BitVec 52) :
    Sign.ofBitVec (unpackSign (packComponents .binary64 s e m)) = s := by
  have hsign : unpackSign (packComponents .binary64 s e m) = s.toBitVec := by
    refine BitVec.eq_of_getLsbD_eq fun i hi => ?_
    obtain rfl : i = 0 := by omega
    simp only [unpackSign, packComponents, BitVec.extractLsb, BitVec.getLsbD_cast,
      BitVec.getLsbD_extractLsb', BitVec.getLsbD_append]
    rfl
  rw [hsign]
  cases s <;> rfl

/-- A leading bit that is left out when a number is packed is put back. -/
theorem unpack_packComponents (s : Sign) {exponent : BitVec 11} (mantissa : BitVec 52)
    (hzero : exponent ≠ 0#11) (hinfinite : exponent ≠ -1#11) :
    ∃ h, UnpackedFloat.unpack .binary64 (packComponents .binary64 s exponent mantissa) =
      .finite s (2 ^ 52 + mantissa.toNat) ((exponent.toNat : Int) - 1075) h := by
  have hmantissa : (1#1 ++ mantissa).toNat = 2 ^ 52 + mantissa.toNat := by
    rw [BitVec.toNat_append, ← Nat.shiftLeft_add_eq_or_of_lt mantissa.isLt]
    rfl
  refine ⟨by omega, ?_⟩
  simp only [UnpackedFloat.unpack, unpackExponent_packComponents, unpackMantissa_packComponents,
    unpackSign_packComponents]
  rw [if_neg hinfinite, if_neg hzero]
  congr 1

/-- Numbers with a mantissa of 53 bits are packed without loss. -/
theorem unpack_pack (s : Sign) {m : Nat} (hlog : m.log2 = 52) {e : Int} (hmin : -1074 ≤ e)
    (hmax : e ≤ 971) (hpos : 0 < m) :
    (Float.Model.pack (.finite s m e hpos)).unpack = .finite s m e hpos := by
  obtain ⟨hlow, hhigh⟩ := (Nat.log2_eq_iff hpos.ne').1 hlog
  have hfield : (BitVec.ofNat 11 (e + 1075).toNat).toNat = (e + 1075).toNat :=
    Nat.mod_eq_of_lt (by omega)
  have hpack : UnpackedFloat.pack .binary64 (.finite s m e hpos) =
      packComponents .binary64 s (BitVec.ofNat 11 (e + 1075).toNat) (BitVec.ofNat 52 m) := by
    have hbias : (e + Format.binary64.exponentBias + (52 : Nat)).toNat = (e + 1075).toNat := by
      rw [exponentBias_binary64]
      omega
    have hsmall : ¬2 ^ 11 ≤ (e + 1075).toNat + 1 := by omega
    have hnormal : m.log2 + 1 = Format.binary64.mantissaBits := by
      rw [hlog]
      rfl
    simp only [UnpackedFloat.pack, hbias]
    rw [if_neg hsmall, if_pos hnormal]
  have hzero : BitVec.ofNat 11 (e + 1075).toNat ≠ 0#11 := fun h => by
    have hnone : (e + 1075).toNat = 0 := hfield.symm.trans (congrArg BitVec.toNat h)
    omega
  have hinfinite : BitVec.ofNat 11 (e + 1075).toNat ≠ -1#11 := fun h => by
    have hall : (e + 1075).toNat = 2047 := hfield.symm.trans (congrArg BitVec.toNat h)
    omega
  have hmantissa : 2 ^ 52 + (BitVec.ofNat 52 m).toNat = m := by
    rw [BitVec.toNat_ofNat]
    omega
  have hexponent : ((BitVec.ofNat 11 (e + 1075).toNat).toNat : Int) - 1075 = e := by
    rw [hfield]
    omega
  obtain ⟨h, hunpack⟩ := unpack_packComponents s (BitVec.ofNat 52 m) hzero hinfinite
  change UnpackedFloat.unpack .binary64 (UnpackedFloat.pack .binary64 (.finite s m e hpos)) = _
  rw [hpack, hunpack]
  simp only [hmantissa, hexponent]

/-! ### Small integers -/

/-- The mantissa of an integer, which has 53 bits if the integer has no more. -/
def scaled (n : Nat) : Nat := n * 2 ^ (52 - n.log2)

section Scaled

variable {n : Nat} (hpos : 0 < n) (hn : n < 2 ^ 53)

include hpos

theorem scaled_pos : 0 < scaled n := Nat.mul_pos hpos (Nat.two_pow_pos _)

include hn

theorem log2_lt : n.log2 < 53 := (Nat.log2_lt hpos.ne').2 hn

theorem log2_scaled : (scaled n).log2 = 52 := by
  have hlog := log2_lt hpos hn
  rw [scaled, log2_mul_two_pow hpos.ne']
  omega

theorem normalize_natCast : UnpackedFloat.normalize .binary64 (n : Int) 0 .positive =
    .finite .positive (scaled n) (n.log2 - 52) (scaled_pos hpos) := by
  have hlog := log2_lt hpos hn
  have hgt : compare (n : Int) 0 = .gt := Int.compare_eq_gt.2 (Int.natCast_pos.2 hpos)
  have htarget : Format.binary64.targetExponent (totalExponent n 0) = (n.log2 : Int) - 52 := by
    rw [Format.targetExponent, totalExponent, minExponent_binary64, mantissaBits_binary64]
    omega
  have hshift : (0 - ((n.log2 : Int) - 52)).toNat = 52 - n.log2 := by omega
  have hexponent : 0 - (((52 - n.log2 : Nat) : Int)) = (n.log2 : Int) - 52 := by omega
  have hround := roundWithAccuracy_exact .positive (log2_scaled hpos hn)
    (by omega : -1074 ≤ (n.log2 : Int) - 52) (scaled_pos hpos) 0
  rw [pow_zero, mul_one, Nat.cast_zero, sub_zero] at hround
  simp only [UnpackedFloat.normalize, hgt, UnpackedFloat.round, Int.toNat_natCast, htarget,
    decreaseExponent, hshift, Nat.shiftLeft_eq, hexponent]
  exact hround

/-- The double nearest to a small integer, which is multiplied by one. -/
theorem unpack_ofNat : (Float.ofNat n).toModel.unpack =
    .finite .positive (scaled n) (n.log2 - 52) (scaled_pos hpos) := by
  have hlog := log2_lt hpos hn
  have hword : n.toUInt64.toNat = n := Nat.mod_eq_of_lt (by omega)
  have hunpack : (Float.Model.ofUInt64 n.toUInt64).unpack =
      .finite .positive (scaled n) (n.log2 - 52) (scaled_pos hpos) := by
    change (Float.Model.pack
      (UnpackedFloat.normalize .binary64 (n.toUInt64.toNat : Int) 0 .positive)).unpack = _
    rw [hword, normalize_natCast hpos hn]
    exact unpack_pack _ (log2_scaled hpos hn) (by omega) (by omega) _
  have hone : (Float.Model.ofBits 0x3FF0000000000000).unpack =
      .finite .positive (2 ^ 52) (-52) (by decide) := rfl
  have hround := roundWithAccuracy_exact .positive (log2_scaled hpos hn)
    (by omega : -1074 ≤ (n.log2 : Int) - 52) (scaled_pos hpos) 52
  change (Float.ofScientific n false 0).toModel.unpack = _
  rw [Float.ofScientific, dif_pos ⟨hn, by decide⟩]
  change (Float.Model.pack (UnpackedFloat.mul .binary64 (Float.Model.ofUInt64 n.toUInt64).unpack
    (Float.Model.ofBits 0x3FF0000000000000).unpack)).unpack = _
  rw [hunpack, hone]
  change (Float.Model.pack (roundWithAccuracy .binary64 .positive (scaled n * 2 ^ 52)
    ((n.log2 : Int) - 52 - (52 : Nat)) .exact)).unpack = _
  rw [hround]
  exact unpack_pack _ (log2_scaled hpos hn) (by omega) (by omega) _

end Scaled

/-- The double nearest to a small integer has its sign. -/
theorem exists_unpack_ofInt {i : Int} (hi : i ≠ 0) (hsmall : i.natAbs < 2 ^ 53) :
    ∃ s h, (Float.ofInt i).toModel.unpack =
      .finite s (scaled i.natAbs) (i.natAbs.log2 - 52) h ∧ (s == .negative) = decide (i < 0) := by
  cases i with
  | ofNat n =>
    exact ⟨.positive, _, unpack_ofNat (Int.natAbs_pos.2 hi) hsmall, rfl⟩
  | negSucc n =>
    refine ⟨.negative, scaled_pos n.succ_pos, ?_, (decide_eq_true (Int.negSucc_lt_zero n)).symm⟩
    have hlog : n.succ.log2 < 53 := log2_lt n.succ_pos hsmall
    change (Float.Model.pack (Float.ofNat n.succ).toModel.unpack.neg).unpack = _
    rw [unpack_ofNat n.succ_pos hsmall]
    exact unpack_pack _ (log2_scaled n.succ_pos hsmall) (by omega) (by omega) _

/-- **Small integers.** The double nearest to an integer of up to 53 bits is equal to it. -/
theorem fields_ofInt {i : Int} (hi : i ≠ 0) (hsmall : i.natAbs < 2 ^ 53) :
    isNegative (Float.ofInt i) = decide (i < 0) ∧ magnitude (Float.ofInt i) = i.natAbs ∧
      binaryExponent (Float.ofInt i) ≤ 0 := by
  have hlog := log2_lt (Int.natAbs_pos.2 hi) hsmall
  obtain ⟨s, h, hunpack, hsign⟩ := exists_unpack_ofInt hi hsmall
  obtain ⟨hnegative, hmantissa, hexponent⟩ := fields_of_unpack hunpack
  refine ⟨hnegative.trans hsign, ?_, by omega⟩
  have hscale : (2 : Rat) ^ ((i.natAbs.log2 : Int) - 52) = (2 ^ (52 - i.natAbs.log2))⁻¹ := by
    rw [← zpow_natCast, ← zpow_neg]
    congr 1
    omega
  rw [magnitude, hmantissa, hexponent, hscale, scaled, Nat.cast_mul, Nat.cast_pow, Nat.cast_ofNat]
  exact mul_inv_cancel_right₀ (by positivity) _

end FederatedQuery.Double
