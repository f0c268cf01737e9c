import Mathlib
import FederatedQuery.Json.Basic

/-!
# Finite doubles

The double nearest to an integer of 64 bits is finite. A double is made by rounding a mantissa and
an exponent; no step of this moves the exponent up by more than a few times the number of bits of
the mantissa, and the greatest exponent of a double is far above that.

Doubles that are numbers, the infinities among them, are ordered by a key: by sign, and then by
exponent and mantissa.

## Main definitions

* `Double.IsBelow`: finite numbers whose exponent is bounded.
* `Double.keyOf`, `Double.key`: the key.

## Main results

* `Double.isFinite_ofInt`: the double nearest to an exact integer is finite.
* `Double.lt_iff_key`: doubles that are numbers are compared by their keys.
* `Double.not_lt`: two doubles that are numbers have a place to each other.
-/

namespace FederatedQuery.Double

open Float.Model Float.Model.UnpackedFloat

/-! ### The format -/

theorem minExponent_binary64 : Format.binary64.minExponent = -1074 := by decide

theorem mantissaBits_binary64 : (Format.binary64.mantissaBits : Int) = 53 := by decide

theorem exponentBias_binary64 : (Format.binary64.exponentBias : Int) = 1023 := by decide

/-! ### Bounds of exponents -/

/-- A finite number with a mantissa of at most `bits` bits and an exponent of at most `top`. -/
inductive IsBelow (bits : Nat) (top : Int) : UnpackedFloat → Prop
  | zero (s : Sign) : IsBelow bits top (.zero s)
  | finite (s : Sign) {m : Nat} {e : Int} (hpos : 0 < m) (hm : m < 2 ^ bits) (he : e ≤ top) :
    IsBelow bits top (.finite s m e hpos)

namespace IsBelow

variable {bits : Nat} {top : Int} {u : UnpackedFloat}

theorem isFinite (h : IsBelow bits top u) : u.isFinite = true := by
  cases h <;> rfl

theorem mono {top' : Int} (h : IsBelow bits top u) (hle : top ≤ top') : IsBelow bits top' u := by
  cases h with
  | zero s => exact .zero s
  | finite s hpos hm he => exact .finite s hpos hm (Int.le_trans he hle)

theorem neg (h : IsBelow bits top u) : IsBelow bits top u.neg := by
  cases h with
  | zero s => exact .zero (-s)
  | finite s hpos hm he => exact .finite (-s) hpos hm he

end IsBelow

/-- A shift to the target exponent does not lower the exponent. -/
theorem shiftToTargetExponent_snd (m : Nat) (e : Int) (a : Accuracy) :
    (shiftToTargetExponent .binary64 m e a).2 = max e (max (m.log2 + 1 + e - 53) (-1074)) := by
  simp only [shiftToTargetExponent, shiftToExponent, Format.targetExponent, totalExponent,
    minExponent_binary64, mantissaBits_binary64]
  omega

theorem mantissa_shiftRight_le (m : ExtendedMantissa) (n : Nat) :
    (m >>> n).mantissa ≤ m.mantissa := by
  change (n.repeat ExtendedMantissa.shiftRightOne m).mantissa ≤ m.mantissa
  induction n with
  | zero => exact Nat.le_refl _
  | succ n ih => exact Nat.le_trans (Nat.div_le_self _ 2) ih

/-- A shift to the target exponent does not raise the mantissa. -/
theorem shiftToTargetExponent_fst_le (m : Nat) (e : Int) (a : Accuracy) :
    (shiftToTargetExponent .binary64 m e a).1.mantissa ≤ m := by
  have hm : (ExtendedMantissa.ofMantissaAndAccuracy m a).mantissa = m := by
    rcases a with _ | (_ | _ | _) <;> rfl
  exact Nat.le_trans (mantissa_shiftRight_le _ _) (Nat.le_of_eq hm)

theorem roundedMantissa_le (m : ExtendedMantissa) : m.roundedMantissa ≤ m.mantissa + 1 := by
  rw [ExtendedMantissa.roundedMantissa]
  rcases m.accuracy with _ | (_ | _ | _) <;> simp only [Accuracy.roundToNearestEven] <;> omega

theorem log2_lt_of_lt {m bits : Nat} (h : m < 2 ^ bits) (hbits : 0 < bits) : m.log2 < bits := by
  by_cases hm : m = 0
  · rwa [hm, Nat.log2_zero]
  · exact (Nat.log2_lt hm).2 h

theorem isBelow_roundWithAccuracy (s : Sign) {m bits : Nat} (hm : m < 2 ^ bits)
    (hbits : 0 < bits) {e top : Int} (he : e ≤ top) (hmin : -1074 ≤ top) (a : Accuracy) :
    IsBelow (bits + 1) (top + 2 * bits) (roundWithAccuracy .binary64 s m e a) := by
  simp only [roundWithAccuracy]
  have hle := roundedMantissa_le (shiftToTargetExponent .binary64 m e a).1
  have hshift := shiftToTargetExponent_fst_le m e a
  split
  · exact .zero s
  · generalize (shiftToTargetExponent .binary64 m e a).1.roundedMantissa = rounded at *
    have hrounded : rounded < 2 ^ (bits + 1) := by
      rw [Nat.pow_succ]
      omega
    refine .finite s _ (Nat.lt_of_le_of_lt (shiftToTargetExponent_fst_le _ _ _) hrounded) ?_
    have hlog := log2_lt_of_lt hm hbits
    have hlogRounded := log2_lt_of_lt hrounded (Nat.succ_pos bits)
    rw [shiftToTargetExponent_snd, shiftToTargetExponent_snd]
    omega

theorem isBelow_round (s : Sign) {m bits : Nat} (hm : m < 2 ^ bits) (hbits : 53 ≤ bits) :
    IsBelow (bits + 1) (2 * bits) (UnpackedFloat.round .binary64 s m 0) := by
  simp only [UnpackedFloat.round, decreaseExponent, Format.targetExponent, totalExponent,
    minExponent_binary64, mantissaBits_binary64]
  generalize hk : (0 - max ((m.log2 : Int) + 1 + 0 - 53) (-1074)).toNat = k
  have hshift : m <<< k < 2 ^ bits := by
    by_cases hzero : k = 0
    · rwa [hzero, Nat.shiftLeft_zero]
    · rw [Nat.shiftLeft_eq]
      calc m * 2 ^ k < 2 ^ (m.log2 + 1) * 2 ^ k :=
            Nat.mul_lt_mul_of_pos_right Nat.lt_log2_self (Nat.two_pow_pos k)
        _ = 2 ^ (m.log2 + 1 + k) := (Nat.pow_add 2 _ _).symm
        _ ≤ 2 ^ bits := Nat.pow_le_pow_right (by decide) (by omega)
  have hexponent : (0 : Int) - k ≤ 0 := by omega
  have h := isBelow_roundWithAccuracy s hshift (by omega) hexponent (by decide) .exact
  rwa [Int.zero_add] at h

theorem isBelow_normalize {n : Int} (h : n.natAbs < 2 ^ 65) :
    IsBelow 66 130 (normalize .binary64 n 0 .positive) := by
  rw [UnpackedFloat.normalize]
  split
  · exact isBelow_round .negative (by omega) (by decide)
  · exact .zero _
  · exact isBelow_round .positive (by omega) (by decide)

theorem isBelow_mul {u v : UnpackedFloat} {bits bits' : Nat} {top top' : Int}
    (hu : IsBelow bits top u) (hv : IsBelow bits' top' v) (hbits : 0 < bits)
    (hmin : -1074 ≤ top + top') :
    IsBelow (bits + bits' + 1) (top + top' + 2 * (bits + bits' : Nat))
      (UnpackedFloat.mul .binary64 u v) := by
  cases hu with
  | zero s => cases hv <;> exact .zero _
  | finite s hpos hm he =>
    cases hv with
    | zero s' => exact .zero _
    | finite s' hpos' hm' he' =>
      refine isBelow_roundWithAccuracy _ ?_ (by omega) (Int.add_le_add he he') hmin .exact
      rw [Nat.pow_add]
      exact Nat.mul_lt_mul'' hm hm'

/-! ### Bits -/

theorem isBelow_unpack_packComponents (s : Sign) {exponent : BitVec 11} (mantissa : BitVec 52)
    {top : Int} (hfinite : exponent ≠ -1#11) (htop : (exponent.toNat : Int) - 1075 ≤ top)
    (hmin : -1074 ≤ top) :
    IsBelow 53 top
      (UnpackedFloat.unpack .binary64 (packComponents .binary64 s exponent mantissa)) := by
  simp only [UnpackedFloat.unpack, unpackExponent_packComponents, unpackMantissa_packComponents,
    exponentBias_binary64]
  rw [if_neg hfinite]
  split
  · rename_i hzero
    split
    · exact .zero _
    · refine .finite _ _ (Nat.lt_of_lt_of_le mantissa.isLt (by decide)) ?_
      rw [hzero]
      simpa using hmin
  · refine .finite _ _ (BitVec.isLt _) ?_
    simpa using htop

/-- Numbers up to the greatest exponent stay finite when they are packed. -/
theorem isBelow_unpack_pack {u : UnpackedFloat} {bits : Nat} {top : Int}
    (h : IsBelow bits top u) (hmin : -1074 ≤ top) (hmax : top ≤ 971) :
    IsBelow 53 top (Float.Model.pack u).unpack := by
  cases h with
  | zero s => cases s <;> exact .zero _
  | @finite s m e hpos hm he =>
    change IsBelow 53 top (UnpackedFloat.unpack .binary64 (UnpackedFloat.pack .binary64 _))
    simp only [UnpackedFloat.pack, exponentBias_binary64]
    split
    · omega
    have hfits : (e + 1023 + 52).toNat < 2047 := by omega
    split
    · refine isBelow_unpack_packComponents s _ ?_ ?_ hmin
      · intro heq
        have hall : (e + 1023 + 52).toNat % 2048 = 2047 := congrArg BitVec.toNat heq
        omega
      · simp only [BitVec.toNat_ofNat]
        omega
    · exact isBelow_unpack_packComponents s _ (by decide) (by simpa using (by omega)) hmin

/-! ### Integers -/

/-- A natural number times the power of ten that is one. -/
theorem ofScientific_zero {n : Nat} (hpos : 0 < n) :
    ∃ h, UnpackedFloat.ofScientific .binary64 n 0 =
      UnpackedFloat.mul .binary64 (.finite .positive (n <<< 53) (-53) h)
        (.finite .positive 1 0 Nat.one_pos) := by
  have h : 0 < n <<< 53 := by
    rw [Nat.shiftLeft_eq]
    exact Nat.mul_pos hpos (Nat.two_pow_pos 53)
  have hbig : ¬ (0 : Int) > 2 ^ Format.binary64.exponentBits := by decide
  have hsmall : ¬ (0 : Int) < -(2 ^ Format.binary64.exponentBits + (n.log2 : Int)) := by
    have hpow : (0 : Int) ≤ 2 ^ Format.binary64.exponentBits := by decide
    omega
  refine ⟨h, ?_⟩
  rw [UnpackedFloat.ofScientific, dif_neg (Nat.ne_of_gt hpos), if_neg hbig, if_neg hsmall,
    if_pos (Int.le_refl 0)]
  rfl

theorem isBelow_ofNat {n : Nat} (h : n < 2 ^ 65) :
    IsBelow 53 971 (Float.ofNat n).toModel.unpack := by
  change IsBelow 53 971 (Float.ofScientific n false 0).toModel.unpack
  rw [Float.ofScientific]
  split
  · have hlt : (n.toUInt64.toNat : Int).natAbs < 2 ^ 65 := by
      have hword := n.toUInt64.toNat_lt
      omega
    have hn : IsBelow 53 130 (Float.Model.ofUInt64 n.toUInt64).unpack :=
      isBelow_unpack_pack (isBelow_normalize hlt) (by decide) (by decide)
    have hone : IsBelow 53 0 (Float.Model.ofBits 0x3FF0000000000000).unpack := by
      have hunpack : (Float.Model.ofBits 0x3FF0000000000000).unpack =
          .finite .positive (2 ^ 52) (-52) (by decide) := rfl
      rw [hunpack]
      exact .finite _ _ (by decide) (by decide)
    have hmul := isBelow_mul hn hone (by decide) (by decide)
    exact (isBelow_unpack_pack hmul (by decide) (by decide)).mono (by decide)
  · rename_i hlarge
    obtain ⟨hpos, hscientific⟩ := ofScientific_zero (n := n) (by omega)
    have hu : IsBelow 118 0 (.finite .positive (n <<< 53) (-53) hpos) := by
      refine .finite _ _ ?_ (by decide)
      rw [Nat.shiftLeft_eq]
      omega
    have hone : IsBelow 1 0 (.finite .positive 1 0 Nat.one_pos) :=
      .finite _ _ (by decide) (by decide)
    have hmul := isBelow_mul hu hone (by decide) (by decide)
    rw [← hscientific] at hmul
    exact (isBelow_unpack_pack hmul (by decide) (by decide)).mono (by decide)

/-- **Integers.** The double nearest to an integer of 64 bits is finite. -/
theorem isFinite_ofInt {n : Int} (h : Json.isExact n = true) : (Float.ofInt n).isFinite = true := by
  simp only [Json.isExact, Bool.and_eq_true, decide_eq_true_eq, Word.half, Word.count] at h
  cases n with
  | ofNat n =>
    have hlt : n < 2 ^ 65 := by
      have hcount := h.2
      simp only [Int.ofNat_eq_natCast] at hcount
      omega
    exact (isBelow_ofNat hlt).isFinite
  | negSucc n =>
    have hlt : n + 1 < 2 ^ 65 := by
      have hhalf := h.1
      rw [Int.negSucc_eq] at hhalf
      omega
    exact (isBelow_unpack_pack (isBelow_ofNat hlt).neg (by decide) (by decide)).isFinite

/-! ### The order of doubles -/

/-- The sign of a number, doubled for the infinities, and then its exponent and its mantissa, so
that greater keys are those of greater numbers. -/
def keyOf : UnpackedFloat → List Int
  | .infinity .negative => [-2, 0, 0]
  | .infinity .positive => [2, 0, 0]
  | .finite .negative m e _ => [-1, -e, -m]
  | .finite .positive m e _ => [1, e, m]
  | _ => [0, 0, 0]

/-- The key of a double. -/
def key (x : Float) : List Int := keyOf x.toModel.unpack

theorem compare_triple (a b c a' b' c' : Int) :
    compare [a, b, c] [a', b', c'] = (compare a a').then ((compare b b').then (compare c c')) := by
  rw [List.compare_eq_compareLex, List.compareLex_cons_cons, List.compareLex_cons_cons,
    List.compareLex_cons_cons, List.compareLex_nil_nil, Ordering.then_eq]

theorem compare_natCast (m n : Nat) : compare (m : Int) (n : Int) = compare m n := by
  rcases Nat.lt_trichotomy m n with h | rfl | h
  · rw [Nat.compare_eq_lt.2 h, Int.compare_eq_lt.2 (Int.ofNat_lt.2 h)]
  · rw [Nat.compare_eq_eq.2 rfl, Int.compare_eq_eq.2 rfl]
  · rw [Nat.compare_eq_gt.2 h, Int.compare_eq_gt.2 (Int.ofNat_lt.2 h)]

theorem compare_neg (a b : Int) : compare (-a) (-b) = (compare a b).swap := by
  rcases Int.lt_trichotomy a b with h | rfl | h
  · rw [Int.compare_eq_lt.2 h, Int.compare_eq_gt.2 (Int.neg_lt_neg h)]
    rfl
  · rw [Int.compare_eq_eq.2 rfl, Int.compare_eq_eq.2 rfl]
    rfl
  · rw [Int.compare_eq_gt.2 h, Int.compare_eq_lt.2 (Int.neg_lt_neg h)]
    rfl

/-- Numbers are compared by their keys. -/
theorem compare_eq {u v : UnpackedFloat} (hu : u.isNaN = false) (hv : v.isNaN = false) :
    u.compare v = some (compare (keyOf u) (keyOf v)) := by
  cases u with
  | notANumber => cases hu
  | infinity s =>
    cases v with
    | notANumber => cases hv
    | zero s' => cases s <;> rfl
    | infinity s' | finite s' => cases s <;> cases s' <;> rfl
  | zero s =>
    cases v with
    | notANumber => cases hv
    | zero s' => rfl
    | infinity s' | finite s' => cases s' <;> rfl
  | finite s m e hpos =>
    cases v with
    | notANumber => cases hv
    | zero s' => cases s <;> rfl
    | infinity s' => cases s <;> cases s' <;> rfl
    | finite s' m' e' hpos' =>
      -- the key of a negative number has its exponent and mantissa with the other sign
      cases s <;> cases s' <;>
        simp only [UnpackedFloat.compare, keyOf, compare_triple, compare_natCast, compare_neg,
          Ordering.swap_then] <;> rfl

/-- The comparison in the other direction. -/
theorem compare_swap (u v : UnpackedFloat) : v.compare u = (u.compare v).map Ordering.swap := by
  have hnumbers (hu : u.isNaN = false) (hv : v.isNaN = false) :
      v.compare u = (u.compare v).map Ordering.swap := by
    rw [compare_eq hu hv, compare_eq hv hu, Option.map_some, ← Std.OrientedCmp.eq_swap]
  cases u with
  | notANumber => cases v <;> rfl
  | infinity | zero | finite =>
    cases v with
    | notANumber => rfl
    | infinity | zero | finite => exact hnumbers rfl rfl

theorem isNaN_eq_false {x : Float} (h : x.isFinite = true) : x.isNaN = false := by
  change x.toModel.unpack.isFinite = true at h
  change x.toModel.unpack.isNaN = false
  cases hu : x.toModel.unpack with
  | notANumber =>
    rw [hu] at h
    exact nomatch h
  | _ => rfl

theorem lt_iff_compare {x y : Float} :
    x < y ↔ x.toModel.unpack.compare y.toModel.unpack = some .lt := by
  change decide (x.toModel.unpack.lt y.toModel.unpack = true) = true ↔ _
  rw [decide_eq_true_iff, UnpackedFloat.lt, beq_iff_eq]

theorem beq_iff_compare {x y : Float} :
    (x == y) = true ↔ x.toModel.unpack.compare y.toModel.unpack = some .eq := by
  change x.toModel.unpack.beq y.toModel.unpack = true ↔ _
  rw [UnpackedFloat.beq, beq_iff_eq]

/-- **The order of doubles** that are numbers. -/
theorem lt_iff_key {x y : Float} (hx : x.isNaN = false) (hy : y.isNaN = false) :
    x < y ↔ compare (key x) (key y) = .lt := by
  have hcompare : x.toModel.unpack.compare y.toModel.unpack = some (compare (key x) (key y)) :=
    compare_eq hx hy
  rw [lt_iff_compare, hcompare, Option.some.injEq]

/-- Doubles that are numbers are equal, as zeros of either sign are, if and only if their keys
are. -/
theorem beq_iff_key {x y : Float} (hx : x.isNaN = false) (hy : y.isNaN = false) :
    (x == y) = true ↔ compare (key x) (key y) = .eq := by
  have hcompare : x.toModel.unpack.compare y.toModel.unpack = some (compare (key x) (key y)) :=
    compare_eq hx hy
  rw [beq_iff_compare, hcompare, Option.some.injEq]

theorem lt_asymm {x y : Float} (h : x < y) : ¬y < x := by
  rw [lt_iff_compare] at h ⊢
  rw [compare_swap, h]
  nofun

/-- No double is less than itself, whether it is finite or not. -/
theorem lt_irrefl (x : Float) : ¬x < x := fun h => lt_asymm h h

/-- Of two doubles that are numbers, one is not less than the other if and only if the other one is
at most the first. -/
theorem not_lt {x y : Float} (hx : x.isNaN = false) (hy : y.isNaN = false) : ¬x < y ↔ y ≤ x := by
  have hcompare : x.toModel.unpack.compare y.toModel.unpack ≠ none := by
    rw [compare_eq hx hy]
    exact Option.some_ne_none _
  change _ ↔ decide (y.toModel.unpack.le x.toModel.unpack = true) = true
  rw [lt_iff_compare, decide_eq_true_iff, UnpackedFloat.le, compare_swap x.toModel.unpack]
  cases h : x.toModel.unpack.compare y.toModel.unpack with
  | none => exact absurd h hcompare
  | some o => cases o <;> decide

end FederatedQuery.Double
