import FederatedQuery.Decimal.Reader
import FederatedQuery.Proofs.Shortest

/-!
# Doubles read back

The plain text of a finite double is read as this double. The text gives a decimal of the interval
around the double, and of each number of this interval the double is the nearest one: its mantissa
is the number counted in units of the gap between the doubles of its size and rounded, a tie going
to the even mantissa. Only below a power of two the units are half as large. There the count is
rounded to one more than a mantissa holds, which is the form of the power of two.

## Main definitions

* `Decimal.readPlain?`: the double that a plain text gives.

## Main results

* `Decimal.nearest?_of_holds`: the nearest double of the numbers that round to a double.
* `Decimal.readPlain?_write`: the plain text of a finite double is read as this double.
-/

namespace FederatedQuery.Decimal

open Double

/-! ### Rounded counts -/

/-- The nearest whole number, and of two equally near ones the even one. -/
theorem roundDiv_eq {n d q : Nat} (hd : 0 < d) (hlow : 2 * (q * d) ≤ 2 * n + d)
    (hhigh : 2 * n ≤ 2 * (q * d) + d)
    (heven : q % 2 = 0 ∨ 2 * (q * d) < 2 * n + d ∧ 2 * n < 2 * (q * d) + d) :
    roundDiv n d = q := by
  have hn := Nat.div_add_mod' n d
  have hr := Nat.mod_lt n hd
  have hcases : q < n / d ∧ q * d + d ≤ n / d * d ∨ q = n / d ∨
      q = n / d + 1 ∧ q * d = n / d * d + d ∨ n / d + 2 ≤ q ∧ n / d * d + 2 * d ≤ q * d := by
    rcases lt_or_ge q (n / d) with h | h
    · exact .inl ⟨h, (Nat.succ_mul q d).symm.trans_le (Nat.mul_le_mul_right d h)⟩
    rcases lt_or_ge q (n / d + 2) with h' | h'
    · obtain rfl | rfl : q = n / d ∨ q = n / d + 1 := by omega
      · exact .inr (.inl rfl)
      · exact .inr (.inr (.inl ⟨rfl, Nat.succ_mul _ d⟩))
    · exact .inr (.inr (.inr ⟨h', (Nat.add_mul _ 2 d).symm.trans_le (Nat.mul_le_mul_right d h')⟩))
  simp only [roundDiv]
  rcases hcases with ⟨h, hmul⟩ | rfl | ⟨h, hmul⟩ | ⟨h, hmul⟩
  · omega
  · split_ifs <;> omega
  · split_ifs <;> omega
  · omega

theorem log_eq {r : Rat} (hr : 0 < r) {k : Int} (hlow : (2 : Rat) ^ k ≤ r)
    (hhigh : r < (2 : Rat) ^ (k + 1)) : Int.log 2 r = k := by
  have hle := (Int.zpow_le_iff_le_log (b := 2) (by decide) hr).1 (by exact_mod_cast hlow)
  have hlt := (Int.lt_zpow_iff_log_lt (b := 2) (by decide) hr).1 (by exact_mod_cast hhigh)
  omega

/-- A whole number lies between two powers of two. -/
theorem pow_log2_le {n : Nat} (hn : 0 < n) :
    (2 : Rat) ^ (n.log2 : Int) ≤ n ∧ (n : Rat) < 2 ^ ((n.log2 : Int) + 1) := by
  constructor
  · rw [zpow_natCast]
    exact_mod_cast Nat.log2_self_le hn.ne'
  · exact_mod_cast Nat.lt_log2_self (n := n)

/-- A fraction is compared with a power of two by shifting one of its parts. -/
theorem shiftLeft_le_shiftLeft_iff {n d : Nat} (hd : 0 < d) (a b : Nat) :
    d <<< (a - b) ≤ n <<< (b - a) ↔ (2 : Rat) ^ ((a : Int) - b) ≤ n / d := by
  have hd' : (0 : Rat) < d := by exact_mod_cast hd
  rw [le_div_iff₀ hd', Nat.shiftLeft_eq, Nat.shiftLeft_eq]
  rcases le_total b a with h | h
  · obtain ⟨k, rfl⟩ := Nat.exists_eq_add_of_le h
    rw [Nat.add_sub_cancel_left, Nat.sub_eq_zero_of_le h, Nat.cast_add, add_sub_cancel_left,
      zpow_natCast, pow_zero, mul_one, mul_comm d]
    exact_mod_cast Iff.rfl
  · obtain ⟨k, rfl⟩ := Nat.exists_eq_add_of_le h
    rw [Nat.add_sub_cancel_left, Nat.sub_eq_zero_of_le h, Nat.cast_add, sub_add_cancel_left,
      zpow_neg, zpow_natCast, pow_zero, mul_one, inv_mul_le_iff₀ (by positivity), mul_comm n]
    exact_mod_cast Iff.rfl

theorem binaryLog_eq {n d : Nat} (hn : 0 < n) (hd : 0 < d) :
    binaryLog n d = Int.log 2 ((n : Rat) / d) := by
  have hn' : (0 : Rat) < n := by exact_mod_cast hn
  have hd' : (0 : Rat) < d := by exact_mod_cast hd
  obtain ⟨hnlow, hnhigh⟩ := pow_log2_le hn
  obtain ⟨hdlow, hdhigh⟩ := pow_log2_le hd
  have hlow : (2 : Rat) ^ ((n.log2 : Int) - d.log2 - 1) ≤ n / d := by
    rw [le_div_iff₀ hd']
    calc (2 : Rat) ^ ((n.log2 : Int) - d.log2 - 1) * d
        ≤ 2 ^ ((n.log2 : Int) - d.log2 - 1) * 2 ^ ((d.log2 : Int) + 1) := by gcongr
      _ = 2 ^ (n.log2 : Int) := by
        rw [← zpow_add₀ (by norm_num)]
        congr 1
        ring
      _ ≤ n := hnlow
  have hhigh : (n / d : Rat) < 2 ^ ((n.log2 : Int) - d.log2 + 1) := by
    rw [div_lt_iff₀ hd']
    calc (n : Rat) < 2 ^ ((n.log2 : Int) + 1) := hnhigh
      _ = 2 ^ ((n.log2 : Int) - d.log2 + 1) * 2 ^ (d.log2 : Int) := by
        rw [← zpow_add₀ (by norm_num)]
        congr 1
        ring
      _ ≤ 2 ^ ((n.log2 : Int) - d.log2 + 1) * d := by gcongr
  unfold binaryLog
  split
  · next h => exact (log_eq (by positivity) ((shiftLeft_le_shiftLeft_iff hd _ _).1 h) hhigh).symm
  · next h =>
    rw [shiftLeft_le_shiftLeft_iff hd, not_le] at h
    exact (log_eq (by positivity) hlow (by rwa [sub_add_cancel])).symm

/-- A fraction is counted in units of `2^e`. -/
theorem exists_unitsOf (e : Int) (n : Nat) {d : Nat} (hd : 0 < d) : ∃ n' d' : Nat, 0 < d' ∧
    unitsOf e n d = roundDiv n' d' ∧ (n / d : Rat) = n' / d' * 2 ^ e := by
  unfold unitsOf
  split
  · next hneg =>
    refine ⟨n <<< e.natAbs, d, hd, rfl, ?_⟩
    obtain ⟨k, rfl⟩ : ∃ k : Nat, e = -(k : Int) := ⟨e.natAbs, by omega⟩
    rw [Int.natAbs_neg, Int.natAbs_natCast] at *
    rw [Nat.shiftLeft_eq, zpow_neg, zpow_natCast]
    push_cast
    field_simp
  · next hpos =>
    refine ⟨n, d <<< e.natAbs, ?_, rfl, ?_⟩
    · rw [Nat.shiftLeft_eq]
      positivity
    obtain ⟨k, rfl⟩ : ∃ k : Nat, e = (k : Int) := ⟨e.natAbs, by omega⟩
    rw [Int.natAbs_natCast] at *
    rw [Nat.shiftLeft_eq, zpow_natCast]
    push_cast
    field_simp

/-- A fraction close to a number of units is rounded to this number. -/
theorem unitsOf_eq {e : Int} {n d q : Nat} (hd : 0 < d)
    (hlow : (q - 1 / 2 : Rat) * 2 ^ e ≤ n / d) (hhigh : (n / d : Rat) ≤ (q + 1 / 2) * 2 ^ e)
    (heven : q % 2 = 0 ∨
      (q - 1 / 2 : Rat) * 2 ^ e < n / d ∧ (n / d : Rat) < (q + 1 / 2) * 2 ^ e) :
    unitsOf e n d = q := by
  obtain ⟨n', d', hd', hunits, hvalue⟩ := exists_unitsOf e n hd
  have hpower : (0 : Rat) < 2 ^ e := by positivity
  have hd'' : (0 : Rat) < d' := by exact_mod_cast hd'
  rw [hvalue, mul_le_mul_iff_left₀ hpower] at hlow hhigh
  rw [hvalue, mul_lt_mul_iff_left₀ hpower, mul_lt_mul_iff_left₀ hpower] at heven
  rw [le_div_iff₀ hd''] at hlow
  rw [div_le_iff₀ hd''] at hhigh
  rw [lt_div_iff₀ hd'', div_lt_iff₀ hd''] at heven
  rw [hunits]
  refine roundDiv_eq hd' ?_ ?_ (heven.imp id fun h => ⟨?_, ?_⟩)
  · have hlow : (2 * (q * d') : Rat) ≤ 2 * n' + d' := by linarith
    exact_mod_cast hlow
  · have hhigh : (2 * n' : Rat) ≤ 2 * (q * d') + d' := by linarith
    exact_mod_cast hhigh
  · have hlow : (2 * (q * d') : Rat) < 2 * n' + d' := by linarith [h.1]
    exact_mod_cast hlow
  · have hhigh : (2 * n' : Rat) < 2 * (q * d') + d' := by linarith [h.2]
    exact_mod_cast hhigh

/-! ### The nearest double -/

section Nearest

variable {x : Float} {n d : Nat}

/-- The mantissa of a number above the least exponent has its leading bit. -/
theorem le_mantissa (h : -1074 < binaryExponent x) : 2 ^ 52 ≤ mantissa x := by
  unfold binaryExponent at h
  unfold mantissa fractionCount
  split at h <;> split <;> omega

/-- The binary form of a positive double, from its mantissa and its exponent. -/
theorem toNat_toBits_of_positive (h : isNegative x = false) :
    x.toBits.toNat = (binaryExponent x + 1074).toNat * fractionCount + mantissa x := by
  rw [toNat_toBits, h, if_neg Bool.false_ne_true, Nat.zero_add]
  by_cases hzero : exponentBits x = 0
  · rw [binaryExponent, mantissa, if_pos hzero, if_pos hzero, hzero]
    rfl
  · obtain ⟨k, hk⟩ := Nat.exists_eq_succ_of_ne_zero hzero
    have hplaces : ((exponentBits x : Int) - 1075 + 1074).toNat = k := by omega
    rw [binaryExponent, mantissa, if_neg hzero, if_neg hzero, hplaces, hk, Nat.succ_mul,
      Nat.add_assoc]

open Float.Model Float.Model.UnpackedFloat in
/-- The greatest exponent is left to what is not finite. -/
theorem isFinite_iff : x.isFinite = true ↔ exponentBits x < 2047 := by
  have hexponent : (@unpackExponent .binary64 x.toBits.toBitVec).toNat = exponentBits x :=
    toNat_unpackExponent x.toBits.toBitVec
  have hle : exponentBits x < 2048 := Nat.mod_lt _ (by decide)
  have hall : @unpackExponent .binary64 x.toBits.toBitVec = -1#_ ↔ exponentBits x = 2047 :=
    ⟨fun h => hexponent.symm.trans (congrArg BitVec.toNat h),
      fun h => BitVec.eq_of_toNat_eq (hexponent.trans h)⟩
  change (UnpackedFloat.unpack .binary64 x.toBits.toBitVec).isFinite = true ↔ _
  rw [UnpackedFloat.unpack]
  by_cases htop : exponentBits x = 2047
  · rw [if_pos (hall.2 htop)]
    refine iff_of_false ?_ (by omega)
    split <;> exact Bool.false_ne_true
  · rw [if_neg (mt hall.1 htop)]
    refine iff_of_true ?_ (by omega)
    split
    · split <;> rfl
    · rfl
theorem toNat_toBits_lt (hexponent : exponentBits x < 2047) (h : isNegative x = false) :
    x.toBits.toNat < 2047 * fractionCount := by
  have hfraction := fractionBits_lt x
  rw [toNat_toBits, h, if_neg Bool.false_ne_true]
  unfold fractionCount at *
  omega

theorem pow_binaryExponent_add (x : Float) (k : Nat) :
    (2 : Rat) ^ (binaryExponent x + k) = 2 ^ k * gap x := by
  rw [zpow_add₀ (by norm_num), zpow_natCast, mul_comm, gap]

/-- A number of the interval, counted in units of the gap. -/
theorem unitsOf_binaryExponent (hd : 0 < d)
    (hholds : (Interval.ofDouble x).holds (n / d) = true) :
    unitsOf (binaryExponent x) n d = mantissa x := by
  obtain ⟨hlow, hhigh⟩ := Interval.le_of_holds hholds
  have hbelow := Interval.le_low_ofDouble x
  have heven := Interval.even_or_lt_of_holds hholds
  rw [Interval.high_ofDouble] at hhigh heven
  exact unitsOf_eq hd (hbelow.trans hlow) hhigh (heven.imp id (And.imp_left hbelow.trans_lt))

/-- Below a power of two the units are half as large as the gap above it, and the numbers of the
interval are rounded up to the power. -/
theorem unitsOf_below_power (hn : 0 < n) (hd : 0 < d)
    (hholds : (Interval.ofDouble x).holds (n / d) = true) (hleast : -1074 < binaryExponent x)
    (hlt : (n / d : Rat) < 2 ^ (binaryExponent x + 52)) :
    mantissa x = 2 ^ 52 ∧ Int.log 2 (n / d : Rat) = binaryExponent x + 51 ∧
      unitsOf (binaryExponent x - 1) n d = 2 ^ 53 := by
  have hn' : (0 : Rat) < n := by exact_mod_cast hn
  have hd' : (0 : Rat) < d := by exact_mod_cast hd
  have hgap := gap_pos x
  have hhalf : (2 : Rat) ^ (binaryExponent x - 1) = gap x / 2 := by
    rw [zpow_sub_one₀ (by norm_num), gap, div_eq_mul_inv]
  have hlow : (2 ^ 52 - 1 / 4) * gap x ≤ n / d :=
    (Interval.power_le_low_ofDouble hleast).trans (Interval.le_of_holds hholds).1
  have hbelow : (mantissa x - 1 / 2) * gap x ≤ n / d :=
    (Interval.le_low_ofDouble x).trans (Interval.le_of_holds hholds).1
  have hhigh : (n / d : Rat) < 2 ^ 52 * gap x := by
    rwa [← pow_binaryExponent_add x 52]
  refine ⟨le_antisymm ?_ (le_mantissa hleast), log_eq (div_pos hn' hd') ?_ ?_, ?_⟩
  · have hle : (mantissa x - 1 / 2 : Rat) < 2 ^ 52 :=
      lt_of_mul_lt_mul_right (hbelow.trans_lt hhigh) hgap.le
    have hlt : (mantissa x : Rat) < 2 ^ 52 + 1 := by linarith
    exact Nat.lt_succ_iff.1 (by exact_mod_cast hlt)
  · rw [show binaryExponent x + 51 = binaryExponent x + (51 : Nat) by rfl, pow_binaryExponent_add]
    linarith
  · rwa [add_assoc]
  · refine unitsOf_eq hd ?_ ?_ (.inl rfl)
    · rw [hhalf]
      push_cast
      linarith
    · rw [hhalf]
      push_cast
      linarith

/-- The gap of the numbers of an interval and their count in units of it: those of the double, but
below a power of two the units are half as large. -/
theorem gapExponent_unitsOf (hn : 0 < n) (hd : 0 < d)
    (hholds : (Interval.ofDouble x).holds (n / d) = true) :
    gapExponent n d = binaryExponent x ∧ unitsOf (gapExponent n d) n d = mantissa x ∨
      gapExponent n d = binaryExponent x - 1 ∧ -1074 < binaryExponent x ∧ mantissa x = 2 ^ 52 ∧
        unitsOf (gapExponent n d) n d = 2 ^ 53 := by
  have hn' : (0 : Rat) < n := by exact_mod_cast hn
  have hd' : (0 : Rat) < d := by exact_mod_cast hd
  have hpos : (0 : Rat) < n / d := div_pos hn' hd'
  have hgap := gap_pos x
  have hleast := le_binaryExponent x
  have hmantissa : (mantissa x : Rat) + 1 ≤ 2 ^ 53 := by exact_mod_cast mantissa_lt x
  obtain ⟨hlow, hhigh⟩ := Interval.le_of_holds hholds
  rw [Interval.high_ofDouble] at hhigh
  have htop : (n / d : Rat) < 2 ^ (binaryExponent x + 53) := by
    rw [show binaryExponent x + 53 = binaryExponent x + (53 : Nat) by rfl, pow_binaryExponent_add]
    exact hhigh.trans_lt (mul_lt_mul_of_pos_right (by linarith) hgap)
  rw [gapExponent, binaryLog_eq hn hd]
  obtain hle | hlt := le_or_gt ((2 : Rat) ^ (binaryExponent x + 52)) (n / d)
  · have hlog : Int.log 2 (n / d : Rat) = binaryExponent x + 52 :=
      log_eq hpos hle (by rwa [add_assoc])
    have hmax : max (binaryExponent x + 52 - 52) (-1074) = binaryExponent x := by omega
    rw [hlog, hmax]
    exact .inl ⟨rfl, unitsOf_binaryExponent hd hholds⟩
  have hlog : Int.log 2 (n / d : Rat) < binaryExponent x + 52 :=
    (Int.lt_zpow_iff_log_lt (b := 2) (by decide) hpos).1 (by exact_mod_cast hlt)
  obtain hzero | hnormal := hleast.eq_or_lt
  · have hmax : max (Int.log 2 (n / d : Rat) - 52) (-1074) = binaryExponent x := by omega
    rw [hmax]
    exact .inl ⟨rfl, unitsOf_binaryExponent hd hholds⟩
  · obtain ⟨hpower, hlog, hunits⟩ := unitsOf_below_power hn hd hholds hnormal hlt
    have hmax : max (Int.log 2 (n / d : Rat) - 52) (-1074) = binaryExponent x - 1 := by omega
    rw [hmax]
    exact .inr ⟨rfl, hnormal, hpower, hunits⟩

/-- **The nearest double.** -/
theorem nearest?_of_holds (hexponent : exponentBits x < 2047) (hpositive : isNegative x = false)
    (hn : 0 < n) (hd : 0 < d) (hholds : (Interval.ofDouble x).holds (n / d) = true) :
    nearest? n d = some x := by
  have hform : (gapExponent n d + 1074).toNat * fractionCount + unitsOf (gapExponent n d) n d =
      x.toBits.toNat := by
    rw [toNat_toBits_of_positive hpositive]
    obtain ⟨hgap, hunits⟩ | ⟨hgap, hleast, hpower, hunits⟩ := gapExponent_unitsOf hn hd hholds
    · rw [hunits, hgap]
    · rw [hunits, hgap, hpower]
      unfold fractionCount
      omega
  simp only [nearest?, hform, if_pos (toNat_toBits_lt hexponent hpositive), UInt64.ofNat_toNat,
    Float.ofBits_toBits]

end Nearest

/-! ### Signs -/

section Signs

open Float.Model Float.Model.UnpackedFloat

variable {x : Float}

/-- The fields of a packed number are those that it is packed from. -/
theorem fields_of_packComponents {s : Sign} {e : BitVec 11} {m : BitVec 52}
    (h : x.toBits.toBitVec = packComponents .binary64 s e m) :
    isNegative x = (s == .negative) ∧ exponentBits x = e.toNat ∧ fractionBits x = m.toNat := by
  have hsign := isNegative_unpackSign x.toBits.toBitVec
  have hexponent := toNat_unpackExponent x.toBits.toBitVec
  have hmantissa := toNat_unpackMantissa x.toBits.toBitVec
  rw [h] at hsign hexponent hmantissa
  rw [Double.unpackSign_packComponents] at hsign
  rw [unpackExponent_packComponents] at hexponent
  rw [unpackMantissa_packComponents] at hmantissa
  rw [← h] at hsign hexponent hmantissa
  exact ⟨hsign.symm, hexponent.symm, hmantissa.symm⟩

/-- The sign of a finite number is packed apart from its other fields. -/
theorem exists_pack_eq {u : UnpackedFloat} (h : u.isFinite = true) : ∃ s e m,
    pack .binary64 u = packComponents .binary64 s e m ∧
      pack .binary64 u.neg = packComponents .binary64 (-s) e m := by
  cases u with
  | infinity => exact nomatch h
  | notANumber => exact nomatch h
  | zero s => exact ⟨s, 0, 0, rfl, rfl⟩
  | finite s m e hpos =>
    simp only [UnpackedFloat.neg, UnpackedFloat.pack]
    split
    · exact ⟨s, _, _, rfl, rfl⟩
    split
    · exact ⟨s, _, _, rfl, rfl⟩
    · exact ⟨s, _, _, rfl, rfl⟩

/-- The negative of a finite double has the other sign, and nothing else is different. -/
theorem fields_neg (h : x.isFinite = true) : isNegative (-x) = !isNegative x ∧
    exponentBits (-x) = exponentBits x ∧ fractionBits (-x) = fractionBits x := by
  obtain ⟨s, e, m, hpack, hneg⟩ := exists_pack_eq (u := x.toModel.unpack) h
  have hself : x.toBits.toBitVec = pack .binary64 x.toModel.unpack :=
    (congrArg (fun y => y.toBits.toBitVec) (Float.ofBits_toBits x)).symm
  obtain ⟨hsign, hexponent, hfraction⟩ := fields_of_packComponents (hself.trans hpack)
  obtain ⟨hsign', hexponent', hfraction'⟩ := fields_of_packComponents (x := -x) hneg
  rw [hsign, hsign', hexponent, hexponent', hfraction, hfraction']
  cases s <;> exact ⟨rfl, rfl, rfl⟩

end Signs

/-! ### Plain texts -/

/-- The double that a plain text gives: a sign, digits, and maybe a point and more digits. -/
def readPlain? (text : String) : Option Float :=
  let (negative, cs) := match text.toList with
    | '-' :: cs => (true, cs)
    | cs => (false, cs)
  Numeral.double? ⟨negative, cs.takeWhile Char.isDigit, (cs.dropWhile Char.isDigit).drop 1, 0⟩

/-- A number with digits before its point is not too small to have a double. -/
theorem scaled?_eq_nearest? {n size k : Nat} (hn : 0 < n) (hsize : k < size) :
    scaled? n size (-(k : Int)) = nearest? n (10 ^ k) := by
  rw [scaled?, if_neg (by omega), if_neg (by omega), Int.natAbs_neg, Int.natAbs_natCast]
  split
  · rfl
  · obtain rfl : k = 0 := by omega
    rw [Nat.pow_eq, pow_zero, mul_one]

variable {x : Float}

/-- Zero is the only double that zero rounds to. -/
theorem eq_zero_of_holds (hpositive : isNegative x = false)
    (hholds : (Interval.ofDouble x).holds 0 = true) : x = 0 := by
  have hzero : magnitude 0 = 0 := by
    rw [magnitude_eq, show mantissa 0 = 0 by decide +kernel, Nat.cast_zero, zero_mul]
  obtain ⟨hmantissa, hexponent⟩ := Interval.eq_of_holds hholds (hzero ▸ holds_magnitude 0)
  exact ext_mantissa (hpositive.trans (by decide +kernel)) hmantissa hexponent

/-- The digits of a number that rounds to a positive double are read as this double. -/
theorem double?_of_holds (hexponent : exponentBits x < 2047) (hpositive : isNegative x = false)
    {cs : List Char} (hfirst : ∃ c ∈ cs.head?, c.isDigit = true)
    (hholds : (Interval.ofDouble x).holds (textValue cs) = true) (negative : Bool) :
    Numeral.double? ⟨negative, cs.takeWhile Char.isDigit, (cs.dropWhile Char.isDigit).drop 1, 0⟩ =
      some (if negative then -x else x) := by
  rw [textValue] at hholds
  generalize hwhole : cs.takeWhile Char.isDigit = whole at hholds ⊢
  generalize (cs.dropWhile Char.isDigit).drop 1 = fraction at hholds ⊢
  have hpos : 0 < whole.length := by
    obtain ⟨c, hc, hdigit⟩ := hfirst
    obtain ⟨rest, rfl⟩ := List.head?_eq_some_iff.1 hc
    rw [← hwhole, List.takeWhile_cons, hdigit]
    exact Nat.succ_pos _
  have hscaled : scaled? (Text.numeral (whole ++ fraction)) (whole.length + fraction.length)
      (0 - fraction.length) = some x := by
    rw [zero_sub]
    obtain hzero | hn := Nat.eq_zero_or_pos (Text.numeral (whole ++ fraction))
    · rw [hzero, Nat.cast_zero, zero_div] at hholds
      rw [hzero, eq_zero_of_holds hpositive hholds]
      exact if_pos (.inl rfl)
    · rw [scaled?_eq_nearest? hn (by omega)]
      refine nearest?_of_holds hexponent hpositive hn (by positivity) ?_
      rwa [Nat.cast_pow, Nat.cast_ofNat]
  exact congrArg (Option.map _) hscaled

/-- The negative of a finite double has the same interval, and its negative is the double. -/
theorem neg_of_isFinite (h : x.isFinite = true) :
    (-x).isFinite = true ∧ Interval.ofDouble (-x) = Interval.ofDouble x ∧ - -x = x := by
  obtain ⟨hsign, hexponent, hfraction⟩ := fields_neg h
  have hfinite : (-x).isFinite = true := by
    rw [isFinite_iff, hexponent]
    exact isFinite_iff.1 h
  obtain ⟨hsign', hexponent', hfraction'⟩ := fields_neg hfinite
  have hmantissa : mantissa (-x) = mantissa x := by rw [mantissa, mantissa, hexponent, hfraction]
  have hplace : binaryExponent (-x) = binaryExponent x := by
    rw [binaryExponent, binaryExponent, hexponent]
  refine ⟨hfinite, ?_, ext_mantissa ?_ ?_ ?_⟩
  · rw [Interval.ofDouble, magnitude, hmantissa, hplace, hexponent, hfraction]
    rfl
  · rw [hsign', hsign, Bool.not_not]
  · rw [← hmantissa, mantissa, mantissa, hexponent', hfraction']
  · rw [← hplace, binaryExponent, binaryExponent, hexponent']

/-- **Texts of doubles are read back.** The plain text of a finite double is read as this
double. -/
theorem readPlain?_write (h : x.isFinite = true) :
    readPlain? (Layout.plain.write x) = some x := by
  obtain ⟨n, e, hshortest, hholds⟩ := exists_shortest .up x
  have hrun := Digits.isRun_ofNat n e
  have hfirst := Layout.head?_writePositional hrun
  rw [← Digits.value_ofNat, ← Layout.textValue_writePositional hrun] at hholds
  rw [Layout.plain_write h, hshortest, readPlain?, String.toList_ofList]
  cases hsign : isNegative x with
  | true =>
    obtain ⟨hfinite, hinterval, hneg⟩ := neg_of_isFinite h
    have hpositive : isNegative (-x) = false := by rw [(fields_neg h).1, hsign, Bool.not_true]
    have hread := double?_of_holds (isFinite_iff.1 hfinite) hpositive hfirst
      (hinterval.symm ▸ hholds) true
    rwa [if_pos rfl, hneg] at hread
  | false =>
    have hread := double?_of_holds (isFinite_iff.1 h) hsign hfirst hholds false
    obtain ⟨c, hc, hdigit⟩ := hfirst
    obtain ⟨rest, htext⟩ := List.head?_eq_some_iff.1 hc
    rw [htext] at hread ⊢
    simp only [Bool.false_eq_true, if_false, List.nil_append]
    split
    · next h =>
      cases h
      exact absurd hdigit (by decide)
    · exact hread

end FederatedQuery.Decimal
