import FederatedQuery.Decimal.Shortest

/-!
# Doubles from decimal digits

A written number is read as the double nearest to it, and of two equally near ones as the
one with the even mantissa. The number is kept as an exact fraction until then: it is
counted in units of the gap between the doubles around it, and only that count is rounded.

Between `0` and the largest double, the binary forms of the doubles are numbered in their
order. A count of `2^53` units, one more than a mantissa holds, is therefore the next
binary form as it should be.

## Main definitions

* `roundDiv`: the whole number nearest to a fraction.
* `nearest?`: the double nearest to a fraction; `none` beyond the largest double.
* `Numeral`: the parts of a written number.
* `Numeral.double?`: the double that a written number stands for.
-/

namespace FederatedQuery.Decimal

/-! ### Rounding -/

/-- The whole number nearest to `n / d`; a tie goes to the even one. -/
def roundDiv (n d : Nat) : Nat :=
  let q := n / d
  let r := n % d
  if 2 * r < d then q else if d < 2 * r then q + 1 else q + q % 2

/-- The nearest whole number is at most half a unit away. -/
theorem roundDiv_near (n : Nat) {d : Nat} (h : 0 < d) :
    2 * n ≤ 2 * (roundDiv n d * d) + d ∧ 2 * (roundDiv n d * d) ≤ 2 * n + d := by
  have hn := Nat.div_add_mod' n d
  have hr := Nat.mod_lt n h
  have hs := Nat.add_one_mul (n / d) d
  simp only [roundDiv]
  split
  · omega
  · split
    · omega
    · rcases Nat.mod_two_eq_zero_or_one (n / d) with h | h
      · rw [h, Nat.add_zero]
        omega
      · rw [h]
        omega

/-- The largest `e` with `2^e ≤ n / d`, for positive `n` and `d`. -/
def binaryLog (n d : Nat) : Int :=
  if d <<< (n.log2 - d.log2) ≤ n <<< (d.log2 - n.log2) then (n.log2 : Int) - d.log2
  else (n.log2 : Int) - d.log2 - 1

/-- The fraction `n / d` as a whole number of units of `2^e`, rounded. -/
def unitsOf (e : Int) (n d : Nat) : Nat :=
  if e < 0 then roundDiv (n <<< e.natAbs) d else roundDiv n (d <<< e.natAbs)

/-- The gap between doubles of the size of `n / d`, as a power of two. -/
def gapExponent (n d : Nat) : Int := max (binaryLog n d - 52) (-1074)

/-- The double nearest to `n / d`, for positive `n` and `d`; `none` beyond the largest
double. -/
def nearest? (n d : Nat) : Option Float :=
  let e := gapExponent n d
  let form := (e + 1074).toNat * fractionCount + unitsOf e n d
  if form < 2047 * fractionCount then some (Float.ofBits (UInt64.ofNat form)) else none

/-! ### Written numbers -/

/-- The parts of a written number: its sign, the digits before and after the point, and
its exponent. -/
structure Numeral where
  negative : Bool
  whole : List Char
  fraction : List Char
  exponent : Int

/-- The number counted by the digits, point and exponent left aside. -/
def Numeral.significand (d : Numeral) : Nat := Text.numeral (d.whole ++ d.fraction)

/-- The power of ten that the significand counts. -/
def Numeral.power (d : Numeral) : Int := d.exponent - d.fraction.length

/-- The double nearest to `n × 10^power`, where `n` has at most `size` digits. Numbers from
`10^400` on have no double, and those below `10^(-400)` have zero. -/
def scaled? (n size : Nat) (power : Int) : Option Float :=
  if n = 0 ∨ power + size ≤ -400 then some 0
  else if 400 ≤ power then none
  else if power < 0 then nearest? n (Nat.pow 10 power.natAbs)
  else nearest? (n * Nat.pow 10 power.natAbs) 1

/-- The double that a written number stands for; `none` beyond the largest double. -/
def Numeral.double? (d : Numeral) : Option Float :=
  (scaled? d.significand (d.whole.length + d.fraction.length) d.power).map fun x =>
    if d.negative then -x else x

end FederatedQuery.Decimal
