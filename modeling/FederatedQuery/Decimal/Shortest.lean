import FederatedQuery.Text.Digits
import FederatedQuery.Word

/-!
# The shortest decimal of a double

A finite double stands for the interval of reals that round to it. `shortest` is the
decimal with the fewest digits in that interval and, among those, the one nearest to
the double itself. For one digit, then two, and so on, it looks at the two neighbours
of the double on the grid of decimals with that many digits: if any point of the grid
lies in the interval, one of these neighbours does. Seventeen digits always suffice.

## Main definitions

* `magnitude`: the absolute value of a finite double, as a rational.
* `Interval.ofDouble`: the reals that round to a double.
* `shortest`: the shortest decimal in that interval.
-/

namespace FederatedQuery.Decimal

/-! ### Doubles as rationals -/

/-- The number of values of the fraction field, which has 52 bits. -/
abbrev fractionCount : Nat := 4503599627370496

/-- The fraction field of the binary form. -/
def fractionBits (x : Float) : Nat := x.toBits.toNat % fractionCount

/-- The exponent field of the binary form, which has 11 bits. -/
def exponentBits (x : Float) : Nat := x.toBits.toNat / fractionCount % 2048

/-- Whether the sign bit is set. -/
def isNegative (x : Float) : Bool := decide (Word.half ≤ x.toBits.toNat)

/-- The integer mantissa: the magnitude is this times two to the `binaryExponent`. -/
def mantissa (x : Float) : Nat :=
  if exponentBits x = 0 then fractionBits x else fractionCount + fractionBits x

/-- The power of two that the mantissa counts. -/
def binaryExponent (x : Float) : Int :=
  if exponentBits x = 0 then -1074 else (exponentBits x : Int) - 1075

/-- The absolute value of a finite double. -/
def magnitude (x : Float) : Rat := (mantissa x : Rat) * (2 : Rat) ^ binaryExponent x

/-! ### Rounding intervals -/

/-- An interval of reals around a number; `closed` tells whether its ends belong to it. -/
structure Interval where
  low : Rat
  high : Rat
  closed : Bool

/-- The reals that round to the magnitude of `x`. The gap below a power of two is half as
wide as the one above it, and a tie goes to the even mantissa. -/
def Interval.ofDouble (x : Float) : Interval :=
  let gap := (2 : Rat) ^ binaryExponent x
  let below := if fractionBits x = 0 && decide (1 < exponentBits x) then gap / 2 else gap
  { low := magnitude x - below / 2
    high := magnitude x + gap / 2
    closed := mantissa x % 2 = 0 }

/-- Whether the interval holds `r`. -/
def Interval.holds (i : Interval) (r : Rat) : Bool :=
  if i.closed then decide (i.low ≤ r) && decide (r ≤ i.high)
  else decide (i.low < r) && decide (r < i.high)

/-! ### Decimals -/

/-- Which of two equally near decimals is taken. -/
inductive Tie where
  /-- The one whose last digit is even. -/
  | toEven
  /-- The one of larger magnitude. -/
  | up
  deriving DecidableEq

/-- A decimal `d.ddd × 10^exponent`, given by its digits. -/
structure Digits where
  digits : List Char
  exponent : Int

/-- The exponent of the leading digit of a positive rational: the largest `k` with
`10^k ≤ r`. -/
def leadingExponent (r : Rat) : Int :=
  if 1 ≤ r then ((Text.digits r.floor.toNat).length : Int) - 1
  else -((Text.digits ((r⁻¹).ceil.toNat - 1)).length : Int)

/-- The point of the grid of multiples of `unit` that stands for `r`: one of its two
neighbours, if the interval holds it, and the nearer one if it holds both. -/
def gridPoint? (tie : Tie) (i : Interval) (r unit : Rat) : Option Nat :=
  let down := (r / unit).floor
  let up := (r / unit).ceil
  match i.holds (down * unit), i.holds (up * unit) with
  | false, false => none
  | true, false => some down.toNat
  | false, true => some up.toNat
  | true, true =>
    let below := r - down * unit
    let above := up * unit - r
    if below < above then some down.toNat
    else if above < below then some up.toNat
    else match tie with
      | .up => some up.toNat
      | .toEven => some (if down % 2 = 0 then down.toNat else up.toNat)

/-- The run without the zeros at its end; its first digit stays. -/
def dropTrailingZeros : List Char → List Char
  | [] => []
  | c :: rest => c :: (rest.reverse.dropWhile (· == '0')).reverse

/-- The digits of `n` counted in units of `10^unitExponent`. -/
def Digits.ofNat (n : Nat) (unitExponent : Int) : Digits :=
  let run := Text.digits n
  { digits := dropTrailingZeros run
    exponent := unitExponent + (run.length : Int) - 1 }

/-- The shortest decimal that rounds to the magnitude of the finite double `x`; zero is
the digit `0`. -/
def shortest (tie : Tie) (x : Float) : Digits :=
  let r := magnitude x
  if r = 0 then ⟨['0'], 0⟩
  else
    let i := Interval.ofDouble x
    let k := leadingExponent r
    let attempt (n : Nat) : Option Digits :=
      (gridPoint? tie i r ((10 : Rat) ^ (k - n))).map (Digits.ofNat · (k - n))
    ((List.range 17).findSome? attempt).getD (Digits.ofNat (r * (10 : Rat) ^ (16 - k)).floor.toNat (k - 16))

end FederatedQuery.Decimal
