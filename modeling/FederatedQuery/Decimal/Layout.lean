import FederatedQuery.Decimal.Shortest

/-!
# How a double is laid out as text

The digits of a double are fixed by `shortest`. A `Layout` decides the rest: for which
exponents the number is written positionally, whether a whole number keeps a `.0`, and
how the exponent is marked.

## Main definitions

* `Layout.write`: the text of a double.
* `Layout.document`: numbers inside JSON documents.
* `Layout.plain`: numbers inside other text; never an exponent.
* `Layout.bound`: the ends of numeric ranges; a point or an exponent in each.
-/

namespace FederatedQuery.Decimal

/-- The choices in writing a double. -/
structure Layout where
  /-- The exponents `e`, `low ≤ e < high`, that are written positionally; all of them if
  `none`. -/
  positional : Option (Int × Int)
  /-- Whether a number without fraction is given the fraction `.0`. -/
  wholeFraction : Bool
  /-- Whether an exponent that is not negative carries a sign. -/
  plusSign : Bool
  /-- The choice between two equally near decimals. -/
  tie : Tie

namespace Layout

/-- Whether an exponent is written positionally. -/
def isPositional (layout : Layout) (e : Int) : Bool :=
  match layout.positional with
  | none => true
  | some (low, high) => decide (low ≤ e) && decide (e < high)

/-- The digits with their point. -/
def writePositional (layout : Layout) (d : Digits) : List Char :=
  if d.exponent < 0 then
    '0' :: '.' :: List.replicate (d.exponent.natAbs - 1) '0' ++ d.digits
  else
    let places := d.exponent.natAbs + 1
    let whole := d.digits.take places
    let fraction := d.digits.drop places
    whole ++ List.replicate (places - whole.length) '0' ++
      (if fraction.isEmpty then (if layout.wholeFraction then ['.', '0'] else [])
        else '.' :: fraction)

/-- The digits, the point after the first of them, and the exponent. -/
def writeExponent (layout : Layout) (d : Digits) : List Char :=
  let fraction := d.digits.drop 1
  d.digits.take 1 ++ (if fraction.isEmpty then [] else '.' :: fraction) ++ ['e'] ++
    (if layout.plusSign && decide (0 ≤ d.exponent) then ['+'] else []) ++
    Text.signed d.exponent

/-- The text of a double. -/
def write (layout : Layout) (x : Float) : String :=
  if x.isNaN then "NaN"
  else
    let sign := if isNegative x then ['-'] else []
    if x.isInf then String.ofList (sign ++ ['i', 'n', 'f'])
    else
      let d := shortest layout.tie x
      String.ofList (sign ++
        if layout.isPositional d.exponent then layout.writePositional d
        else layout.writeExponent d)

/-- In documents a number from `10^-5` up to `10^16` is positional with at least one
fraction digit, and any other has an exponent with its sign. -/
def document : Layout := ⟨some (-5, 16), true, true, .toEven⟩

/-- In text a number is always positional, and a whole number has no point. -/
def plain : Layout := ⟨none, false, false, .up⟩

/-- The end of a range from `10^-4` up to `10^16` is positional with at least one
fraction digit, and any other has an exponent without plus sign. -/
def bound : Layout := ⟨some (-4, 16), true, false, .up⟩

end Layout

end FederatedQuery.Decimal
