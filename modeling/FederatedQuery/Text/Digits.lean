/-!
# Runs of decimal digits

Numbers are written with `digits` and `padded`, and read with `numeral` from a run
that `takeDigits` has cut off the front of a text. The digits are the ten of ASCII.

## Main definitions

* `digits`, `padded`: a natural number, and one with leading zeros up to a width.
* `signed`: an integer.
* `numeral`: the number that a run of digits stands for.
* `takeDigits`: a run of at least `least` and at most `most` digits.
-/

namespace FederatedQuery.Text

/-- The decimal digits of a number. -/
def digits (n : Nat) : List Char := Nat.toDigits 10 n

/-- The decimal digits of a number, with leading zeros up to `width` digits. -/
def padded (width n : Nat) : List Char :=
  List.replicate (width - (digits n).length) '0' ++ digits n

/-- The decimal text of an integer. -/
def signed (n : Int) : List Char :=
  if n < 0 then '-' :: digits n.natAbs else digits n.natAbs

/-- The value of a decimal digit. -/
def digitValue (c : Char) : Nat := c.toNat - '0'.toNat

/-- The number that a run of digits stands for; zero for the empty run. -/
def numeral (cs : List Char) : Nat :=
  cs.foldl (fun n c => 10 * n + digitValue c) 0

@[simp] theorem numeral_nil : numeral [] = 0 := rfl

/-- The last digit counts ones. -/
theorem numeral_append_singleton (cs : List Char) (c : Char) :
    numeral (cs ++ [c]) = 10 * numeral cs + digitValue c := by
  simp [numeral, List.foldl_append]

/-- The longest run of digits at the front of `cs`, of at most `most` of them, and what
follows it; `none` if the run is shorter than `least`. -/
def takeDigits (least : Nat) (most : Option Nat) (cs : List Char) :
    Option (List Char × List Char) :=
  let run := cs.takeWhile Char.isDigit
  let run := match most with
    | some m => run.take m
    | none => run
  if run.length < least then none else some (run, cs.drop run.length)

/-- Exactly `width` digits, as a number. -/
def takeNumber (width : Nat) (cs : List Char) : Option (Nat × List Char) :=
  (takeDigits width (some width) cs).map fun (run, rest) => (numeral run, rest)

/-- The text without the character `c` at its front. -/
def expect (c : Char) : List Char → Option (List Char)
  | d :: rest => if d = c then some rest else none
  | [] => none

end FederatedQuery.Text
