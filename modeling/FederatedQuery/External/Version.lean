import FederatedQuery.Text.Digits
import FederatedQuery.Word

/-!
# Versions of a backend

A version is compared by its leading numeric components, which stand between points and
hyphens. A version that has none, or one that does not fit into 64 bits, is older than
every version.

## Main definitions

* `Version.parse?`: the numeric components.
* `Version.atLeast`: the comparison.
-/

namespace FederatedQuery.Version

/-- Whether a character stands between components. -/
def isSeparator (c : Char) : Bool := c = '.' || c = '-'

/-- The pieces of a text between separators; there is always one. -/
def pieces : List Char → List (List Char)
  | [] => [[]]
  | c :: rest =>
    if isSeparator c then [] :: pieces rest
    else
      match pieces rest with
      | piece :: more => (c :: piece) :: more
      | [] => [[c]]

/-- Whether a piece is a number. -/
def isNumber (piece : List Char) : Bool := !piece.isEmpty && piece.all Char.isDigit

/-- The leading numeric components of a version. -/
def parse? (text : String) : Option (List Nat) := do
  let run := (pieces text.toList).takeWhile isNumber
  let numbers := run.map Text.numeral
  guard (!numbers.isEmpty && numbers.all (· < Word.count))
  some numbers

/-- Whether the components `have` are not below the components `want`, compared one by
one. -/
def notBelow : List Nat → List Nat → Bool
  | _, [] => true
  | [], _ :: _ => false
  | x :: xs, y :: ys => if x = y then notBelow xs ys else decide (y < x)

/-- Whether a version is known to be at least `least`. -/
def atLeast (version : Option String) (least : String) : Bool :=
  match version.bind parse?, parse? least with
  | some present, some wanted => notBelow present wanted
  | _, _ => false

end FederatedQuery.Version
