/-!
# Words

Integers of 64 bits bound what documents, settings and paging offsets can hold.

## Main definitions

* `Word.count`: the number of words, `2^64`.
* `Word.half`: the number of words without the highest bit, `2^63`.
* `Word.natural?`: a natural number, if it fits into a word with a sign.
-/

namespace FederatedQuery.Word

/-- The number of words of 64 bits: the natural numbers below it fit into a word. -/
abbrev count : Nat := 18446744073709551616

/-- The number of words without the highest bit: with a sign, a word holds the integers from
its opposite up to but not including it. -/
abbrev half : Nat := 9223372036854775808

theorem count_eq : count = Nat.pow 2 64 := by decide

theorem half_eq : half = Nat.pow 2 63 := by decide

/-- Whether an integer fits into a word with a sign. -/
def isSigned (n : Int) : Bool := decide (-(half : Int) ≤ n) && decide (n < half)

/-- A natural number, if it fits into a word with a sign. -/
def natural? (n : Nat) : Option Nat := if n < half then some n else none

end FederatedQuery.Word
