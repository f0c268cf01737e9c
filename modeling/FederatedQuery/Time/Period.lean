import FederatedQuery.Time.Range
import FederatedQuery.Text.Digits
import FederatedQuery.Word

/-!
# Periods and their buckets

A period is a length of time written as a number of days, `P1D`, or of hours, minutes or
seconds, `PT1H`, `PT5M`, `PT30S`. It cuts time into buckets of that length, which start
at the multiples of the period since 1970-01-01T00:00:00Z.

## Main definitions

* `Period.parse?`: reads a period.
* `Period.bucketAt`: the bucket that starts at a given instant.
* `Period.bucketContaining`: the bucket in which an instant lies.
-/

namespace FederatedQuery

/-- A positive length of time. Its milliseconds fit into 63 bits. -/
structure Period where
  /-- The text that the period was read from. -/
  text : String
  /-- Its length in seconds. -/
  seconds : Nat
  seconds_pos : 0 < seconds
  seconds_le : seconds ≤ 9223372036854775

namespace Period

/-- The seconds in a unit of hours, minutes or seconds. -/
def clockUnit? : Char → Option Nat
  | 'S' => some 1
  | 'M' => some 60
  | 'H' => some 3600
  | _ => none

/-- The text of a period as the digits of its amount and the seconds in its unit. -/
def split? : List Char → Option (List Char × Nat)
  | 'P' :: 'T' :: rest =>
    (rest.getLast?.bind clockUnit?).map fun unit => (rest.dropLast, unit)
  | 'P' :: rest => if rest.getLast? = some 'D' then some (rest.dropLast, 86400) else none
  | _ => none

/-- The amount that a run of digits stands for, read digit by digit; `none` as soon as it does not
fit into a word with a sign. -/
def amount? (run : List Char) : Option Nat :=
  run.foldlM (fun n c => Word.natural? (10 * n + Text.digitValue c)) 0

/-- The length in seconds of the period that a text gives. The amount has one or more digits and is
not zero; it fits into a word with a sign, and so does the length, which is at most
`9223372036854775` seconds. -/
def seconds? (cs : List Char) : Option Nat := do
  let (run, unit) ← split? cs
  guard (!run.isEmpty && run.all Char.isDigit)
  let amount ← amount? run
  guard (0 < amount)
  let seconds ← Word.natural? (amount * unit)
  guard (seconds ≤ 9223372036854775)
  some seconds

/-- The period that a text gives. -/
def parse? (text : String) : Option Period :=
  match seconds? text.toList with
  | none => none
  | some seconds =>
    if h : 0 < seconds ∧ seconds ≤ 9223372036854775 then some ⟨text, seconds, h.1, h.2⟩
    else none

/-- The bucket that starts at `start`; it ends with the last instant at the latest. -/
def bucketAt (p : Period) (start : Instant) : TimeRange :=
  ⟨start, (start.addSeconds? p.seconds).getD .latest⟩

/-- The bucket in which an instant lies. A bucket that would start before the first
instant starts at the given one. -/
def bucketContaining (p : Period) (t : Instant) : TimeRange :=
  p.bucketAt ((Instant.ofSecond? (t.second - t.second % p.seconds) 0).getD t)

end Period

end FederatedQuery
