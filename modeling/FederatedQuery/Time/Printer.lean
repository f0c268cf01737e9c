import FederatedQuery.Time.Instant
import FederatedQuery.Text.Digits

/-!
# The texts of an instant

All texts give the date and the time of day in UTC. They differ in the fraction of the
second and in what surrounds it.

## Main definitions

* `Instant.canonical`: with the fraction in 0, 3, 6 or 9 digits, as many as it needs.
* `Instant.millis`: with a fraction of three digits; what is finer is cut off.
* `Instant.spaced`: as in sentences, `2015-08-26 00:00:00 UTC`.
-/

namespace FederatedQuery.Instant

open Text

/-- The date on which an instant lies. -/
def date (t : Instant) : Time.Date := .ofDayNumber (t.second / 86400)

/-- Whether an instant lies in a leap second. -/
def isLeap (t : Instant) : Bool := decide (1000000000 ≤ t.nano)

/-- The year in at least four digits; outside of 0 to 9999 with a sign. -/
def yearText (year : Int) : List Char :=
  if year < 0 then '-' :: padded 4 year.natAbs
  else if 9999 < year then '+' :: padded 4 year.natAbs
  else padded 4 year.natAbs

/-- The date of an instant. -/
def dateText (t : Instant) : List Char :=
  let d := t.date
  yearText d.year ++ '-' :: padded 2 d.month ++ '-' :: padded 2 d.day

/-- The time of day down to the second, which is 60 in a leap second. -/
def clockText (t : Instant) : List Char :=
  let s := (t.second % 86400).toNat
  padded 2 (s / 3600) ++ ':' :: padded 2 (s / 60 % 60) ++
    ':' :: padded 2 (s % 60 + if t.isLeap then 1 else 0)

/-- The nanoseconds after the second that `clockText` shows. -/
def subsecond (t : Instant) : Nat := t.nano % 1000000000

/-- The fraction of the second in as many groups of three digits as it needs. -/
def fractionText (t : Instant) : List Char :=
  let n := t.subsecond
  if n = 0 then []
  else if n % 1000000 = 0 then '.' :: padded 3 (n / 1000000)
  else if n % 1000 = 0 then '.' :: padded 6 (n / 1000)
  else '.' :: padded 9 n

/-- The fraction of the second cut down to milliseconds. -/
def millisText (t : Instant) : List Char := '.' :: padded 3 (t.subsecond / 1000000)

/-- The text with the fraction that the instant needs. -/
def canonical (t : Instant) : String :=
  String.ofList (t.dateText ++ 'T' :: t.clockText ++ t.fractionText ++ ['Z'])

/-- The text with milliseconds. -/
def millis (t : Instant) : String :=
  String.ofList (t.dateText ++ 'T' :: t.clockText ++ t.millisText ++ ['Z'])

/-- The text for sentences. -/
def spaced (t : Instant) : String :=
  String.ofList (t.dateText ++ ' ' :: t.clockText ++ t.fractionText ++ " UTC".toList)

end FederatedQuery.Instant
