import FederatedQuery.Time.Instant
import FederatedQuery.Text.Blank
import FederatedQuery.Text.Digits

/-!
# Reading instants

Two grammars of a date, a time of day and an offset from UTC.

* The *relaxed* one allows numbers with fewer digits than their place, blanks around
  the separators of the date and of the time, signed years of any length, the word `UTC`
  for the offset, and blanks at the end.
* The *strict* one has four digits for the year and two for every other number, and no
  blanks but the one that may stand between date and time.

In both, a second of 60 is the leap second after the second 59, and digits of a fraction
beyond the ninth are ignored.

## Main definitions

* `Instant.read?`: the relaxed grammar.
* `Instant.readStrict?`: the strict grammar.
-/

namespace FederatedQuery.Instant

open Text

/-- A date and a time of day as written, before the offset is taken off. -/
structure Wall where
  date : Time.Date
  hour : Nat
  minute : Nat
  second : Nat
  nano : Nat

/-- The instant at which a clock with the given offset from UTC, in seconds, shows the
given date and time; `none` if there is no such date or time. -/
def ofWall? (w : Wall) (offset : Int) : Option Instant := do
  guard w.date.isValid
  guard (-262143 ≤ w.date.year ∧ w.date.year ≤ 262142)
  guard (w.hour ≤ 23 ∧ w.minute ≤ 59 ∧ w.second ≤ 60)
  guard (-86400 < offset ∧ offset < 86400)
  let (second, nano) := if w.second = 60 then (59, w.nano + 1000000000) else (w.second, w.nano)
  let clock : Int := w.hour * 3600 + w.minute * 60 + second
  ofSecond? (w.date.dayNumber * 86400 + clock - offset) nano

/-- The fraction of a second, if a point follows: nanoseconds. -/
def readFraction? : List Char → Option (Nat × List Char)
  | '.' :: rest => do
    let (run, rest) ← takeDigits 1 none rest
    some (numeral ((run ++ List.replicate 9 '0').take 9), rest)
  | rest => some (0, rest)

/-- The sign of an offset. -/
def readSign? : List Char → Option (Bool × List Char)
  | '+' :: rest => some (false, rest)
  | '-' :: rest => some (true, rest)
  | '\u2212' :: rest => some (true, rest)
  | _ => none

/-- An offset from UTC in seconds: `Z`, or a sign, two digits of hours, a separator that
`separator?` removes, and two digits of minutes. -/
def readOffset? (separator? : List Char → Option (List Char)) (cs : List Char) :
    Option (Int × List Char) :=
  match cs with
  | 'Z' :: rest | 'z' :: rest => some (0, rest)
  | _ => do
    let (negative, rest) ← readSign? cs
    let (hours, rest) ← takeNumber 2 rest
    let rest ← separator? rest
    let (minutes, rest) ← takeNumber 2 rest
    guard (minutes ≤ 59)
    let seconds : Int := hours * 3600 + minutes * 60
    some (if negative then -seconds else seconds, rest)

/-- The character between date and time. -/
def readJoin? : List Char → Option (List Char)
  | 'T' :: rest | 't' :: rest | ' ' :: rest => some rest
  | _ => none

/-! ### The relaxed grammar -/

/-- A number of one or two digits, after blanks. -/
def readShort? (cs : List Char) : Option (Nat × List Char) :=
  (takeDigits 1 (some 2) (trimStart cs)).map fun (run, rest) => (numeral run, rest)

/-- A year, after blanks: up to four digits, or a sign and any number of them. -/
def readYear? (cs : List Char) : Option (Int × List Char) :=
  match trimStart cs with
  | '-' :: rest =>
    (takeDigits 1 none rest).map fun (run, rest) => (-(numeral run : Int), rest)
  | '+' :: rest =>
    (takeDigits 1 none rest).map fun (run, rest) => ((numeral run : Int), rest)
  | rest =>
    (takeDigits 1 (some 4) rest).map fun (run, rest) => ((numeral run : Int), rest)

/-- A separator, after blanks. -/
def readMark? (c : Char) (cs : List Char) : Option (List Char) := expect c (trimStart cs)

/-- The word `UTC` in any case, or an offset whose hours and minutes may have any run of
colons and blanks between them. -/
def readZone? (cs : List Char) : Option (Int × List Char) :=
  if (cs.take 3).map Char.toUpper = ['U', 'T', 'C'] then some (0, cs.drop 3)
  else readOffset? (fun rest => some (rest.dropWhile fun c => c = ':' || isBlank c)) cs

/-- The instant that a text gives in the relaxed grammar. -/
def read? (s : String) : Option Instant := do
  let (year, rest) ← readYear? s.toList
  let (month, rest) ← (readMark? '-' rest).bind readShort?
  let (day, rest) ← (readMark? '-' rest).bind readShort?
  let (hour, rest) ← (readJoin? rest).bind readShort?
  let (minute, rest) ← (readMark? ':' rest).bind readShort?
  let (second, rest) ← (readMark? ':' rest).bind readShort?
  let (nano, rest) ← readFraction? rest
  let (offset, rest) ← readZone? (trimStart rest)
  guard (trimStart rest).isEmpty
  ofWall? ⟨⟨year, month, day⟩, hour, minute, second, nano⟩ offset

/-! ### The strict grammar -/

/-- The instant that a text gives in the strict grammar. -/
def readStrict? (s : String) : Option Instant := do
  let (year, rest) ← takeNumber 4 s.toList
  let (month, rest) ← (expect '-' rest).bind (takeNumber 2)
  let (day, rest) ← (expect '-' rest).bind (takeNumber 2)
  let (hour, rest) ← (readJoin? rest).bind (takeNumber 2)
  let (minute, rest) ← (expect ':' rest).bind (takeNumber 2)
  let (second, rest) ← (expect ':' rest).bind (takeNumber 2)
  let (nano, rest) ← readFraction? rest
  let (offset, rest) ← readOffset? (expect ':') rest
  guard rest.isEmpty
  ofWall? ⟨⟨year, month, day⟩, hour, minute, second, nano⟩ offset

end FederatedQuery.Instant
