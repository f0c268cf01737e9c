import FederatedQuery.Json.Basic
import FederatedQuery.Decimal.Layout

/-!
# The compact text of a JSON value

`Json.compress` writes a value on one line without blanks, with the fields of objects in
their order. In strings only the quote, the backslash and the control characters below
U+0020 are escaped.

## Main definitions

* `Json.quoteText`: a string with its quotes.
* `Json.compress`: a value.
-/

namespace FederatedQuery.Json

/-- The four lower-case hexadecimal digits of a code point below U+10000. -/
def hexFour (n : Nat) : List Char :=
  let run := Nat.toDigits 16 n
  List.replicate (4 - run.length) '0' ++ run

/-- A character inside a JSON string. -/
def escapeChar (c : Char) : List Char :=
  if c = '"' then ['\\', '"']
  else if c = '\\' then ['\\', '\\']
  else if c = '\n' then ['\\', 'n']
  else if c = '\r' then ['\\', 'r']
  else if c = '\t' then ['\\', 't']
  else if c.toNat = 8 then ['\\', 'b']
  else if c.toNat = 12 then ['\\', 'f']
  else if c.toNat < 32 then '\\' :: 'u' :: hexFour c.toNat
  else [c]

/-- A string in its quotes. -/
def quoteText (s : String) : String :=
  String.ofList ('"' :: s.toList.flatMap escapeChar ++ ['"'])

mutual

/-- The compact text of a value. -/
def compress : Json → String
  | .null => "null"
  | .bool b => if b then "true" else "false"
  | .int n => String.ofList (Text.signed n)
  | .float x => Decimal.Layout.document.write x
  | .string s => quoteText s
  | .array items => "[" ++ String.intercalate "," (compressItems items) ++ "]"
  | .object fields => "\x7b" ++ String.intercalate "," (compressFields fields) ++ "\x7d"

/-- The compact texts of the items of an array. -/
def compressItems : List Json → List String
  | [] => []
  | item :: rest => compress item :: compressItems rest

/-- The compact texts of the fields of an object, each with its name. -/
def compressFields : List (String × Json) → List String
  | [] => []
  | (key, value) :: rest => (quoteText key ++ ":" ++ compress value) :: compressFields rest

end

end FederatedQuery.Json
