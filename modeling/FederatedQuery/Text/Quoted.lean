import FederatedQuery.Text.Printable

/-!
# Quoted text

A string in a readable notation: in double quotes, with quotes and backslashes escaped,
and with `\\u{…}` in place of every character that does not show as itself or that would
join the character before it. A single quote is not escaped.

## Main definitions

* `quoted`: a string.
* `quotedList`: a list of strings, in brackets.
-/

namespace FederatedQuery.Text

/-- The braced hexadecimal escape of a character. -/
def codeEscape (c : Char) : List Char :=
  ['\\', 'u', '\x7b'] ++ Nat.toDigits 16 c.toNat ++ ['\x7d']

/-- A character inside quotes. -/
def quotedChar (c : Char) : List Char :=
  if c = '"' then ['\\', '"']
  else if c = '\\' then ['\\', '\\']
  else if c = '\n' then ['\\', 'n']
  else if c = '\r' then ['\\', 'r']
  else if c = '\t' then ['\\', 't']
  else if c = '\x00' then ['\\', '0']
  else if isExtending c || !isPrintable c then codeEscape c
  else [c]

/-- A string in its quotes. -/
def quoted (s : String) : String :=
  String.ofList ('"' :: s.toList.flatMap quotedChar ++ ['"'])

/-- A list of strings, each in its quotes. -/
def quotedList (items : List String) : String :=
  "[" ++ String.intercalate ", " (items.map quoted) ++ "]"

end FederatedQuery.Text
