import FederatedQuery.Json.Basic
import FederatedQuery.Decimal.Reader

/-!
# Reading JSON text

A text is read in two passes, each of which goes once over its input. The scanner cuts
the characters into tokens; strings are decoded there, and a run of other characters up
to the next delimiter is one word, which must be a literal or a number. The assembler
then puts the tokens together, with the open arrays and objects on a stack.

An object that names a field twice keeps the first place and the last value.

## Main definitions

* `Json.scan?`: the tokens of a text.
* `Json.assemble?`: the value that a list of tokens spells.
* `Json.parse?`: the value that a text spells.
-/

namespace FederatedQuery.Json

/-! ### Numbers -/

/-- The digits of a fraction, after its point; there must be one. -/
def readFraction (cs : List Char) : Option (List Char × List Char) :=
  match cs with
  | '.' :: rest => Text.takeDigits 1 none rest
  | rest => some ([], rest)

/-- The exponent of a number, after its mark. -/
def readExponent (cs : List Char) : Option (Int × List Char) :=
  let after (negative : Bool) (rest : List Char) : Option (Int × List Char) :=
    (Text.takeDigits 1 none rest).map fun (run, rest) =>
      (if negative then -(Text.numeral run : Int) else Text.numeral run, rest)
  match cs with
  | '+' :: rest => after false rest
  | '-' :: rest => after true rest
  | rest => after false rest

/-- The whole part of a number: a zero that no digit follows, or digits without a leading
zero. -/
def readWhole (cs : List Char) : Option (List Char × List Char) :=
  (Text.takeDigits 1 none cs).bind fun (run, rest) =>
    if run.head? = some '0' && decide (1 < run.length) then none else some (run, rest)

/-- A number word. Without fraction and exponent it is an integer if that is exact, zero
with a minus sign excepted; otherwise it is a double. -/
def readNumber? (word : List Char) : Option Json := do
  let (negative, rest) := match word with
    | '-' :: rest => (true, rest)
    | rest => (false, rest)
  let (whole, rest) ← readWhole rest
  let (fraction, rest) ← readFraction rest
  let (exponent, rest) ← match rest with
    | 'e' :: rest => (readExponent rest).map fun (e, rest) => (some e, rest)
    | 'E' :: rest => (readExponent rest).map fun (e, rest) => (some e, rest)
    | rest => some (none, rest)
  guard rest.isEmpty
  let n : Int := if negative then -(Text.numeral whole : Int) else Text.numeral whole
  if fraction.isEmpty && exponent.isNone && isExact n && !(negative && n == 0) then
    some (.int n)
  else
    (Decimal.Numeral.double? ⟨negative, whole, fraction, exponent.getD 0⟩).map .float

/-- The value of a word. -/
def readWord? (word : List Char) : Option Json :=
  if word = "null".toList then some .null
  else if word = "true".toList then some (.bool true)
  else if word = "false".toList then some (.bool false)
  else readNumber? word

/-! ### Tokens -/

/-- A token of JSON text. -/
inductive Token where
  | openArray
  | closeArray
  | openObject
  | closeObject
  | comma
  | colon
  | scalar (value : Json)

/-- The token that a character is by itself. -/
def Token.ofChar? : Char → Option Token
  | '[' => some .openArray
  | ']' => some .closeArray
  | '\x7b' => some .openObject
  | '\x7d' => some .closeObject
  | ',' => some .comma
  | ':' => some .colon
  | _ => none

/-- Blanks between tokens. -/
def isBlank (c : Char) : Bool := c = ' ' || c = '\t' || c = '\n' || c = '\r'

/-- Where the scanner stands: between tokens, in a word, or at some point of a string.
Characters read so far are kept last first; `high` is a leading surrogate that waits for
its partner. -/
inductive ScanState where
  | between
  | word (back : List Char)
  | text (back : List Char)
  | escape (back : List Char) (high : Option Nat)
  | code (back : List Char) (high : Option Nat) (digits : List Char)
  | partner (back : List Char) (high : Nat)

/-- The value of a hexadecimal digit. -/
def hexValue? (c : Char) : Option Nat :=
  if c.isDigit then some (c.toNat - '0'.toNat)
  else if 'a' ≤ c ∧ c ≤ 'f' then some (c.toNat - 'a'.toNat + 10)
  else if 'A' ≤ c ∧ c ≤ 'F' then some (c.toNat - 'A'.toNat + 10)
  else none

/-- The character that a one-letter escape stands for. -/
def escaped? : Char → Option Char
  | '"' => some '"'
  | '\\' => some '\\'
  | '/' => some '/'
  | 'b' => some '\x08'
  | 'f' => some '\x0c'
  | 'n' => some '\n'
  | 'r' => some '\r'
  | 't' => some '\t'
  | _ => none

/-- The state after a complete four-digit escape: a leading surrogate waits for a trailing
one, and neither may stand alone. -/
def endCode (back : List Char) (high : Option Nat) (n : Nat) : Option ScanState :=
  match high with
  | none =>
    if 0xD800 ≤ n ∧ n < 0xDC00 then some (.partner back n)
    else if 0xDC00 ≤ n ∧ n < 0xE000 then none
    else some (.text (Char.ofNat n :: back))
  | some h =>
    if 0xDC00 ≤ n ∧ n < 0xE000 then
      some (.text (Char.ofNat (0x10000 + (h - 0xD800) * 0x400 + (n - 0xDC00)) :: back))
    else none

/-- A step between tokens, in front of the character `c`. -/
def scanBetween (c : Char) : List Token × ScanState :=
  match Token.ofChar? c with
  | some token => ([token], .between)
  | none =>
    if isBlank c then ([], .between)
    else if c = '"' then ([], .text [])
    else ([], .word [c])

/-- One step of the scanner: the tokens that the character completes and the next state. -/
def scanStep (state : ScanState) (c : Char) : Option (List Token × ScanState) :=
  match state with
  | .between => some (scanBetween c)
  | .word back =>
    if (Token.ofChar? c).isSome || isBlank c || c = '"' then
      (readWord? back.reverse).map fun value =>
        let (tokens, next) := scanBetween c
        (.scalar value :: tokens, next)
    else some ([], .word (c :: back))
  | .text back =>
    if c = '"' then some ([.scalar (.string (String.ofList back.reverse))], .between)
    else if c = '\\' then some ([], .escape back none)
    else if c.toNat < 32 then none
    else some ([], .text (c :: back))
  | .escape back high =>
    if c = 'u' then some ([], .code back high [])
    else if high.isSome then none
    else (escaped? c).map fun d => ([], .text (d :: back))
  | .code back high digits =>
    match hexValue? c with
    | none => none
    | some _ =>
      let digits := digits ++ [c]
      if digits.length < 4 then some ([], .code back high digits)
      else
        let n := digits.foldl (fun n d => 16 * n + (hexValue? d).getD 0) 0
        (endCode back high n).map fun next => ([], next)
  | .partner back high => if c = '\\' then some ([], .escape back (some high)) else none

/-- The tokens of the text `cs`, read from the given state. -/
def scanFrom? (state : ScanState) : List Char → Option (List Token)
  | [] =>
    match state with
    | .between => some []
    | .word back => (readWord? back.reverse).map fun value => [.scalar value]
    | _ => none
  | c :: cs =>
    match scanStep state c with
    | none => none
    | some (tokens, next) => (scanFrom? next cs).map (tokens ++ ·)

/-- The tokens of a text. -/
def scan? (s : String) : Option (List Token) := scanFrom? .between s.toList

/-! ### Values -/

/-- An array or object that is still open; items come last first. -/
inductive Frame where
  | items (back : List Json)
  | fields (done : Fields)
  | field (done : Fields) (key : String)

/-- What must come next. -/
inductive Awaited where
  /-- A value. -/
  | value
  /-- A value, or the end of the array just opened. -/
  | item
  /-- A field name. -/
  | key
  /-- A field name, or the end of the object just opened. -/
  | firstKey
  /-- A colon. -/
  | colon
  /-- A comma, or the end of the innermost array or object. -/
  | separator
  /-- Nothing: the value is complete. -/
  | nothing (value : Json)

/-- Puts a complete value into the innermost open array or object. -/
def complete (value : Json) : List Frame → Option (List Frame × Awaited)
  | [] => some ([], .nothing value)
  | .items back :: rest => some (.items (value :: back) :: rest, .separator)
  | .field done key :: rest => some (.fields (done.put key value) :: rest, .separator)
  | .fields _ :: _ => none

/-- How deep arrays and objects may nest. -/
def depthLimit : Nat := 127

/-- Opens an array or object, unless it would nest too deep. -/
def openFrame (frame : Frame) (awaited : Awaited) (stack : List Frame) :
    Option (List Frame × Awaited) :=
  if stack.length < depthLimit then some (frame :: stack, awaited) else none

/-- The step for a token that begins a value. -/
def beginValue (stack : List Frame) : Token → Option (List Frame × Awaited)
  | .openArray => openFrame (.items []) .item stack
  | .openObject => openFrame (.fields []) .firstKey stack
  | .scalar value => complete value stack
  | _ => none

/-- Closes the innermost array or object. -/
def close (token : Token) (stack : List Frame) : Option (List Frame × Awaited) :=
  match token, stack with
  | .closeArray, .items back :: rest => complete (.array back.reverse) rest
  | .closeObject, .fields done :: rest => complete (.object done) rest
  | _, _ => none

/-- One step of the assembler. -/
def assembleStep (stack : List Frame) (awaited : Awaited) (token : Token) :
    Option (List Frame × Awaited) :=
  match awaited, token with
  | .item, .closeArray => close token stack
  | .item, _ | .value, _ => beginValue stack token
  | .firstKey, .closeObject => close token stack
  | .firstKey, .scalar (.string key) | .key, .scalar (.string key) =>
    match stack with
    | .fields done :: rest => some (.field done key :: rest, .colon)
    | _ => none
  | .colon, .colon => some (stack, .value)
  | .separator, .comma =>
    match stack with
    | .items _ :: _ => some (stack, .value)
    | .fields _ :: _ => some (stack, .key)
    | _ => none
  | .separator, _ => close token stack
  | _, _ => none

/-- The value spelled by the tokens from the given point on. -/
def assembleFrom? (stack : List Frame) (awaited : Awaited) : List Token → Option Json
  | [] =>
    match awaited with
    | .nothing value => some value
    | _ => none
  | token :: rest =>
    match assembleStep stack awaited token with
    | none => none
    | some (stack, awaited) => assembleFrom? stack awaited rest

/-- The value that a list of tokens spells. -/
def assemble? (tokens : List Token) : Option Json := assembleFrom? [] .value tokens

/-- The value that a text spells. -/
def parse? (s : String) : Option Json := (scan? s).bind assemble?

end FederatedQuery.Json
