import FederatedQuery.Expression.Error
import FederatedQuery.Time.Period

/-!
# Building expressions

One function for every operation of the algebra that has a rule of its own. An operation
without one, such as a filter or a sum, is built by its constructor.

## Main definitions

* `Expression.ofValue`, `Expression.ply`: literals.
* `Expression.splitBy`, `applyAs`, `sortBy`, `limitTo`, `matching`, `bucketedBy`: the
  operations with a rule.
* `TimeRange.of`, `Period.parse`, `Direction.parse`: their arguments.
-/

namespace FederatedQuery

/-- The direction with the given name. -/
def Direction.parse (name : String) : Except Malformation Direction :=
  match ofName? name with
  | some direction => .ok direction
  | none => .error (.unknownDirection name)

/-- The range from `start` to `stop`, which must not end before it starts. -/
def TimeRange.of (start stop : Instant) : Except Malformation TimeRange :=
  match of? start stop with
  | some range => .ok range
  | none => .error (.reversedRange start stop)

/-- The period that a text gives. -/
def Period.parse (text : String) : Except Malformation Period :=
  match parse? text with
  | some period => .ok period
  | none => .error (.invalidPeriod text)

namespace Expression

/-- A literal; a number that is not finite becomes `null`. -/
def ofValue : Value → Expression
  | .number x => .literal (.ofDouble x)
  | value => .literal value

/-- The dataset of one empty row, onto which results are applied. -/
def ply : Expression := .literal (.dataset [[]])

/-- The operand grouped by a key, which needs a name and must be neither an aggregate nor
a dataset. -/
def splitBy (operand key : Expression) (name : String) : Except Malformation Expression :=
  if name.isEmpty then .error (.emptyName "split")
  else if key.isAggregate || key.isDatasetLiteral then .error (.splitKey key)
  else .ok (.split operand key name)

/-- The operand with one more result, which needs a name. -/
def applyAs (operand : Expression) (name : String) (body : Expression) :
    Except Malformation Expression :=
  if name.isEmpty then .error (.emptyName "apply") else .ok (.apply operand body name)

/-- The operand in the order of a key, which must be a reference. -/
def sortBy (operand key : Expression) (direction : Direction) :
    Except Malformation Expression :=
  if key.isRef then .ok (.sort operand key direction) else .error (.sortKey key)

/-- The first rows of the operand; their number, of 64 bits with a sign, must not be
negative. -/
def limitTo (operand : Expression) (rows : Int) : Except Malformation Expression :=
  if rows < 0 then .error (.negativeLimit rows)
  else .ok (.limit operand (UInt64.ofNat rows.toNat))

/-- Whether the operand matches a regular expression, which must not be empty. -/
def matching (operand : Expression) (regexp : String) : Except Malformation Expression :=
  if regexp.isEmpty then .error .emptyRegexp else .ok (.regex operand regexp)

/-- The bucket of the operand, for a period given by its text. -/
def bucketedBy (operand : Expression) (duration : String) : Except Malformation Expression :=
  (Period.parse duration).map fun _ => .timeBucket operand duration

end Expression

end FederatedQuery
