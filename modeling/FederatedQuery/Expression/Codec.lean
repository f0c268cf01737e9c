import FederatedQuery.Expression.Validate
import FederatedQuery.Value.Codec

/-!
# The canonical form of expressions

In documents a node is a record with the tag `op`, the name of its operation, and with
its children and arguments as fields. Inside another record the tag may also be the
position of the operation in the list of all operations.

## Main definitions

* `Expression.toJson`: writes the canonical form.
* `Expression.ofJson?`: reads it, without looking at the rules of the algebra.
* `Expression.read`: reads it and checks the rules.
-/

namespace FederatedQuery

/-- The names of the fields of a node, in their fixed order. -/
def Op.fieldNames : Op → List String
  | .literal => ["value"]
  | .ref => ["name"]
  | .filter => ["operand", "expression"]
  | .split => ["operand", "expression", "name"]
  | .apply => ["operand", "expression", "name"]
  | .sort => ["operand", "expression", "direction"]
  | .limit => ["operand", "value"]
  | .count => ["operand"]
  | .not => ["operand"]
  | .regex => ["operand", "regexp"]
  | .timeBucket => ["operand", "duration"]
  | .binary _ => ["operand", "expression"]

/-- Reads the direction of a sort, which is always nested in a node. -/
def Direction.ofJson? (j : Json) : Option Direction := (j.choice? true).bind ofName?

namespace Expression

/-- A node as a record. -/
def node (op : Op) (fields : Json.Fields) : Json :=
  .object (("op", .string op.name) :: fields)

/-- The canonical form of an expression. -/
def toJson : Expression → Json
  | .literal value => node .literal [("value", value.toJson)]
  | .ref name => node .ref [("name", .string name)]
  | .filter operand predicate =>
    node .filter [("operand", operand.toJson), ("expression", predicate.toJson)]
  | .split operand key name =>
    node .split
      [("operand", operand.toJson), ("expression", key.toJson), ("name", .string name)]
  | .apply operand body name =>
    node .apply
      [("operand", operand.toJson), ("expression", body.toJson), ("name", .string name)]
  | .sort operand key direction =>
    node .sort
      [("operand", operand.toJson), ("expression", key.toJson),
        ("direction", .string direction.name)]
  | .limit operand rows => node .limit [("operand", operand.toJson), ("value", .ofWord rows)]
  | .count operand => node .count [("operand", operand.toJson)]
  | .not operand => node .not [("operand", operand.toJson)]
  | .regex operand regexp =>
    node .regex [("operand", operand.toJson), ("regexp", .string regexp)]
  | .timeBucket operand duration =>
    node .timeBucket [("operand", operand.toJson), ("duration", .string duration)]
  | .binary op operand argument =>
    node (.binary op) [("operand", operand.toJson), ("expression", argument.toJson)]

/-- Reads an expression; `nested` tells whether it stands inside another record. -/
def ofJson? (nested : Bool) (j : Json) : Option Expression := do
  let op ← (j.tag? "op").bind fun tag => tag.tagged? nested Op.ofName? Op.all
  let r ← j.contents? op.fieldNames
  let text (key : String) := r.required key fun part => part.val.text?
  match op with
  | .literal => r.required "value" fun part => (Value.ofJson? true part.val).map .literal
  | .ref => (text "name").map .ref
  | op =>
    let operand ← r.required "operand" fun part => ofJson? true part.val
    match op with
    | .count => some (.count operand)
    | .not => some (.not operand)
    | .limit => r.required "value" fun part => part.val.word?.map (.limit operand)
    | .regex => (text "regexp").map (.regex operand)
    | .timeBucket => (text "duration").map (.timeBucket operand)
    | op =>
      let argument ← r.required "expression" fun part => ofJson? true part.val
      match op with
      | .filter => some (.filter operand argument)
      | .split => (text "name").map (.split operand argument)
      | .apply => (text "name").map (.apply operand argument)
      | .sort =>
        r.required "direction" fun part =>
          (Direction.ofJson? part.val).map (.sort operand argument)
      | .binary op => some (.binary op operand argument)
      | _ => none
termination_by sizeOf j
decreasing_by all_goals exact part.property

/-- Reads an expression and checks the rules of the algebra. -/
def read (j : Json) : Except Malformation Expression :=
  match ofJson? false j with
  | none => .error .shape
  | some e => e.validate.map fun _ => e

end Expression

end FederatedQuery
