import FederatedQuery.Attribute.Maker

/-!
# Attributes

An attribute is a column of a datasource: its name, the kind of its values, the
backend's own name for that kind, whether it can be split by, and how it combines.

## Main definitions

* `Attribute`: the type.
* `Attribute.toJson`, `Attribute.ofJson?`: the form in documents.
-/

namespace FederatedQuery

/-- A column of a datasource. -/
structure Attribute where
  name : String
  kind : Kind
  /-- The backend's name for the kind of the column. -/
  nativeType : Option String
  /-- Whether the column is a metric, by which rows cannot be grouped or filtered. -/
  unsplitable : Bool
  maker : Option Maker

namespace Attribute

/-- A column that can be split by. -/
def plain (name : String) (kind : Kind) (nativeType : String) : Attribute :=
  ⟨name, kind, some nativeType, false, none⟩

/-- The column that a list has under the given name. -/
def find? (attributes : List Attribute) (name : String) : Option Attribute :=
  List.find? (fun column => column.name == name) attributes

/-- The form of an attribute in documents. -/
def toJson (a : Attribute) : Json :=
  .object
    ([("name", .string a.name), ("type", .string a.kind.name)] ++
      Json.field? "nativeType" (a.nativeType.map .string) ++
      Json.field? "unsplitable" (if a.unsplitable then some (.bool true) else none) ++
      Json.field? "maker" (a.maker.map Maker.toJson))

/-- Reads an attribute. -/
def ofJson? (j : Json) : Option Attribute := do
  let r ← j.record? ["name", "type", "nativeType", "unsplitable", "maker"]
  let name ← r.required "name" fun part => part.val.text?
  let kind ← r.required "type" fun part => (part.val.choice? false).bind Kind.ofName?
  let nativeType ← r.absentOr "nativeType" fun part => part.val.text?
  let unsplitable ← r.withDefault "unsplitable" false fun part => part.val.bool?
  let maker ← r.absentOr "maker" fun part => Maker.ofJson? part.val
  some ⟨name, kind, nativeType, unsplitable, maker⟩

end Attribute

end FederatedQuery
