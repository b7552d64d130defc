import GraphQL.Coercion.Reason
import GraphQL.Entries
import GraphQL.Schema.Basic

/-! The parts of input coercion that do not depend on whether a value is JSON or a literal: lists of
one item, and the fields of input objects. -/

namespace GraphQL.Coercion

/-- Where a list is expected, a value that is no list stands for a list of one item. -/
def singleItem (coerce : String → Bool → Except Reason Json) : TypeRef → Except Reason Json
  | .named name nonNull => coerce name nonNull
  | .list item _ => (singleItem coerce item).map fun value => .array [value]

/-- The first key that names no field of the type. -/
def undefinedField? (type : InputObjectType) (keys : List String) : Option String :=
  keys.find? fun key => !type.fields.contains key

/-- Takes the fields of an input object in the order of their definitions: the provided value, or
else the default, or else nothing unless the field is required. -/
def fillFields (owner : String) (default : TypeRef → Literal → Except Reason Json)
    (provided? : InputValue → Option (Except Reason Json)) :
    List InputValue → Except Reason Members
  | [] => .ok []
  | field :: rest =>
    match provided? field, field.default? with
    | some coerced, _ => do
      let value ← coerced
      let others ← fillFields owner default provided? rest
      .ok ((field.name, value) :: others)
    | none, some literal => do
      let value ← default field.type literal
      let others ← fillFields owner default provided? rest
      .ok ((field.name, value) :: others)
    | none, none =>
      if field.type.nonNull then .error (.missingField owner field.name field.type)
      else fillFields owner default provided? rest

/-- Coerces an input object from the keys that were written and the value for each field. -/
def fillObject (type : InputObjectType) (default : TypeRef → Literal → Except Reason Json)
    (keys : List String) (provided? : InputValue → Option (Except Reason Json)) :
    Except Reason Json :=
  match undefinedField? type keys with
  | some key => .error (.undefinedField key type.name)
  | none => (fillFields type.name default provided? type.fields.entries).map .object

end GraphQL.Coercion
