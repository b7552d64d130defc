import GraphQL.Catalog
import GraphQL.Literal.Basic
import GraphQL.TypeRef

/-! Schemas: the types that a service defines, with the questions that execution asks about them.
A schema need not be valid; a name may refer to nothing or to a type of the wrong kind. -/

namespace GraphQL

/-- An argument of a field or directive, or a field of an input object type. -/
structure InputValue where
  name : String
  type : TypeRef
  default? : Option Literal := none

instance : Named InputValue := ⟨InputValue.name⟩

structure FieldDefinition where
  name : String
  type : TypeRef
  arguments : List InputValue := []

instance : Named FieldDefinition := ⟨FieldDefinition.name⟩

structure ObjectType where
  name : String
  interfaces : Catalog String := .empty
  fields : Catalog FieldDefinition

structure InterfaceType where
  name : String
  fields : Catalog FieldDefinition

structure UnionType where
  name : String
  members : Catalog String

structure EnumType where
  name : String
  values : Catalog String

structure InputObjectType where
  name : String
  fields : Catalog InputValue

inductive TypeDefinition where
  | scalar (name : String)
  | object (type : ObjectType)
  | interface (type : InterfaceType)
  | union (type : UnionType)
  | enum (type : EnumType)
  | inputObject (type : InputObjectType)

def TypeDefinition.name : TypeDefinition → String
  | .scalar name => name
  | .object type => type.name
  | .interface type => type.name
  | .union type => type.name
  | .enum type => type.name
  | .inputObject type => type.name

instance : Named TypeDefinition := ⟨TypeDefinition.name⟩

structure DirectiveDefinition where
  name : String
  arguments : List InputValue

instance : Named DirectiveDefinition := ⟨DirectiveDefinition.name⟩

inductive OperationKind where
  | query
  | mutation
  | subscription
deriving DecidableEq

def OperationKind.write : OperationKind → String
  | .query => "query"
  | .mutation => "mutation"
  | .subscription => "subscription"

structure Schema where
  query? : Option String
  mutation? : Option String := none
  subscription? : Option String := none
  types : Catalog TypeDefinition
  directives : Catalog DirectiveDefinition := .empty

namespace TypeDefinition

/-- Whether values of the type have no parts of their own: scalars and enums. -/
def isLeaf : TypeDefinition → Bool
  | .scalar _ => true
  | .enum _ => true
  | _ => false

/-- Whether a value of the type belongs to one of several object types. -/
def isAbstract : TypeDefinition → Bool
  | .interface _ => true
  | .union _ => true
  | _ => false

def isInput : TypeDefinition → Bool
  | .scalar _ => true
  | .enum _ => true
  | .inputObject _ => true
  | _ => false

def object? : TypeDefinition → Option ObjectType
  | .object type => some type
  | _ => none

/-- The field that the type itself declares. -/
def ownField? : TypeDefinition → String → Option FieldDefinition
  | .object type, name => type.fields.find? name
  | .interface type, name => type.fields.find? name
  | _, _ => none

end TypeDefinition

/-- The field that every value of a composite type has: the name of its object type. -/
def typenameField : FieldDefinition := { name := "__typename", type := .named "String" true }

/-- The fields that only the query root type has beside its own. -/
def introspectionField? : String → Option FieldDefinition
  | "__schema" => some { name := "__schema", type := .named "__Schema" true }
  | "__type" =>
    some
      { name := "__type"
        type := .named "__Type" false
        arguments := [{ name := "name", type := .named "String" true }] }
  | _ => none

namespace Schema

def type? (schema : Schema) (name : String) : Option TypeDefinition := schema.types.find? name

def object? (schema : Schema) (name : String) : Option ObjectType :=
  (schema.type? name).bind TypeDefinition.object?

def rootName? (schema : Schema) : OperationKind → Option String
  | .query => schema.query?
  | .mutation => schema.mutation?
  | .subscription => schema.subscription?

/-- The object type at the root of operations of a kind. -/
def rootType? (schema : Schema) (kind : OperationKind) : Option ObjectType :=
  (schema.rootName? kind).bind schema.object?

/-- The field of that name that the type declares, or that it has without declaring it. -/
def field? (schema : Schema) (typeName fieldName : String) : Option FieldDefinition :=
  (schema.type? typeName).bind fun definition =>
    match definition.ownField? fieldName with
    | some field => some field
    | none =>
      if fieldName = "__typename" ∧ (definition.isAbstract ∨ definition.object?.isSome) then
        some typenameField
      else if schema.query? = some typeName then introspectionField? fieldName
      else none

/-- The object types that declare an interface, in the order of the schema. -/
def implementers (schema : Schema) (interfaceName : String) : List ObjectType :=
  (schema.types.entries.filterMap TypeDefinition.object?).filter
    fun type => type.interfaces.contains interfaceName

/-- The object types of an abstract type's values: the implementers of an interface, or the
members of a union in the order of its definition. -/
def possibleTypes (schema : Schema) (abstractName : String) : List ObjectType :=
  match schema.type? abstractName with
  | some (.interface _) => schema.implementers abstractName
  | some (.union type) => type.members.entries.filterMap schema.object?
  | _ => []

/-- Whether an interface is declared by the object type, or a union names it as a member. -/
def isPossibleType (schema : Schema) (abstractName objectName : String) : Bool :=
  match schema.type? abstractName with
  | some (.interface _) =>
    (schema.object? objectName).any fun type => type.interfaces.contains abstractName
  | some (.union type) => type.members.contains objectName
  | _ => false

/-- Whether a type reference names a type whose values a client may send. -/
def isInputType (schema : Schema) (type : TypeRef) : Bool :=
  (schema.type? type.innerName).any TypeDefinition.isInput

end Schema

end GraphQL
