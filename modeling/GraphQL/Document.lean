import GraphQL.Schema.Basic

/-! Documents: the operations and fragments that a client sends, as read from their text. A
document need not fit any schema. -/

namespace GraphQL

/-- Where a node starts in the text of its document, both counted from one. -/
structure Location where
  line : Nat
  column : Nat
deriving DecidableEq

structure Directive where
  name : String
  arguments : List (String × Literal) := []

/-- A field selection without its sub-selections. -/
structure FieldHead where
  alias? : Option String := none
  name : String
  location : Location
  arguments : List (String × Literal) := []
  directives : List Directive := []

/-- The key of the field in a response. -/
def FieldHead.key (head : FieldHead) : String := head.alias?.getD head.name

inductive Selection where
  | field (head : FieldHead) (selections : List Selection)
  | spread (fragment : String) (directives : List Directive)
  | inlineFragment (condition? : Option String) (directives : List Directive)
      (selections : List Selection)

/-- A field selection together with its sub-selections. -/
structure FieldNode extends FieldHead where
  selections : List Selection

structure Fragment where
  name : String
  condition : String
  selections : List Selection

structure VariableDefinition where
  name : String
  type : TypeRef
  default? : Option Literal := none
  location : Location

structure Operation where
  kind : OperationKind
  name? : Option String := none
  location : Location
  variableDefinitions : List VariableDefinition := []
  selections : List Selection

/-- The definitions that describe a service and have no place in a request. -/
inductive TypeSystemDefinition where
  | directiveDefinition
  | schemaDefinition
  | scalarDefinition
  | objectDefinition
  | interfaceDefinition
  | unionDefinition
  | enumDefinition
  | inputObjectDefinition
  | schemaExtension
  | scalarExtension
  | objectExtension
  | interfaceExtension
  | unionExtension
  | enumExtension
  | inputObjectExtension
deriving DecidableEq

namespace TypeSystemDefinition

def all : List TypeSystemDefinition :=
  [ directiveDefinition, schemaDefinition, scalarDefinition, objectDefinition,
    interfaceDefinition, unionDefinition, enumDefinition, inputObjectDefinition, schemaExtension,
    scalarExtension, objectExtension, interfaceExtension, unionExtension, enumExtension,
    inputObjectExtension ]

def write : TypeSystemDefinition → String
  | directiveDefinition => "DirectiveDefinition"
  | schemaDefinition => "SchemaDefinition"
  | scalarDefinition => "ScalarTypeDefinition"
  | objectDefinition => "ObjectTypeDefinition"
  | interfaceDefinition => "InterfaceTypeDefinition"
  | unionDefinition => "UnionTypeDefinition"
  | enumDefinition => "EnumTypeDefinition"
  | inputObjectDefinition => "InputObjectTypeDefinition"
  | schemaExtension => "SchemaExtension"
  | scalarExtension => "ScalarTypeExtension"
  | objectExtension => "ObjectTypeExtension"
  | interfaceExtension => "InterfaceTypeExtension"
  | unionExtension => "UnionTypeExtension"
  | enumExtension => "EnumTypeExtension"
  | inputObjectExtension => "InputObjectTypeExtension"

def read? (text : String) : Option TypeSystemDefinition := all.find? fun kind => kind.write = text

end TypeSystemDefinition

inductive Definition where
  | operation (operation : Operation)
  | fragment (fragment : Fragment)
  | typeSystem (kind : TypeSystemDefinition) (location : Location)

abbrev Document := List Definition

end GraphQL
