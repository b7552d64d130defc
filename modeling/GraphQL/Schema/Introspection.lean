import GraphQL.Schema.Basic

/-! The types that describe a schema to its clients. Every schema has them before its own types. -/

namespace GraphQL.Introspection

def nullable (name : String) : TypeRef := .named name false

def required (name : String) : TypeRef := .named name true

def listOf (name : String) : TypeRef := .list (required name) false

def requiredListOf (name : String) : TypeRef := .list (required name) true

def plain (name : String) (type : TypeRef) : FieldDefinition := { name, type }

/-- A field that leaves deprecated entries out unless asked for them. -/
def deprecable (name : String) (type : TypeRef) : FieldDefinition :=
  { name
    type
    arguments :=
      [ { name := "includeDeprecated"
          type := nullable "Boolean"
          default? := some (.bool false) } ] }

def object (name : String) (fields : List FieldDefinition) : TypeDefinition :=
  .object { name, fields := .ofList fields }

def enumeration (name : String) (values : List String) : TypeDefinition :=
  .enum { name, values := .ofList values }

def types : List TypeDefinition :=
  [ object "__Schema"
      [ plain "description" (nullable "String"),
        plain "types" (requiredListOf "__Type"),
        plain "queryType" (required "__Type"),
        plain "mutationType" (nullable "__Type"),
        plain "subscriptionType" (nullable "__Type"),
        plain "directives" (requiredListOf "__Directive") ],
    object "__Type"
      [ plain "kind" (required "__TypeKind"),
        plain "name" (nullable "String"),
        plain "description" (nullable "String"),
        deprecable "fields" (listOf "__Field"),
        plain "interfaces" (listOf "__Type"),
        plain "possibleTypes" (listOf "__Type"),
        deprecable "enumValues" (listOf "__EnumValue"),
        deprecable "inputFields" (listOf "__InputValue"),
        plain "ofType" (nullable "__Type"),
        plain "specifiedByURL" (nullable "String") ],
    enumeration "__TypeKind"
      ["SCALAR", "OBJECT", "INTERFACE", "UNION", "ENUM", "INPUT_OBJECT", "LIST", "NON_NULL"],
    object "__Field"
      [ plain "name" (required "String"),
        plain "description" (nullable "String"),
        deprecable "args" (requiredListOf "__InputValue"),
        plain "type" (required "__Type"),
        plain "isDeprecated" (required "Boolean"),
        plain "deprecationReason" (nullable "String") ],
    object "__InputValue"
      [ plain "name" (required "String"),
        plain "description" (nullable "String"),
        plain "type" (required "__Type"),
        plain "defaultValue" (nullable "String"),
        plain "isDeprecated" (required "Boolean"),
        plain "deprecationReason" (nullable "String") ],
    object "__EnumValue"
      [ plain "name" (required "String"),
        plain "description" (nullable "String"),
        plain "isDeprecated" (required "Boolean"),
        plain "deprecationReason" (nullable "String") ],
    object "__Directive"
      [ plain "name" (required "String"),
        plain "description" (nullable "String"),
        plain "locations" (requiredListOf "__DirectiveLocation"),
        deprecable "args" (requiredListOf "__InputValue"),
        plain "isRepeatable" (required "Boolean") ],
    enumeration "__DirectiveLocation"
      [ "QUERY", "MUTATION", "SUBSCRIPTION", "FIELD", "FRAGMENT_DEFINITION", "FRAGMENT_SPREAD",
        "INLINE_FRAGMENT", "VARIABLE_DEFINITION", "SCHEMA", "SCALAR", "OBJECT",
        "FIELD_DEFINITION", "ARGUMENT_DEFINITION", "INTERFACE", "UNION", "ENUM", "ENUM_VALUE",
        "INPUT_OBJECT", "INPUT_FIELD_DEFINITION" ] ]

end GraphQL.Introspection

namespace GraphQL

/-- A catalog of a schema's own types after the introspection types. -/
def Schema.catalog (own : List TypeDefinition) : Catalog TypeDefinition :=
  .ofList (Introspection.types ++ own)

end GraphQL
