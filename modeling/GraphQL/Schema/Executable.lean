import GraphQL.Coercion.Scalar
import GraphQL.Resolved

/-! Executable schemas: a schema with the hooks of a service attached to its types. Each hook has
its place, and the last hook given for a place is the one that counts. -/

namespace GraphQL

inductive TypeKind where
  | scalar
  | object
  | interface
  | union
  | enum
  | inputObject
deriving DecidableEq

def TypeDefinition.kind : TypeDefinition → TypeKind
  | .scalar _ => .scalar
  | .object _ => .object
  | .interface _ => .interface
  | .union _ => .union
  | .enum _ => .enum
  | .inputObject _ => .inputObject

def TypeKind.describe : TypeKind → String
  | .scalar => "a scalar type"
  | .object => "an object type"
  | .interface => "an interface type"
  | .union => "a union type"
  | .enum => "an enum type"
  | .inputObject => "an input object type"

/-- Where a hook belongs: at a field of a type, or at a type. -/
inductive HookPlace where
  | resolver (type field : String)
  | serializer (type : String)
  | typeResolver (type : String)
  | typePredicate (type : String)
deriving DecidableEq

/-- The names that a place is given by. -/
def HookPlace.names : HookPlace → List String
  | .resolver type field => [type, field]
  | .serializer type => [type]
  | .typeResolver type => [type]
  | .typePredicate type => [type]

/-- A hook together with its place. -/
inductive Hook (State Object Item : Type) where
  | resolver (type field : String) (run : Resolver State Object Item)
  | serializer (type : String) (run : Serializer State)
  | typeResolver (type : String) (run : TypeResolver State Object Item)
  | typePredicate (type : String) (run : TypePredicate State Object Item)

/-- Why a hook does not fit a schema. -/
inductive HookError where
  | invalidName (name : String)
  | undefinedType (name : String)
  | undefinedField (type field : String)
  | notLeafType (name : String) (kind : TypeKind)
  | notAbstractType (name : String) (kind : TypeKind)
  | notObjectType (name : String) (kind : TypeKind)
deriving DecidableEq

def HookError.message : HookError → String
  | invalidName name => "name `" ++ name ++ "` is not a valid GraphQL name"
  | undefinedType name => "type `" ++ name ++ "` is not defined in the schema"
  | undefinedField type field =>
    "field `" ++ type ++ "." ++ field ++ "` is not defined in the schema"
  | notLeafType name kind =>
    "a serializer is only allowed for scalar and enum types, but `" ++ name ++ "` is " ++
      kind.describe
  | notAbstractType name kind =>
    "a type resolver is only allowed for interface and union types, but `" ++ name ++ "` is " ++
      kind.describe
  | notObjectType name kind =>
    "an is-type-of predicate is only allowed for object types, but `" ++ name ++ "` is " ++
      kind.describe

variable {State Object Item : Type}

def Hook.place : Hook State Object Item → HookPlace
  | .resolver type field _ => .resolver type field
  | .serializer type _ => .serializer type
  | .typeResolver type _ => .typeResolver type
  | .typePredicate type _ => .typePredicate type

namespace Schema

def checkName (name : String) : Except HookError Unit :=
  if isName name then .ok () else .error (.invalidName name)

def definedType (schema : Schema) (name : String) : Except HookError TypeDefinition :=
  match schema.type? name with
  | some definition => .ok definition
  | none => .error (.undefinedType name)

def checkObjectType (schema : Schema) (type : String) : Except HookError Unit := do
  let definition ← schema.definedType type
  if definition.object?.isSome then .ok () else .error (.notObjectType type definition.kind)

/-- Checks names, then that the type is defined and of the right kind, then its field. -/
def checkPlace (schema : Schema) : HookPlace → Except HookError Unit
  | .resolver type field => do
    checkName type
    checkName field
    schema.checkObjectType type
    if (schema.field? type field).isSome then .ok () else .error (.undefinedField type field)
  | .serializer type => do
    checkName type
    let definition ← schema.definedType type
    if definition.isLeaf then .ok () else .error (.notLeafType type definition.kind)
  | .typeResolver type => do
    checkName type
    let definition ← schema.definedType type
    if definition.isAbstract then .ok () else .error (.notAbstractType type definition.kind)
  | .typePredicate type => do
    checkName type
    schema.checkObjectType type

end Schema

/-- A schema with tables of hooks, by type. Resolvers are by field within their type. -/
structure ExecutableSchema (State Object Item : Type) where
  schema : Schema
  resolvers : List (String × List (String × Resolver State Object Item)) := []
  serializers : List (String × Serializer State) := []
  typeResolvers : List (String × TypeResolver State Object Item) := []
  typePredicates : List (String × TypePredicate State Object Item) := []

namespace ExecutableSchema

def resolver? (executable : ExecutableSchema State Object Item) (type field : String) :
    Option (Resolver State Object Item) :=
  (Entries.get? type executable.resolvers).bind (Entries.get? field)

def serializer? (executable : ExecutableSchema State Object Item) (type : String) :
    Option (Serializer State) :=
  Entries.get? type executable.serializers

def typeResolver? (executable : ExecutableSchema State Object Item) (type : String) :
    Option (TypeResolver State Object Item) :=
  Entries.get? type executable.typeResolvers

def typePredicate? (executable : ExecutableSchema State Object Item) (type : String) :
    Option (TypePredicate State Object Item) :=
  Entries.get? type executable.typePredicates

/-- Puts a hook into its place. -/
def attach (executable : ExecutableSchema State Object Item) :
    Hook State Object Item → ExecutableSchema State Object Item
  | .resolver type field run =>
    let ofType := Entries.insert field run ((Entries.get? type executable.resolvers).getD [])
    { executable with resolvers := Entries.insert type ofType executable.resolvers }
  | .serializer type run =>
    { executable with serializers := Entries.insert type run executable.serializers }
  | .typeResolver type run =>
    { executable with typeResolvers := Entries.insert type run executable.typeResolvers }
  | .typePredicate type run =>
    { executable with typePredicates := Entries.insert type run executable.typePredicates }

/-- The response form of a value of a leaf type: by the hook for the type if there is one, or else
by the rules of built-in scalars and enums. Other scalars take every value as it is. -/
def serialize? (executable : ExecutableSchema State Object Item) (definition : TypeDefinition)
    (value : Json) : StateM State (Option Json) :=
  match executable.serializer? definition.name, definition with
  | some run, _ => run value
  | none, .scalar name =>
    match BuiltInScalar.ofName? name with
    | some scalar => pure (scalar.serialize? value)
    | none => pure (some value)
  | none, .enum type =>
    match value with
    | .string s => pure (if type.values.contains s then some value else none)
    | _ => pure none
  | none, _ => pure none

end ExecutableSchema

/-- An executable schema under construction. Every hook leaves a note of its place, to be checked in
the end, and is attached at once if its names are names at all. -/
structure SchemaBuilder (State Object Item : Type) where
  executable : ExecutableSchema State Object Item
  places : List HookPlace := []

namespace SchemaBuilder

def add (builder : SchemaBuilder State Object Item) (hook : Hook State Object Item) :
    SchemaBuilder State Object Item where
  executable :=
    if hook.place.names.all isName then builder.executable.attach hook else builder.executable
  places := builder.places ++ [hook.place]

/-- Checks the places of all hooks, also of those that have been replaced by later ones. -/
def build (builder : SchemaBuilder State Object Item) :
    Except HookError (ExecutableSchema State Object Item) := do
  builder.places.forM builder.executable.schema.checkPlace
  .ok builder.executable

end SchemaBuilder

/-- Attaches hooks to a schema, unless one of them does not fit. -/
def ExecutableSchema.build (schema : Schema) (hooks : List (Hook State Object Item)) :
    Except HookError (ExecutableSchema State Object Item) :=
  (hooks.foldl SchemaBuilder.add { executable := { schema } }).build

end GraphQL
