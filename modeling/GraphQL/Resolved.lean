import GraphQL.Response
import GraphQL.Selection.Collection

/-! What resolvers work with: the values they return, the errors they report, and what they are told
about the field being resolved. A service has objects and list items of its own, known to execution
only by what they resolve to. -/

namespace GraphQL

/-- A value before it is completed according to its type: plain JSON, an object of the service, or
a list whose items are pulled one by one. -/
inductive Resolved (Object Item : Type) where
  | json (value : Json)
  | object (object : Object)
  | list (items : List Item)

namespace Resolved

variable {Object Item : Type}

def isNull : Resolved Object Item → Bool
  | .json value => value.isNull
  | _ => false

/-- How a value is shown in messages. -/
def display : Resolved Object Item → String
  | .json value => value.write
  | .object _ => "\x7bobject\x7d"
  | .list _ => "[list]"

end Resolved

/-- An error that a resolver reports, to be shown to the client. -/
structure ResolverError where
  message : String
  extensions : Members := []

abbrev ResolverResult (Object Item : Type) := Except ResolverError (Resolved Object Item)

/-- What stays the same during the execution of a request. -/
structure RequestContext (Object Item : Type) where
  schema : Schema
  operation : Operation
  variableValues : Members
  fragments : Catalog Fragment
  root : Resolved Object Item

/-- What a hook is told about the field being resolved. -/
structure ResolveInfo (Object Item : Type) where
  request : RequestContext Object Item
  parent : ObjectType
  definition : FieldDefinition
  group : FieldGroup
  path : Path

def ResolveInfo.fieldName {Object Item : Type} (info : ResolveInfo Object Item) : String :=
  info.group.first.name

/-- How the service's own objects and list items behave. Each call may change the service's
state. -/
structure Service (State Object Item : Type) where
  resolveField : Object → Members → ResolveInfo Object Item →
    StateM State (ResolverResult Object Item)
  pull : Item → StateM State (ResolverResult Object Item)

/-- Resolves a field of a source, given the field's coerced arguments. -/
abbrev Resolver (State Object Item : Type) :=
  Resolved Object Item → Members → ResolveInfo Object Item →
    StateM State (ResolverResult Object Item)

/-- Gives the response form of a leaf value, or `none` if it has no such form. -/
abbrev Serializer (State : Type) := Json → StateM State (Option Json)

/-- Names the object type of a value of an abstract type. -/
abbrev TypeResolver (State Object Item : Type) :=
  Resolved Object Item → ResolveInfo Object Item → StateM State (Option String)

/-- Tells whether a value belongs to an object type. -/
abbrev TypePredicate (State Object Item : Type) :=
  Resolved Object Item → ResolveInfo Object Item → StateM State Bool

/-- Lets the service's objects resolve their own fields, reads members of JSON objects, and finds
null in everything else. -/
def Service.defaultResolver {State Object Item : Type} (service : Service State Object Item) :
    Resolver State Object Item := fun source arguments info =>
  match source with
  | .object object => service.resolveField object arguments info
  | .json (.object members) => pure (.ok (.json ((Entries.get? info.fieldName members).getD .null)))
  | _ => pure (.ok (.json .null))

end GraphQL
