import GraphQL.Coercion.Arguments
import GraphQL.Resolved

/-! What can go wrong at one place of the response, and how it is reported to the client. -/

namespace GraphQL

inductive Failure where
  | arguments (error : ArgumentError)
  | resolver (error : ResolverError)
  | noIntrospection
  | nullNotAllowed (parent field : String)
  | notIterable (parent field : String)
  | unknownType (name : String)
  | inputTypeAsOutput (name : String)
  | notSerializable (type value : String)
  | unresolvedType (abstract parent field : String)
  | resolvedToNoObject (abstract parent field value resolved : String)
  | notPossibleType (abstract resolved : String)
  | rejectedByType (type value : String)

namespace Failure

def fieldOf (parent field : String) : String := "field " ++ parent ++ "." ++ field

def message : Failure → String
  | arguments error => error.message
  | resolver error => error.message
  | noIntrospection => "Schema introspection is not provided by this executor."
  | nullNotAllowed parent field =>
    "Cannot return null for non-nullable " ++ fieldOf parent field ++ "."
  | notIterable parent field =>
    "Expected Iterable, but did not find one for " ++ fieldOf parent field ++ "."
  | unknownType name => "Unknown type " ++ quoted name ++ "."
  | inputTypeAsOutput name =>
    "Input object type " ++ quoted name ++ " cannot be used as an output type."
  | notSerializable type value =>
    "Expected a value of type " ++ quoted type ++ " but received: " ++ value
  | unresolvedType abstract parent field =>
    "Abstract type " ++ quoted abstract ++ " must resolve to an Object type at runtime for " ++
      fieldOf parent field ++ ". Either the " ++ quoted abstract ++
      " type should provide a type resolver or each possible type should provide an is-type-of" ++
      " predicate."
  | resolvedToNoObject abstract parent field value resolved =>
    "Abstract type " ++ abstract ++ " must resolve to an Object type at runtime for " ++
      fieldOf parent field ++ " with value " ++ value ++ ", received " ++ quoted resolved ++ "."
  | notPossibleType abstract resolved =>
    "Runtime Object type " ++ quoted resolved ++ " is not a possible type for " ++
      quoted abstract ++ "."
  | rejectedByType type value =>
    "Expected value of type " ++ quoted type ++ " but got: " ++ value ++ "."

/-- Only resolvers add anything to the message. -/
def extensions : Failure → Members
  | resolver error => error.extensions
  | _ => []

end Failure

/-- A failure at a place of the response, with every field node that asked for that place. -/
structure FieldError where
  failure : Failure
  path : Path
  locations : List Location

def FieldError.toResponseError (error : FieldError) : ResponseError :=
  ⟨error.failure.message, error.locations, error.path, error.failure.extensions⟩

end GraphQL
