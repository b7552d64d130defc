import GraphQL.Json.Printer
import GraphQL.Literal.Printer
import GraphQL.TypeRef

/-! Why a value does not fit an input type. -/

namespace GraphQL

inductive Reason where
  | null (type : TypeRef)
  | outOfRange (text : String)
  | notInteger (value : Json)
  | wrongScalar (scalar : String)
  | unknownEnumValue (value : Json) (enum : String)
  | notObject (type : String)
  | undefinedField (field type : String)
  | missingField (owner field : String) (type : TypeRef)
  | notInputType (type : String)
  | missingVariable (name : String) (type : TypeRef)
  | wrongLiteral (type : TypeRef) (literal : Literal)
  | circularDefault
  | within (field : String) (reason : Reason)

def quoted (text : String) : String := "\"" ++ text ++ "\""

def Reason.message : Reason → String
  | null type => "Expected non-nullable type " ++ quoted type.write ++ " not to be null."
  | outOfRange text => "Int cannot represent non 32-bit signed integer value: " ++ text
  | notInteger value => "Int cannot represent non-integer value: " ++ value.write
  | wrongScalar scalar => "Expected type " ++ quoted scalar ++ "."
  | unknownEnumValue value enum =>
    "Value " ++ value.write ++ " does not exist in " ++ quoted enum ++ " enum."
  | notObject type => "Expected type " ++ quoted type ++ " to be an object."
  | undefinedField field type =>
    "Field " ++ quoted field ++ " is not defined by type " ++ quoted type ++ "."
  | missingField owner field type =>
    "Field " ++ quoted (owner ++ "." ++ field) ++ " of required type " ++ quoted type.write ++
      " was not provided."
  | notInputType type => "Type " ++ quoted type ++ " is not an input type."
  | missingVariable name type =>
    "Expected variable " ++ quoted ("$" ++ name) ++ " of non-nullable type " ++ quoted type.write ++
      " to have a value."
  | wrongLiteral type literal =>
    "Expected value of type " ++ quoted type.write ++ ", found " ++ literal.write ++ "."
  | circularDefault => "Default values of input fields refer to each other in a circle."
  | within field reason => "at " ++ quoted field ++ ": " ++ reason.message

end GraphQL
