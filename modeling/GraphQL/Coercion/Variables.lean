import GraphQL.Coercion.Input
import GraphQL.Document

/-! Coercion of the variables that a client sends with an operation. -/

namespace GraphQL

inductive VariableError where
  | notInputType (name : String) (type : TypeRef)
  | null (name : String) (type : TypeRef)
  | invalidValue (name : String) (value : Json) (reason : Reason)
  | invalidDefault (name : String) (literal : Literal) (reason : Reason)
  | missing (name : String) (type : TypeRef)

def VariableError.message : VariableError → String
  | notInputType name type =>
    "Variable " ++ quoted ("$" ++ name) ++ " expected value of type " ++ quoted type.write ++
      " which cannot be used as an input type."
  | null name type =>
    "Variable " ++ quoted ("$" ++ name) ++ " of non-null type " ++ quoted type.write ++
      " must not be null."
  | invalidValue name value reason =>
    "Variable " ++ quoted ("$" ++ name) ++ " got invalid value " ++ value.write ++ "; " ++
      reason.message
  | invalidDefault name literal reason =>
    "Variable " ++ quoted ("$" ++ name) ++ " has invalid default value " ++ literal.write ++ "; " ++
      reason.message
  | missing name type =>
    "Variable " ++ quoted ("$" ++ name) ++ " of required type " ++ quoted type.write ++
      " was not provided."

namespace Coercion

/-- The value of a variable, or `none` if it is nullable and has neither a value nor a default,
which is not the same as null. -/
def variableInput (schema : Schema) (definition : VariableDefinition) (raw? : Option Json) :
    Except VariableError (Option Json) :=
  if !schema.isInputType definition.type then
    .error (.notInputType definition.name definition.type)
  else
    match raw?, definition.default? with
    | some raw, _ =>
      if raw.isNull ∧ definition.type.nonNull then
        .error (.null definition.name definition.type)
      else
        match schema.coerceInput raw definition.type with
        | .ok value => .ok (some value)
        | .error reason => .error (.invalidValue definition.name raw reason)
    | none, some literal =>
      match schema.coerceLiteral [] literal definition.type with
      | .ok value => .ok (some value)
      | .error reason => .error (.invalidDefault definition.name literal reason)
    | none, none =>
      if definition.type.nonNull then .error (.missing definition.name definition.type)
      else .ok none

/-- Adds the value of one variable to those before it. An error carries the place of the
variable's definition. -/
def addVariable (schema : Schema) (raw : Members) (coerced : Members)
    (definition : VariableDefinition) : Except (VariableError × Location) Members :=
  match variableInput schema definition (Entries.get? definition.name raw) with
  | .error error => .error (error, definition.location)
  | .ok none => .ok coerced
  | .ok (some value) => .ok (Entries.insert definition.name value coerced)

end Coercion

/-- Coerces the variables of an operation in the order of their definitions. -/
def Schema.coerceVariables (schema : Schema) (definitions : List VariableDefinition)
    (raw : Members) : Except (VariableError × Location) Members :=
  definitions.foldlM (Coercion.addVariable schema raw) []

end GraphQL
