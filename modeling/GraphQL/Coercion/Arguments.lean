import GraphQL.Coercion.Literal

/-! Coercion of the arguments of a field or directive. -/

namespace GraphQL

inductive ArgumentError where
  | variableWithoutValue (name : String) (type : TypeRef) (source : String)
  | invalidValue (name : String) (literal : Literal) (reason : Reason)
  | null (name : String) (type : TypeRef)
  | invalidDefault (name : String) (literal : Literal) (reason : Reason)
  | missing (name : String) (type : TypeRef)

def ArgumentError.message : ArgumentError → String
  | variableWithoutValue name type source =>
    "Argument " ++ quoted name ++ " of required type " ++ quoted type.write ++
      " was provided the variable " ++ quoted ("$" ++ source) ++
      " which was not provided a runtime value."
  | invalidValue name literal reason =>
    "Argument " ++ quoted name ++ " has invalid value " ++ literal.write ++ "; " ++ reason.message
  | null name type =>
    "Argument " ++ quoted name ++ " of non-null type " ++ quoted type.write ++ " must not be null."
  | invalidDefault name literal reason =>
    "Argument " ++ quoted name ++ " has invalid default value " ++ literal.write ++ "; " ++
      reason.message
  | missing name type =>
    "Argument " ++ quoted name ++ " of required type " ++ quoted type.write ++ " was not provided."

namespace Coercion

/-- The value that a document gives to an argument, if it gives one. -/
def providedArgument (schema : Schema) (bindings : Members) (definition : InputValue) :
    Option Literal → Except ArgumentError (Option Json)
  | none => .ok none
  | some (.var source) =>
    match Entries.get? source bindings with
    | some value => .ok (some value)
    | none =>
      if definition.default?.isNone ∧ definition.type.nonNull then
        .error (.variableWithoutValue definition.name definition.type source)
      else .ok none
  | some literal =>
    match schema.coerceLiteral bindings literal definition.type with
    | .ok value => .ok (some value)
    | .error reason => .error (.invalidValue definition.name literal reason)

/-- The value of an argument, or `none` if it is left out. -/
def argument (schema : Schema) (bindings : Members) (definition : InputValue)
    (literal? : Option Literal) : Except ArgumentError (Option Json) :=
  match providedArgument schema bindings definition literal?, definition.default? with
  | .error error, _ => .error error
  | .ok (some value), _ =>
    if value.isNull ∧ definition.type.nonNull then
      .error (.null definition.name definition.type)
    else .ok (some value)
  | .ok none, some literal =>
    match schema.coerceLiteral [] literal definition.type with
    | .ok value => .ok (some value)
    | .error reason => .error (.invalidDefault definition.name literal reason)
  | .ok none, none =>
    if definition.type.nonNull then .error (.missing definition.name definition.type) else .ok none

/-- Adds the value of one argument to those before it. -/
def addArgument (schema : Schema) (arguments : List (String × Literal)) (bindings : Members)
    (coerced : Members) (definition : InputValue) : Except ArgumentError Members :=
  (argument schema bindings definition (Entries.get? definition.name arguments)).map fun value? =>
    match value? with
    | some value => Entries.insert definition.name value coerced
    | none => coerced

end Coercion

/-- Coerces arguments in the order of their definitions, with defaults for those left out. -/
def Schema.coerceArguments (schema : Schema) (definitions : List InputValue)
    (arguments : List (String × Literal)) (bindings : Members) : Except ArgumentError Members :=
  definitions.foldlM (Coercion.addArgument schema arguments bindings) []

end GraphQL
