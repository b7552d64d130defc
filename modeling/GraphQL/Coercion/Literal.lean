import GraphQL.Coercion.Scalar
import GraphQL.Coercion.Shape

/-! Coercion of literals: arguments and default values. Variables are replaced by their values,
which have been coerced before, and missing fields of input objects by their defaults. -/

namespace GraphQL

def Json.ofFloatText (text : String) : Option Json :=
  (Binary64.read? text.toList).map fun x => .number (.float x)

/-- An integer if the text is one of 64 bits, or else a float, or else null. -/
def Json.ofIntText (text : String) : Json :=
  match Decimal.readInt? text.toList with
  | some n =>
    if Int64.minValue.toInt ≤ n ∧ n ≤ Int64.maxValue.toInt then .integer n
    else (Json.ofFloatText text).getD .null
  | none => (Json.ofFloatText text).getD .null

namespace Literal

mutual

/-- The JSON form of a literal for a scalar that takes every value. -/
def toJson (bindings : Members) : Literal → Json
  | .null => .null
  | .bool b => .bool b
  | .int text => Json.ofIntText text
  | .float text => (Json.ofFloatText text).getD .null
  | .string text => .string text
  | .enum name => .string name
  | .var name => (Entries.get? name bindings).getD .null
  | .list items => .array (itemsToJson bindings items)
  | .object fields => .object (Entries.ofList (fieldsToJson bindings fields))

def itemsToJson (bindings : Members) : List Literal → List Json
  | [] => []
  | item :: rest => toJson bindings item :: itemsToJson bindings rest

def fieldsToJson (bindings : Members) : List (String × Literal) → Members
  | [] => []
  | (name, value) :: rest => (name, toJson bindings value) :: fieldsToJson bindings rest

end

/-- The value that a built-in scalar takes from a literal. -/
def toScalar? : BuiltInScalar → Literal → Option Json
  | .float, .int text => Json.ofFloatText text
  | .float, .float text => Json.ofFloatText text
  | .string, .string text => some (.string text)
  | .boolean, .bool b => some (.bool b)
  | .id, .string text => some (.string text)
  | .id, .int text => some (.string text)
  | _, _ => none

end Literal

namespace Coercion

/-- Coerces a literal, neither null nor a variable, to a scalar type. -/
def scalarLiteral (bindings : Members) (name : String) (nonNull : Bool) (literal : Literal) :
    Except Reason Json :=
  match BuiltInScalar.ofName? name, literal with
  | none, _ => .ok (literal.toJson bindings)
  | some .int, .int text =>
    match (Decimal.readInt? text.toList).bind BuiltInScalar.intResult? with
    | some value => .ok value
    | none => .error (.outOfRange text)
  | some scalar, _ =>
    match literal.toScalar? scalar with
    | some value => .ok value
    | none => .error (.wrongLiteral (.named name nonNull) literal)

/-- Coerces a literal to a named type, if it is neither null nor a variable and does not fill an
input object. -/
def leafLiteral (schema : Schema) (bindings : Members) (literal : Literal) (name : String)
    (nonNull : Bool) : Except Reason Json :=
  match schema.type? name, literal with
  | some (.scalar _), _ => scalarLiteral bindings name nonNull literal
  | some (.enum type), .enum value =>
    if type.values.contains value then .ok (.string value)
    else .error (.wrongLiteral (.named name nonNull) literal)
  | _, _ => .error (.wrongLiteral (.named name nonNull) literal)

/-- Puts the value of a variable where a type is expected. -/
def variableValue (bindings : Members) (name : String) (type : TypeRef) : Except Reason Json :=
  match Entries.get? name bindings with
  | some value =>
    if value.isNull ∧ type.nonNull then .error (.null type) else .ok value
  | none =>
    if type.nonNull then .error (.missingVariable name type) else .ok .null

/-- A variable without a value counts as no value at all. -/
def isAbsentVariable (bindings : Members) : Literal → Bool
  | .var name => (Entries.get? name bindings).isNone
  | _ => false

mutual

/-- Coerces a literal, given how to coerce the default of a missing field. -/
def literalWith (schema : Schema) (default : TypeRef → Literal → Except Reason Json)
    (bindings : Members) : Literal → TypeRef → Except Reason Json
  | .var name, type => variableValue bindings name type
  | .null, type => if type.nonNull then .error (.null type) else .ok .null
  | .list items, .list item _ => (itemsWith schema default bindings items item).map .array
  | .object fields, type =>
    singleItem (fun name nonNull =>
      match schema.type? name with
      | some (.inputObject object) =>
        let coerced := fieldsWith schema default bindings fields
        fillObject object default (Entries.keys fields) fun field =>
          (Entries.get? field.name coerced).bind fun value => value.map (· field.type)
      | _ => leafLiteral schema bindings (.object fields) name nonNull) type
  | literal, type => singleItem (leafLiteral schema bindings literal) type

def itemsWith (schema : Schema) (default : TypeRef → Literal → Except Reason Json)
    (bindings : Members) : List Literal → TypeRef → Except Reason (List Json)
  | [], _ => .ok []
  | item :: rest, type => do
    let value ← literalWith schema default bindings item type
    let values ← itemsWith schema default bindings rest type
    .ok (value :: values)

/-- What each field of an object literal provides at the type of its definition, which is nothing
for a variable without a value. -/
def fieldsWith (schema : Schema) (default : TypeRef → Literal → Except Reason Json)
    (bindings : Members) :
    List (String × Literal) → List (String × Option (TypeRef → Except Reason Json))
  | [] => []
  | (name, value) :: rest =>
    (name,
      if isAbsentVariable bindings value then none
      else some (literalWith schema default bindings value)) ::
      fieldsWith schema default bindings rest

end

/-- Coerces a default value, which holds no variables. Defaults that need defaults in turn are
followed `depth` times. -/
def defaultValue (schema : Schema) : Nat → TypeRef → Literal → Except Reason Json
  | 0, _, _ => .error .circularDefault
  | depth + 1, type, literal => literalWith schema (defaultValue schema depth) [] literal type

end Coercion

namespace Schema

/-- The input fields that have a default. -/
def defaults (schema : Schema) : List InputValue :=
  schema.types.entries.flatMap fun definition =>
    match definition with
    | .inputObject type => type.fields.entries.filter fun field => field.default?.isSome
    | _ => []

/-- How often a default is followed to the defaults that it needs in turn. A chain of defaults that
ends meets no field twice, so there is room for it. One that goes round in a circle is given up in
the end, but only after more steps than any stack holds. -/
def defaultDepth (schema : Schema) : Nat := max (Nat.pow 10 9) schema.defaults.length

/-- Coerces the default of a missing input field. -/
def defaultValue (schema : Schema) : TypeRef → Literal → Except Reason Json :=
  Coercion.defaultValue schema schema.defaultDepth

/-- Coerces a literal to an input type. -/
def coerceLiteral (schema : Schema) (bindings : Members) (literal : Literal)
    (type : TypeRef) : Except Reason Json :=
  Coercion.literalWith schema schema.defaultValue bindings literal type

end Schema

end GraphQL
