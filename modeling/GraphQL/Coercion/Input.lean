import GraphQL.Coercion.Literal

/-! Coercion of the JSON values that a client sends for variables. -/

namespace GraphQL

namespace Coercion

/-- Integers of 64 bits are taken if they have 32, other numbers if they are integral and still have
32 bits once they are cut down to 64. -/
def intInput : Json → Except Reason Json
  | .number n =>
    match n.int64? with
    | some whole =>
      if BuiltInScalar.FitsInt whole then .ok (.number n) else .error (.outOfRange n.write)
    | none =>
      match n.toBinary64? with
      | some x =>
        if x.isIntegral ∧ BuiltInScalar.FitsInt x.toInt64 then .ok (.integer x.toInt64)
        else .error (.notInteger (.number n))
      | none => .error (.notInteger (.number n))
  | value => .error (.notInteger value)

theorem intInput_integer {n : Int} (fits : BuiltInScalar.FitsInt n) :
    intInput (.integer n) = .ok (.integer n) := by
  simp only [intInput, Json.integer, fits.int64?_eq, fits, ite_true]

/-- The value that a scalar other than the integers takes from JSON. -/
def scalarInput? : BuiltInScalar → Json → Option Json
  | .float, .number n => some (.number n)
  | .string, .string s => some (.string s)
  | .boolean, .bool b => some (.bool b)
  | .id, .string s => some (.string s)
  | .id, .number (.integer n) => some (.string (Number.integer n).write)
  | _, _ => none

def scalarInput (name : String) (value : Json) : Except Reason Json :=
  match BuiltInScalar.ofName? name with
  | none => .ok value
  | some .int => intInput value
  | some scalar =>
    match scalarInput? scalar value with
    | some coerced => .ok coerced
    | none => .error (.wrongScalar name)

def enumInput (type : EnumType) : Json → Except Reason Json
  | .string s =>
    if type.values.contains s then .ok (.string s)
    else .error (.unknownEnumValue (.string s) type.name)
  | value => .error (.unknownEnumValue value type.name)

/-- Coerces a value to a named type, if it is not null and does not fill an input object. -/
def leafInput (schema : Schema) (value : Json) (name : String) : Except Reason Json :=
  match schema.type? name with
  | some (.scalar _) => scalarInput name value
  | some (.enum type) => enumInput type value
  | some (.inputObject _) => .error (.notObject name)
  | _ => .error (.notInputType name)

mutual

/-- Coerces a JSON value, given how to coerce the default of a missing field. -/
def inputWith (schema : Schema) (default : TypeRef → Literal → Except Reason Json) :
    Json → TypeRef → Except Reason Json
  | .null, type => if type.nonNull then .error (.null type) else .ok .null
  | .array items, .list item _ => (inputItemsWith schema default items item).map .array
  | .object members, type =>
    singleItem (fun name _ =>
      match schema.type? name with
      | some (.inputObject object) =>
        let coerced := inputMembersWith schema default members
        fillObject object default (Entries.keys members) fun field =>
          (Entries.get? field.name coerced).map fun value =>
            (value field.type).mapError (.within field.name)
      | _ => leafInput schema (.object members) name) type
  | value, type => singleItem (fun name _ => leafInput schema value name) type

def inputItemsWith (schema : Schema) (default : TypeRef → Literal → Except Reason Json) :
    List Json → TypeRef → Except Reason (List Json)
  | [], _ => .ok []
  | item :: rest, type => do
    let value ← inputWith schema default item type
    let values ← inputItemsWith schema default rest type
    .ok (value :: values)

/-- What each member of a JSON object provides at the type of its definition. -/
def inputMembersWith (schema : Schema) (default : TypeRef → Literal → Except Reason Json) :
    Members → List (String × (TypeRef → Except Reason Json))
  | [] => []
  | (name, value) :: rest =>
    (name, inputWith schema default value) :: inputMembersWith schema default rest

end

end Coercion

/-- Coerces a JSON value to an input type. -/
def Schema.coerceInput (schema : Schema) (value : Json) (type : TypeRef) : Except Reason Json :=
  Coercion.inputWith schema schema.defaultValue value type

end GraphQL
