import GraphQL.Schema.Executable
import GraphQL.Script.Behaviour

/-! The hooks of a script other than resolvers, and the executable schema made of all of them. -/

namespace GraphQL.Script

inductive SerializerRule where
  | constant (value : Json)
  | prefixInteger (text : String)
  | lookup (table : Members)
  | identity
  | nothing

/-- The result of a serializer that follows the rule. -/
def SerializerRule.apply : SerializerRule → Json → Option Json
  | constant value, _ => some value
  | prefixInteger text, value =>
    (int64? value).map fun n => .string (text ++ (Number.integer n.toInt).write)
  | lookup table, .string key => Entries.get? key table
  | lookup _, _ => none
  | identity, value => some value
  | nothing, _ => none

def stringMember? (name : String) (members : Members) : Option String :=
  match Entries.get? name members with
  | some (.string text) => some text
  | _ => none

/-- The kind of a value: a property of a JSON object, or the kind that a script's object has. -/
def kindOf? (property : String) : Value → Option String
  | .json (.object members) => stringMember? property members
  | .object object => some object.kind
  | _ => none

inductive TypeRule where
  | kind (property : String)
  | constant (name? : Option String)

def TypeRule.apply : TypeRule → Value → Option String
  | kind property, value => kindOf? property value
  | constant name?, _ => name?

inductive PredicateRule where
  | hasMember (name : String)
  | kindIs (name : String)
  | constant (accepts : Bool)

def PredicateRule.apply : PredicateRule → Value → Bool
  | hasMember name, .json (.object members) => (Entries.get? name members).isSome
  | hasMember _, _ => false
  | kindIs name, value => kindOf? "kind" value == some name
  | constant accepts, _ => accepts

inductive HookRule where
  | resolver (type field : String) (behaviour : Behaviour)
  | serializer (type : String) (rule : SerializerRule)
  | typeResolver (type : String) (rule : TypeRule)
  | typePredicate (type : String) (rule : PredicateRule)

def valueText (info : Info) (value : Value) : String :=
  (Path.toJson info.path).write ++ " " ++ value.display

/-- The hook that logs each call and follows the rule. -/
def HookRule.toHook : HookRule → Hook State ScriptObject ScriptItem
  | resolver type field behaviour => .resolver type field (Script.resolver "resolver" behaviour)
  | serializer type rule =>
    .serializer type fun value => do
      record ("serializer " ++ type ++ " " ++ value.write)
      pure (rule.apply value)
  | typeResolver type rule =>
    .typeResolver type fun value info => do
      record ("type_resolver " ++ type ++ " " ++ valueText info value)
      pure (rule.apply value)
  | typePredicate type rule =>
    .typePredicate type fun value info => do
      record ("is_type_of " ++ type ++ " " ++ valueText info value)
      pure (rule.apply value)

abbrev Executable := ExecutableSchema State ScriptObject ScriptItem

def build (schema : Schema) (hooks : List HookRule) : Except HookError Executable :=
  ExecutableSchema.build schema (hooks.map HookRule.toHook)

end GraphQL.Script
