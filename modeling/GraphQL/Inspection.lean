import GraphQL.Schema.Executable
import GraphQL.Text.Invisible

/-! Texts that show the structure of a value to a developer: each part is named for its kind, and
every character of a string can be seen. -/

namespace GraphQL.Inspection

def escape (c : Char) : List Char :=
  if c.toNat = 0 then ['\\', '0']
  else if c = '\t' then ['\\', 't']
  else if c = '\n' then ['\\', 'n']
  else if c = '\r' then ['\\', 'r']
  else if c = '"' ∨ c = '\\' then ['\\', c]
  else if Text.isInvisible c then ['\\', 'u', '\x7b'] ++ Nat.toDigits 16 c.toNat ++ ['\x7d']
  else [c]

def string (text : String) : String :=
  String.ofList ('"' :: text.toList.flatMap escape ++ ['"'])

def tagged (tag content : String) : String := tag ++ "(" ++ content ++ ")"

def bracketed (parts : List String) : String := "[" ++ ", ".intercalate parts ++ "]"

mutual

def json : Json → String
  | .null => "Null"
  | .bool b => tagged "Bool" (if b then "true" else "false")
  | .number n => tagged "Number" n.write
  | .string s => tagged "String" (string s)
  | .array items => tagged "Array" (bracketed (jsonItems items))
  | .object members =>
    tagged "Object" ("\x7b" ++ ", ".intercalate (jsonMembers members) ++ "\x7d")

def jsonItems : List Json → List String
  | [] => []
  | item :: rest => json item :: jsonItems rest

def jsonMembers : Members → List String
  | [] => []
  | (key, value) :: rest => (string key ++ ": " ++ json value) :: jsonMembers rest

end

variable {State Object Item : Type}

def resolved : Resolved Object Item → String
  | .json value => tagged "Json" (json value)
  | .object _ => tagged "Object" ".."
  | .list _ => tagged "List" ".."

/-- The places of all hooks. -/
def executableSchema (executable : ExecutableSchema State Object Item) : String :=
  let names (places : List String) : String := bracketed (places.map string)
  let resolvers := executable.resolvers.flatMap fun (type, fields) =>
    (Entries.keys fields).map fun field => type ++ "." ++ field
  "ExecutableSchema \x7b field_resolvers: " ++ names resolvers ++
    ", serializers: " ++ names (Entries.keys executable.serializers) ++
    ", type_resolvers: " ++ names (Entries.keys executable.typeResolvers) ++
    ", is_type_of: " ++ names (Entries.keys executable.typePredicates) ++ ", .. \x7d"

end GraphQL.Inspection
