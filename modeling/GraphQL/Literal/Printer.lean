import GraphQL.Literal.Basic

/-! The text of a literal: a list or an object takes a line for each entry, and a string of several
lines is written as a block where a block can hold it. -/

namespace GraphQL.Literal

def isBlankLine (line : List Char) : Bool := line.all fun c => c == ' ' || c == '\t'

/-- A block drops carriage returns, blank first and last lines and common indentation, so it holds
only strings that have none of them. -/
def fitsBlock (text : String) : Bool :=
  let lines := (text.splitOn "\n").map String.toList
  let indented (line : List Char) := line.head? == some ' ' || line.head? == some '\t'
  !text.toList.contains '\r' && !(lines.head?.any isBlankLine) &&
    !(lines.getLast?.any isBlankLine) &&
    lines.any fun line => !isBlankLine line && !indented line

/-- Inside a block, three quotes are written with a backslash before them. -/
def escapeBlock : List Char → List Char
  | '"' :: '"' :: '"' :: rest => '\\' :: '"' :: '"' :: '"' :: escapeBlock rest
  | c :: rest => c :: escapeBlock rest
  | [] => []

def writeBlock (indent : String) (text : String) : String :=
  let line (line : String) : String :=
    if line.isEmpty then "\n" else "\n" ++ indent ++ String.ofList (escapeBlock line.toList)
  "\"\"\"" ++ String.join ((text.splitOn "\n").map line) ++ "\n" ++ indent ++ "\"\"\""

def upperHexDigit (n : Nat) : Char := (Nat.digitChar n).toUpper

def escape (c : Char) : List Char :=
  if c = '"' then ['\\', '"']
  else if c = '\\' then ['\\', '\\']
  else if c = '\x08' then ['\\', 'b']
  else if c = '\n' then ['\\', 'n']
  else if c = '\x0c' then ['\\', 'f']
  else if c = '\r' then ['\\', 'r']
  else if c ≠ '\t' ∧ c.toNat < 0x20 then
    ['\\', 'u', '0', '0', upperHexDigit (c.toNat / 16), upperHexDigit (c.toNat % 16)]
  else [c]

def writeString (indent : String) (text : String) : String :=
  if text.toList.contains '\n' && fitsBlock text then writeBlock indent text
  else String.ofList ('"' :: text.toList.flatMap escape ++ ['"'])

mutual

/-- Writes a literal whose own line starts with `indent`. -/
def writeIndented (indent : String) : Literal → String
  | .null => "null"
  | .bool b => if b then "true" else "false"
  | .int text => text
  | .float text => text
  | .string text => writeString indent text
  | .enum name => name
  | .var name => "$" ++ name
  | .list [] => "[]"
  | .list (item :: rest) =>
    "[" ++ writeItems (indent ++ "  ") (item :: rest) ++ "\n" ++ indent ++ "]"
  | .object [] => "\x7b\x7d"
  | .object (field :: rest) =>
    "\x7b" ++ writeFields (indent ++ "  ") (field :: rest) ++ "\n" ++ indent ++ "\x7d"

def writeItems (indent : String) : List Literal → String
  | [] => ""
  | item :: rest => "\n" ++ indent ++ writeIndented indent item ++ "," ++ writeItems indent rest

def writeFields (indent : String) : List (String × Literal) → String
  | [] => ""
  | (name, value) :: rest =>
    "\n" ++ indent ++ name ++ ": " ++ writeIndented indent value ++ "," ++ writeFields indent rest

end

def write (literal : Literal) : String := literal.writeIndented ""

end GraphQL.Literal
