import GraphQL.Name

/-! References to types: a name or a list, each nullable unless marked otherwise. -/

namespace GraphQL

inductive TypeRef where
  | named (name : String) (nonNull : Bool)
  | list (item : TypeRef) (nonNull : Bool)
deriving DecidableEq, Inhabited

namespace TypeRef

def nonNull : TypeRef → Bool
  | .named _ nonNull => nonNull
  | .list _ nonNull => nonNull

/-- The name below all lists. -/
def innerName : TypeRef → String
  | .named name _ => name
  | .list item _ => item.innerName

def write : TypeRef → String
  | .named name nonNull => name ++ (if nonNull then "!" else "")
  | .list item nonNull => "[" ++ item.write ++ (if nonNull then "]!" else "]")

/-- Closes one list or marks the type read so far as non-null. -/
def close? (type : TypeRef) : Char → Option TypeRef
  | ']' => some (.list type false)
  | '!' =>
    match type with
    | .named name false => some (.named name true)
    | .list item false => some (.list item true)
    | _ => none
  | _ => none

/-- Reads the notation that `write` produces. -/
def read? (text : String) : Option TypeRef :=
  let opening := text.toList.takeWhile (· == '[')
  let rest := text.toList.dropWhile (· == '[')
  let name := rest.takeWhile fun c => isNameStart c || c.isDigit
  let closing := rest.dropWhile fun c => isNameStart c || c.isDigit
  if isName (String.ofList name) && (closing.filter (· == ']')).length == opening.length then
    closing.foldlM close? (.named (String.ofList name) false)
  else none

end TypeRef

end GraphQL
