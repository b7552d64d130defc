/-! Names: a letter or an underscore, then letters, digits and underscores, all of them ASCII. -/

namespace GraphQL

def isNameStart (c : Char) : Bool := c.isAlpha || c == '_'

def isName (text : String) : Bool :=
  match text.toList with
  | [] => false
  | first :: rest => isNameStart first && rest.all fun c => isNameStart c || c.isDigit

end GraphQL
