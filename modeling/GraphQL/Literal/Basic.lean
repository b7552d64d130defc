/-! Values as a document writes them. Numbers keep their text, and an object may repeat a key. -/

namespace GraphQL

inductive Literal where
  | null
  | bool (value : Bool)
  | int (text : String)
  | float (text : String)
  | string (text : String)
  | enum (name : String)
  | var (name : String)
  | list (items : List Literal)
  | object (fields : List (String × Literal))
deriving Inhabited

end GraphQL
