import GraphQL.Document
import GraphQL.Json.Printer

/-! Responses and their JSON form. -/

namespace GraphQL

/-- A step into response data: the key of a field or the index of a list item. -/
inductive PathSegment where
  | key (name : String)
  | index (position : Nat)
deriving DecidableEq

/-- A place in response data, from the root on. -/
abbrev Path := List PathSegment

def PathSegment.toJson : PathSegment → Json
  | .key name => .string name
  | .index position => .integer position

def Path.toJson (path : Path) : Json := .array (path.map PathSegment.toJson)

def Location.toJson (location : Location) : Json :=
  .object [("line", .integer location.line), ("column", .integer location.column)]

structure ResponseError where
  message : String
  locations : List Location := []
  path : Path := []
  extensions : Members := []

/-- Lists and objects that have nothing in them are left out. -/
def ResponseError.toJson (error : ResponseError) : Json :=
  .object <|
    [("message", .string error.message)] ++
    (if error.locations.isEmpty then []
      else [("locations", .array (error.locations.map Location.toJson))]) ++
    (if error.path.isEmpty then [] else [("path", Path.toJson error.path)]) ++
    (if error.extensions.isEmpty then [] else [("extensions", .object error.extensions)])

inductive ResponseData where
  | object (members : Members)
  | null
  | absent

namespace ResponseData

/-- Absent data has no place of its own in JSON and is shown as null. -/
def toJson : ResponseData → Json
  | .object members => .object members
  | .null => .null
  | .absent => .null

def object? : ResponseData → Option Members
  | .object members => some members
  | _ => none

end ResponseData

structure Response where
  errors : List ResponseError
  data : ResponseData

namespace Response

/-- The response to a request that is refused before execution. -/
def ofRequestError (error : ResponseError) : Response := ⟨[error], .absent⟩

/-- Errors come first, so that they are not overlooked. -/
def toJson (response : Response) : Json :=
  .object <|
    (if response.errors.isEmpty then []
      else [("errors", .array (response.errors.map ResponseError.toJson))]) ++
    (match response.data with
      | .absent => []
      | data => [("data", data.toJson)])

def write (response : Response) : String := response.toJson.write

end Response

end GraphQL
