import GraphQL.Coercion.Variables
import GraphQL.Execution.Selections

/-! Requests: which operation of a document is executed, what is wrong with a request as a whole,
and the response to it. -/

namespace GraphQL

/-- Why a request is refused before anything of it is executed. -/
inductive RequestError where
  | ambiguousOperation
  | unknownOperation (name : String)
  | noOperation
  | unsupportedDefinition (kind : TypeSystemDefinition) (location : Location)
  | invalidVariable (error : VariableError) (location : Location)
  | noRootType (kind : OperationKind) (location : Location)

namespace RequestError

def message : RequestError → String
  | ambiguousOperation => "Must provide operation name if query contains multiple operations."
  | unknownOperation name => "Unknown operation named " ++ quoted name ++ "."
  | noOperation => "Must provide an operation."
  | unsupportedDefinition kind _ =>
    "GraphQL cannot execute a request containing a " ++ kind.write ++ "."
  | invalidVariable error _ => error.message
  | noRootType .query _ => "Schema does not define the required query root type."
  | noRootType .mutation _ => "Schema is not configured for mutations."
  | noRootType .subscription _ => "Schema is not configured for subscriptions."

def location? : RequestError → Option Location
  | unsupportedDefinition _ location => some location
  | invalidVariable _ location => some location
  | noRootType _ location => some location
  | _ => none

def toResponseError (error : RequestError) : ResponseError :=
  { message := error.message, locations := error.location?.toList }

def toResponse (error : RequestError) : Response := .ofRequestError error.toResponseError

end RequestError

namespace Document

/-- Looks for the operation to execute, given the one found so far: the only one of the document,
or the last one of the requested name. -/
def scanOperations (name? : Option String) (found? : Option Operation) :
    Document → Except RequestError (Option Operation)
  | [] => .ok found?
  | .operation operation :: rest =>
    match name? with
    | none =>
      if found?.isSome then .error .ambiguousOperation
      else scanOperations name? (some operation) rest
    | some name =>
      scanOperations name? (if operation.name? = some name then some operation else found?) rest
  | .fragment _ :: rest => scanOperations name? found? rest
  | .typeSystem kind location :: _ => .error (.unsupportedDefinition kind location)

def selectOperation (document : Document) (name? : Option String) :
    Except RequestError Operation := do
  match ← scanOperations name? none document, name? with
  | some operation, _ => .ok operation
  | none, some name => .error (.unknownOperation name)
  | none, none => .error .noOperation

def fragment? : Definition → Option Fragment
  | .fragment fragment => some fragment
  | _ => none

/-- The fragments of a document. Of several with one name the last one counts. -/
def fragments (document : Document) : Catalog Fragment := .ofList (document.filterMap fragment?)

end Document

mutual

/-- The number of field nodes in a selection, sub-selections included. -/
def Selection.fieldCount : Selection → Nat
  | .field _ selections => 1 + Selection.fieldCounts selections
  | .spread _ _ => 0
  | .inlineFragment _ _ selections => Selection.fieldCounts selections

def Selection.fieldCounts : List Selection → Nat
  | [] => 0
  | selection :: rest => selection.fieldCount + Selection.fieldCounts rest

end

mutual

/-- How deep lists and objects nest in a value. -/
def Json.depth : Json → Nat
  | .array items => 1 + Json.depths items
  | .object members => 1 + Json.memberDepths members
  | _ => 0

def Json.depths : List Json → Nat
  | [] => 0
  | item :: rest => max item.depth (Json.depths rest)

def Json.memberDepths : Members → Nat
  | [] => 0
  | (_, value) :: rest => max value.depth (Json.memberDepths rest)

end

def Definition.fieldCount : Definition → Nat
  | .operation op => Selection.fieldCounts op.selections
  | .fragment body => Selection.fieldCounts body.selections
  | .typeSystem _ _ => 0

variable {State Object Item : Type}

def Resolved.depth : Resolved Object Item → Nat
  | .json value => value.depth
  | _ => 0

/-- What a client asks of a service, with the value that the root fields are read from and the
resolver for fields that have no hook. -/
structure Request (State Object Item : Type) where
  document : Document
  operationName? : Option String := none
  variableValues : Members := []
  root : Resolved Object Item := .json .null
  fieldResolver? : Option (Resolver State Object Item) := none

namespace Request

/-- How deep selection sets may nest in an execution: enough for fragments that do not reach
themselves, and for data that is read from a JSON root. -/
def depthBound (request : Request State Object Item) : Nat :=
  max 100000
    (request.document.foldl (fun count definition => count + definition.fieldCount) 0 +
      request.root.depth + 1)

/-- Checks a request and finds the object type that its execution starts from. -/
def prepare (executable : ExecutableSchema State Object Item)
    (service : Service State Object Item) (request : Request State Object Item) :
    Except RequestError (Environment State Object Item × ObjectType) := do
  let operation ← request.document.selectOperation request.operationName?
  let variableValues ←
    (executable.schema.coerceVariables operation.variableDefinitions
      request.variableValues).mapError fun (error, location) => .invalidVariable error location
  match executable.schema.rootType? operation.kind with
  | none => .error (.noRootType operation.kind operation.location)
  | some type =>
    .ok
      ({ executable
         service
         fieldResolver := request.fieldResolver?.getD service.defaultResolver
         request :=
           { schema := executable.schema
             operation
             variableValues
             fragments := request.document.fragments
             root := request.root } },
        type)

end Request

/-- The response of an execution that went from the root through its last field. -/
def Step.toResponse (step : Step State Members) : Response where
  errors := step.errors.map FieldError.toResponseError
  data :=
    match step.outcome with
    | .value members => .object members
    | .nulled => .null

namespace Environment

/-- Executes the operation from the root. -/
def run (env : Environment State Object Item) (depth : Nat) (type : ObjectType) :
    Exec State Members :=
  env.executeSelections depth [] type env.request.root env.request.operation.selections

end Environment

namespace Request

/-- Answers a request, or gives nothing if its selection sets nest deeper than `depth`. A request
that is refused calls no hook. -/
def executeWithin (depth : Nat) (executable : ExecutableSchema State Object Item)
    (service : Service State Object Item) (request : Request State Object Item) :
    StateT State Option (Except RequestError Response) := fun state =>
  match request.prepare executable service with
  | .error error => some (.error error, state)
  | .ok (env, type) =>
    (env.run depth type state).map fun step => (.ok step.toResponse, step.state)

def execute (executable : ExecutableSchema State Object Item)
    (service : Service State Object Item) (request : Request State Object Item) :
    StateT State Option (Except RequestError Response) :=
  request.executeWithin request.depthBound executable service

end Request

end GraphQL
