import GraphQL.Resolved

/-! Scripts: a service whose hooks are described by data. A script keeps a log of what is called
and a counter, and each of its hooks follows a behaviour. -/

namespace GraphQL.Script

/-- A number written in the script or taken from an argument of the field. -/
inductive Amount where
  | constant (value : Json)
  | argument (name : String)

/-- What a resolver of a script does. -/
inductive Behaviour where
  | json (value : Json)
  | object (kind : String) (fields : List (String × Behaviour))
  | list (items : List Behaviour)
  | error (error : ResolverError)
  | echoArguments
  | echoVariables
  | echoSource
  | echoInfo (fragments : List String)
  | argument (name : String)
  | property (name : String)
  | default
  | count (amount : Amount)
  | take (amount : Amount)
  | self

/-- An object of a script: its kind and how each of its fields behaves. -/
structure ScriptObject where
  kind : String
  fields : List (String × Behaviour)

/-- An item of a script's list, not yet pulled. -/
structure ScriptItem where
  position : Nat
  behaviour : Behaviour

abbrev Value := Resolved ScriptObject ScriptItem

abbrev Result := ResolverResult ScriptObject ScriptItem

abbrev Info := ResolveInfo ScriptObject ScriptItem

/-- The log of calls, and a counter of 64 bits that some requests do not see. -/
structure State where
  log : List String := []
  counter : Int64 := 0
  counterVisible : Bool := true

def record (entry : String) : StateM State Unit :=
  modify fun state => { state with log := state.log ++ [entry] }

/-- The value of a behaviour that does not depend on what is asked of it, and null for others. -/
def Behaviour.value : Behaviour → Result
  | json value => .ok (.json value)
  | object kind fields => .ok (.object ⟨kind, fields⟩)
  | list items => .ok (.list (items.mapIdx ScriptItem.mk))
  | error cause => .error cause
  | _ => .ok (.json .null)

def int64? : Json → Option Int64
  | .number (.integer n) =>
    if Int64.minValue.toInt ≤ n ∧ n ≤ Int64.maxValue.toInt then some (.ofInt n) else none
  | _ => none

/-- An amount that is no integer of 64 bits counts as zero. -/
def Amount.read (arguments : Members) (amount : Amount) : Int64 :=
  let json? := match amount with
    | constant value => some value
    | argument name => Entries.get? name arguments
  (json?.bind int64?).getD 0

def noContext : ResolverError := { message := "no context" }

def insufficientFunds : ResolverError := { message := "insufficient funds" }

/-- Changes the counter and answers with its new value. -/
def updateCounter (change : Int64 → Except ResolverError Int64) : StateM State Result := do
  let state ← get
  if state.counterVisible then
    match change state.counter with
    | .ok counter => do
      set { state with counter }
      pure (.ok (.json (.integer counter.toInt)))
    | .error error => pure (.error error)
  else pure (.error noContext)

def optionalString : Option String → Json
  | some text => .string text
  | none => .null

/-- Everything that a resolver is told about its field. -/
def describe (info : Info) (fragments : List String) : Json :=
  .object
    [ ("field", .string info.fieldName),
      ("key", .string info.group.first.key),
      ("nodes", .array (info.group.nodes.map fun node => .string node.key)),
      ("definition", .string info.definition.name),
      ("definition_args", .integer info.definition.arguments.length),
      ("return", .string info.definition.type.write),
      ("parent", .string info.parent.name),
      ("path", Path.toJson info.path),
      ("root", .string info.request.root.display),
      ("operation", .string info.request.operation.kind.write),
      ("operation_name", optionalString info.request.operation.name?),
      ("variables", .object info.request.variableValues),
      ("fragments", .array (fragments.map fun name =>
        optionalString ((info.request.fragments.find? name).map Fragment.condition))),
      ("parent_is_object", .bool (info.request.schema.object? info.parent.name).isSome) ]

/-- Follows a behaviour. Fields of a script's own objects have no source, and `byDefault` is what
the default resolver does. -/
def Behaviour.follow (source? : Option Value) (byDefault : StateM State Result)
    (arguments : Members) (info : Info) : Behaviour → StateM State Result
  | echoArguments => pure (.ok (.json (.object arguments)))
  | echoVariables => pure (.ok (.json (.object info.request.variableValues)))
  | echoSource =>
    pure (.ok (.json (.string ((source?.map Resolved.display).getD "\x7bobject\x7d"))))
  | echoInfo fragments => pure (.ok (.json (describe info fragments)))
  | argument name => pure (.ok (.json ((Entries.get? name arguments).getD .null)))
  | property name =>
    match source? with
    | some (.json (.object members)) =>
      pure (.ok (.json ((Entries.get? name members).getD .null)))
    | _ => pure (.ok (.json .null))
  | default => byDefault
  | count amount => updateCounter fun counter => .ok (counter + amount.read arguments)
  | take amount =>
    let amount := amount.read arguments
    updateCounter fun counter =>
      if counter < amount then .error insufficientFunds else .ok (counter - amount)
  | behaviour => pure behaviour.value

def callText (info : Info) (arguments : Members) : String :=
  (Path.toJson info.path).write ++ " " ++ (Json.object arguments).write

def fieldText (info : Info) : String := info.parent.name ++ "." ++ info.fieldName

/-- Objects of a script log every field asked of them. -/
def resolveField (object : ScriptObject) (arguments : Members) (info : Info) :
    StateM State Result := do
  record ("object " ++ object.kind ++ "." ++ info.fieldName ++ " " ++ callText info arguments)
  match Entries.get? info.fieldName object.fields with
  | some .self => pure (.ok (.object object))
  | some behaviour => behaviour.follow none (pure (.ok (.json .null))) arguments info
  | none => pure (.error { message := "unexpected field " ++ info.fieldName })

/-- Lists of a script log every item pulled from them. -/
def pull (item : ScriptItem) : StateM State Result := do
  record ("item " ++ Nat.repr item.position)
  pure item.behaviour.value

def service : Service State ScriptObject ScriptItem := ⟨resolveField, pull⟩

/-- A resolver that logs its call under a title and follows a behaviour. -/
def resolver (title : String) (behaviour : Behaviour) : Resolver State ScriptObject ScriptItem :=
  fun source arguments info => do
    record (title ++ " " ++ fieldText info ++ " " ++ callText info arguments ++ " " ++
      source.display)
    behaviour.follow (some source) (service.defaultResolver source arguments info) arguments info

end GraphQL.Script
