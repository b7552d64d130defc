import GraphQL.Execution.Completion

/-! Execution of selection sets: each field of an object is resolved and completed in turn, and a
null that no field takes ends the object. -/

namespace GraphQL

namespace Environment

variable {State Object Item : Type}

/-- What decides about selections on objects of a type. -/
def scope (env : Environment State Object Item) (type : ObjectType) : Scope where
  includes := env.schema.includes env.request.variableValues
  applies := env.schema.conditionApplies type
  fragments := env.request.fragments

/-- The built-in answer for a field, if it has one. -/
def builtIn? (type : ObjectType) :
    String → Option (Except Failure (Resolved Object Item))
  | "__typename" => some (.ok (.json (.string type.name)))
  | "__schema" => some (.error .noIntrospection)
  | "__type" => some (.error .noIntrospection)
  | _ => none

/-- Resolves a field by the hook for its place, or else by the built-in answer, or else by the
resolver of the request. -/
def resolve (env : Environment State Object Item) (info : ResolveInfo Object Item)
    (source : Resolved Object Item) (arguments : Members) :
    Exec State (Except Failure (Resolved Object Item)) :=
  match env.executable.resolver? info.parent.name info.fieldName with
  | some run => (·.mapError Failure.resolver) <$> Exec.call (run source arguments info)
  | none =>
    match builtIn? info.parent info.fieldName with
    | some answer => pure answer
    | none =>
      (·.mapError Failure.resolver) <$> Exec.call (env.fieldResolver source arguments info)

/-- Executes one field: its first node gives the arguments, all its nodes the sub-selections. -/
def executeField (env : Environment State Object Item)
    (execute : ObjectExecutor State Object Item) (path : Path) (type : ObjectType)
    (source : Resolved Object Item) (definition : FieldDefinition) (group : FieldGroup) :
    Exec State Json :=
  let info : ResolveInfo Object Item :=
    ⟨env.request, type, definition, group, path ++ [.key group.key]⟩
  Exec.nullify definition.type do
    let resolved ←
      match env.schema.coerceArguments definition.arguments group.first.arguments
          env.request.variableValues with
      | .ok arguments => env.resolve info source arguments
      | .error error => pure (.error (.arguments error))
    Completion.complete env execute info definition.type info.path resolved

/-- Executes groups of fields in order. A field that the type does not have is left out. -/
def executeGroups (env : Environment State Object Item)
    (execute : ObjectExecutor State Object Item) (path : Path) (type : ObjectType)
    (source : Resolved Object Item) : List FieldGroup → Exec State Members
  | [] => pure []
  | group :: rest =>
    match env.schema.field? type.name group.first.name with
    | none => env.executeGroups execute path type source rest
    | some definition => do
      let value ← env.executeField execute path type source definition group
      let members ← env.executeGroups execute path type source rest
      pure ((group.key, value) :: members)

/-- Executes selections on an object. Below it, objects may nest less deep than `depth`. -/
def executeSelections (env : Environment State Object Item) :
    Nat → ObjectExecutor State Object Item
  | 0 => fun _ _ _ _ => .tooDeep
  | depth + 1 => fun path type source selections =>
    env.executeGroups (env.executeSelections depth) path type source
      ((env.scope type).collectFields selections)

end Environment

end GraphQL
