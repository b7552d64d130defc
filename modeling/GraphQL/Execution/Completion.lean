import GraphQL.Execution.Exec
import GraphQL.Schema.Executable

/-! Completion: turning what a resolver returned into response data of the field's type. -/

namespace GraphQL

/-- All that execution of a request works with. -/
structure Environment (State Object Item : Type) where
  executable : ExecutableSchema State Object Item
  service : Service State Object Item
  fieldResolver : Resolver State Object Item
  request : RequestContext Object Item

/-- Executes the selections on an object of a type, at a place of the response. -/
abbrev ObjectExecutor (State Object Item : Type) :=
  Path → ObjectType → Resolved Object Item → List Selection → Exec State Members

namespace Environment

variable {State Object Item : Type}

def schema (env : Environment State Object Item) : Schema := env.executable.schema

end Environment

namespace Completion

variable {State Object Item α : Type}

/-- Fails at a place that belongs to a field. -/
def failAt (info : ResolveInfo Object Item) (path : Path) (failure : Failure) : Exec State α :=
  .fail ⟨failure, path, info.group.nodes.map fun node => node.location⟩

/-- Goes on with a value that is present. -/
def present (info : ResolveInfo Object Item) (nonNull : Bool) (path : Path)
    (resolved : Except Failure (Resolved Object Item))
    (complete : Resolved Object Item → Exec State Json) : Exec State Json :=
  match resolved with
  | .error failure => failAt info path failure
  | .ok value =>
    if value.isNull then
      if nonNull then failAt info path (.nullNotAllowed info.parent.name info.fieldName)
      else pure .null
    else complete value

/-- The calls that produce the items of a list one by one. -/
def items? (service : Service State Object Item) :
    Resolved Object Item → Option (List (StateM State (ResolverResult Object Item)))
  | .list items => some (items.map service.pull)
  | .json (.array items) => some (items.map fun item => pure (.ok (.json item)))
  | _ => none

/-- Completes items in order, each before the next one is produced. -/
def completeItems (path : Path) (type : TypeRef)
    (complete : Path → Except Failure (Resolved Object Item) → Exec State Json) :
    Nat → List (StateM State (ResolverResult Object Item)) → Exec State (List Json)
  | _, [] => pure []
  | position, item :: rest => do
    let resolved ← Exec.call item
    let value ← Exec.nullify type
      (complete (path ++ [.index position]) (resolved.mapError Failure.resolver))
    let values ← completeItems path type complete (position + 1) rest
    pure (value :: values)

def completeList (env : Environment State Object Item) (info : ResolveInfo Object Item)
    (path : Path) (type : TypeRef)
    (complete : Path → Except Failure (Resolved Object Item) → Exec State Json)
    (value : Resolved Object Item) : Exec State Json :=
  match items? env.service value with
  | some items => do
    let values ← completeItems path type complete 0 items
    pure (.array values)
  | none => failAt info path (.notIterable info.parent.name info.fieldName)

def serialize? (env : Environment State Object Item) (definition : TypeDefinition) :
    Resolved Object Item → StateM State (Option Json)
  | .json value => env.executable.serialize? definition value
  | _ => pure none

def completeLeaf (env : Environment State Object Item) (info : ResolveInfo Object Item)
    (path : Path) (definition : TypeDefinition) (value : Resolved Object Item) :
    Exec State Json := do
  match ← Exec.call (serialize? env definition value) with
  | some result =>
    if result.isNull then failAt info path (.notSerializable definition.name value.display)
    else pure result
  | none => failAt info path (.notSerializable definition.name value.display)

/-- The first of the types whose predicate accepts the value. Types without one are passed over. -/
def firstAccepting (env : Environment State Object Item) (info : ResolveInfo Object Item)
    (value : Resolved Object Item) : List ObjectType → StateM State (Option String)
  | [] => pure none
  | type :: rest =>
    match env.executable.typePredicate? type.name with
    | none => firstAccepting env info value rest
    | some accepts => do
      if ← accepts value info then pure (some type.name) else firstAccepting env info value rest

/-- The object type that a value of an abstract type is completed as, and whether its predicate
has accepted the value already. -/
structure RuntimeType where
  type : ObjectType
  accepted : Bool

/-- Asks the type resolver, or else the predicates of the possible types in order. -/
def runtimeTypeName (env : Environment State Object Item) (info : ResolveInfo Object Item)
    (abstract : String) (value : Resolved Object Item) : StateM State (Option String × Bool) :=
  match env.executable.typeResolver? abstract with
  | some resolve => do
    let name? ← resolve value info
    pure (name?, false)
  | none => do
    let name? ← firstAccepting env info value (env.schema.possibleTypes abstract)
    pure (name?, true)

def resolveType (env : Environment State Object Item) (info : ResolveInfo Object Item)
    (path : Path) (abstract : String) (value : Resolved Object Item) : Exec State RuntimeType := do
  match ← Exec.call (runtimeTypeName env info abstract value) with
  | (none, _) => failAt info path (.unresolvedType abstract info.parent.name info.fieldName)
  | (some name, accepted) =>
    match env.schema.object? name with
    | none =>
      failAt info path
        (.resolvedToNoObject abstract info.parent.name info.fieldName value.display name)
    | some type =>
      if env.schema.isPossibleType abstract name then pure ⟨type, accepted⟩
      else failAt info path (.notPossibleType abstract name)

def completeObject (env : Environment State Object Item)
    (execute : ObjectExecutor State Object Item) (info : ResolveInfo Object Item) (path : Path)
    (runtime : RuntimeType) (value : Resolved Object Item) : Exec State Json := do
  let accepted ← match env.executable.typePredicate? runtime.type.name with
    | some accepts => if runtime.accepted then pure true else Exec.call (accepts value info)
    | none => pure true
  if accepted then
    let members ← execute path runtime.type value info.group.selections
    pure (.object members)
  else failAt info path (.rejectedByType runtime.type.name value.display)

def completeNamed (env : Environment State Object Item)
    (execute : ObjectExecutor State Object Item) (info : ResolveInfo Object Item) (path : Path)
    (name : String) (value : Resolved Object Item) : Exec State Json :=
  match env.schema.type? name with
  | none => failAt info path (.unknownType name)
  | some (.scalar scalar) => completeLeaf env info path (.scalar scalar) value
  | some (.enum type) => completeLeaf env info path (.enum type) value
  | some (.inputObject _) => failAt info path (.inputTypeAsOutput name)
  | some (.object type) => completeObject env execute info path ⟨type, false⟩ value
  | some (.interface _) | some (.union _) => do
    let runtime ← resolveType env info path name value
    completeObject env execute info path runtime value

/-- Completes what was resolved for a place of this type. -/
def complete (env : Environment State Object Item) (execute : ObjectExecutor State Object Item)
    (info : ResolveInfo Object Item) :
    TypeRef → Path → Except Failure (Resolved Object Item) → Exec State Json
  | .named name nonNull, path, resolved =>
    present info nonNull path resolved (completeNamed env execute info path name)
  | .list item nonNull, path, resolved =>
    present info nonNull path resolved
      (completeList env info path item (complete env execute info item))

end Completion

end GraphQL
