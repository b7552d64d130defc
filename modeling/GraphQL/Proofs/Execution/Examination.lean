import GraphQL.Execution.Selections
import GraphQL.Proofs.Schema.LeafForm

/-! # Examination of resolved values

Completing a value has two parts. Examining it calls hooks and finds out what the value is at its
declared type, or what is wrong with it. Going on from there executes what lies below. -/

namespace GraphQL

/-- What a resolved value is at its declared type, before anything below it is executed. -/
inductive Finding (State Object Item : Type) where
  | failed (failure : Failure)
  | null
  | leaf (value : Json)
  | list (item : TypeRef) (items : List (StateM State (ResolverResult Object Item)))
  | object (type : ObjectType) (source : Resolved Object Item)

variable {State Object Item α β : Type}

/-! ## Calls -/

namespace Exec

@[simp] theorem call_pure (value : α) :
    call (Pure.pure value : StateM State α) = Pure.pure value := rfl

theorem call_bind (hook : StateM State α) (next : α → StateM State β) :
    call (hook >>= next) = call hook >>= fun value => call (next value) := by
  ext1 state
  rfl

theorem call_map (f : α → β) (hook : StateM State α) :
    call (f <$> hook) = f <$> call hook := by
  ext1 state
  rfl

/-- A call never fails, so that what follows goes on from its value and state. -/
theorem call_bind_apply (hook : StateM State α) (next : α → Exec State β) (state : State) :
    (call hook >>= next) state = next (hook.run state).1 (hook.run state).2 := by
  change Option.map _ (next (hook.run state).1 (hook.run state).2) = _
  simp only [List.nil_append, Option.map_id']

end Exec

/-- Every value that a call can give has the property. -/
def Gives (hook : StateM State α) (property : α → Prop) : Prop :=
  ∀ state, property (hook.run state).1

theorem Gives.pure {property : α → Prop} {value : α} (h : property value) :
    Gives (Pure.pure value : StateM State α) property := fun _ => h

theorem Gives.bind {first : StateM State α} {next : α → StateM State β} {middle : α → Prop}
    {property : β → Prop} (h : Gives first middle)
    (hnext : ∀ value, middle value → Gives (next value) property) :
    Gives (first >>= next) property :=
  fun state => hnext _ (h state) _

theorem Gives.anything (hook : StateM State α) : Gives hook fun _ => True := fun _ => trivial

namespace Completion

variable (env : Environment State Object Item) (info : ResolveInfo Object Item)

def examineLeaf (definition : TypeDefinition) (value : Resolved Object Item) :
    StateM State (Finding State Object Item) := do
  match ← serialize? env definition value with
  | some result =>
    if result.isNull then pure (.failed (.notSerializable definition.name value.display))
    else pure (.leaf result)
  | none => pure (.failed (.notSerializable definition.name value.display))

def examineObject (runtime : RuntimeType) (value : Resolved Object Item) :
    StateM State (Finding State Object Item) := do
  let accepted ← match env.executable.typePredicate? runtime.type.name with
    | some accepts => if runtime.accepted then pure true else accepts value info
    | none => pure true
  if accepted then pure (.object runtime.type value)
  else pure (.failed (.rejectedByType runtime.type.name value.display))

/-- The object type that a value of an abstract type is examined as. -/
def runtimeType (abstract : String) (value : Resolved Object Item) :
    StateM State (Except Failure RuntimeType) := do
  match ← runtimeTypeName env info abstract value with
  | (none, _) => pure (.error (.unresolvedType abstract info.parent.name info.fieldName))
  | (some name, accepted) =>
    match env.schema.object? name with
    | none =>
      pure (.error
        (.resolvedToNoObject abstract info.parent.name info.fieldName value.display name))
    | some type =>
      if env.schema.isPossibleType abstract name then pure (.ok ⟨type, accepted⟩)
      else pure (.error (.notPossibleType abstract name))

/-- A value of an abstract type is examined as the object type that was found for it. -/
def examineRuntime (value : Resolved Object Item) :
    Except Failure RuntimeType → StateM State (Finding State Object Item)
  | .ok runtime => examineObject env info runtime value
  | .error failure => pure (.failed failure)

def examineNamed (name : String) (value : Resolved Object Item) :
    StateM State (Finding State Object Item) :=
  match env.schema.type? name with
  | none => pure (.failed (.unknownType name))
  | some (.scalar scalar) => examineLeaf env (.scalar scalar) value
  | some (.enum type) => examineLeaf env (.enum type) value
  | some (.inputObject _) => pure (.failed (.inputTypeAsOutput name))
  | some (.object type) => examineObject env info ⟨type, false⟩ value
  | some (.interface _) | some (.union _) =>
    runtimeType env info name value >>= examineRuntime env info value

def examinePresent (value : Resolved Object Item) :
    TypeRef → StateM State (Finding State Object Item)
  | .named name _ => examineNamed env info name value
  | .list item _ =>
    match items? env.service value with
    | some items => pure (.list item items)
    | none => pure (.failed (.notIterable info.parent.name info.fieldName))

def examine (type : TypeRef) :
    Except Failure (Resolved Object Item) → StateM State (Finding State Object Item)
  | .error failure => pure (.failed failure)
  | .ok value =>
    if value.isNull then
      if type.nonNull then pure (.failed (.nullNotAllowed info.parent.name info.fieldName))
      else pure .null
    else examinePresent env info value type

/-- Goes on from what was found at a place. -/
def conclude (execute : ObjectExecutor State Object Item) (path : Path) :
    Finding State Object Item → Exec State Json
  | .failed failure => failAt info path failure
  | .null => pure .null
  | .leaf value => pure value
  | .list item items => do
    let values ← completeItems path item (complete env execute info item) 0 items
    pure (.array values)
  | .object type source => do
    let members ← execute path type source info.group.selections
    pure (.object members)

/-! ## Completion examines, then concludes -/

variable (execute : ObjectExecutor State Object Item) (path : Path)

theorem failAt_bind (failure : Failure) (next : α → Exec State β) :
    (failAt info path failure >>= next) = failAt info path failure := rfl

theorem completeLeaf_eq (definition : TypeDefinition) (value : Resolved Object Item) :
    completeLeaf env info path definition value =
      Exec.call (examineLeaf env definition value) >>= conclude env info execute path := by
  rw [completeLeaf, examineLeaf, Exec.call_bind, bind_assoc]
  apply bind_congr
  intro result?
  cases result? with
  | none => simp [conclude]
  | some result => by_cases h : result.isNull <;> simp [h, conclude]

theorem completeObject_eq (runtime : RuntimeType) (value : Resolved Object Item) :
    completeObject env execute info path runtime value =
      Exec.call (examineObject env info runtime value) >>= conclude env info execute path := by
  rw [completeObject, examineObject]
  cases env.executable.typePredicate? runtime.type.name with
  | none => simp [conclude]
  | some accepts =>
      by_cases h : runtime.accepted
      · simp [h, conclude]
      · simp only [h, Bool.false_eq_true, ite_false]
        rw [Exec.call_bind, bind_assoc]
        apply bind_congr
        intro accepted
        cases accepted <;> simp [conclude]

theorem resolveType_eq (abstract : String) (value : Resolved Object Item) :
    resolveType env info path abstract value =
      Exec.call (runtimeType env info abstract value) >>= fun runtime =>
        match runtime with
        | .ok runtime => pure runtime
        | .error failure => failAt info path failure := by
  rw [resolveType, runtimeType, Exec.call_bind, bind_assoc]
  apply bind_congr
  rintro ⟨name?, accepted⟩
  cases name? with
  | none => simp
  | some name =>
      cases hobject : env.schema.object? name with
      | none => simp [hobject]
      | some type => by_cases h : env.schema.isPossibleType abstract name <;> simp [hobject, h]

theorem completeNamed_eq (name : String) (value : Resolved Object Item) :
    completeNamed env execute info path name value =
      Exec.call (examineNamed env info name value) >>= conclude env info execute path := by
  have habstract :
      (do
        let runtime ← resolveType env info path name value
        completeObject env execute info path runtime value) =
      Exec.call (runtimeType env info name value >>= examineRuntime env info value) >>=
        conclude env info execute path := by
    rw [resolveType_eq, Exec.call_bind, bind_assoc, bind_assoc]
    apply bind_congr
    intro runtime
    cases runtime with
    | error failure => simp [examineRuntime, conclude, failAt_bind]
    | ok runtime => simp [examineRuntime, completeObject_eq]
  rw [completeNamed, examineNamed]
  cases env.schema.type? name with
  | none => simp [conclude]
  | some definition =>
      cases definition with
      | scalar scalar => exact completeLeaf_eq env info execute path (.scalar scalar) value
      | enum type => exact completeLeaf_eq env info execute path (.enum type) value
      | inputObject type => simp [conclude]
      | object type => exact completeObject_eq env info execute path ⟨type, false⟩ value
      | interface type => exact habstract
      | union type => exact habstract

/-- Completing a value is examining it and going on from what was found. -/
theorem complete_eq (type : TypeRef) (resolved : Except Failure (Resolved Object Item)) :
    complete env execute info type path resolved =
      Exec.call (examine env info type resolved) >>= conclude env info execute path := by
  cases resolved with
  | error failure => cases type <;> simp [complete, present, examine, conclude]
  | ok value =>
      by_cases hnull : value.isNull
      · cases type with
        | named name nonNull =>
            cases nonNull <;> simp [complete, present, examine, conclude, hnull, TypeRef.nonNull]
        | list item nonNull =>
            cases nonNull <;> simp [complete, present, examine, conclude, hnull, TypeRef.nonNull]
      · cases type with
        | named name nonNull =>
            simp [complete, present, examine, examinePresent, hnull, completeNamed_eq]
        | list item nonNull =>
            simp only [complete, present, examine, examinePresent, hnull, completeList]
            cases items? env.service value <;> simp [conclude]

end Completion

/-! ## What a finding says about its type -/

/-- The object types of the values at a named type: the type itself, or the possible types of an
interface or union. -/
inductive Schema.Admits (schema : Schema) (name : String) : ObjectType → Prop
  | itself {type : ObjectType} (found : schema.type? name = some (.object type)) :
      Admits schema name type
  | possible {type : ObjectType} {runtime : String} (found : schema.object? runtime = some type)
      (possible : schema.isPossibleType name runtime) : Admits schema name type

/-- What a finding other than a failure says about the type it was found at, and a null about what
was resolved. -/
inductive Finding.Fits (executable : ExecutableSchema State Object Item) :
    TypeRef → Except Failure (Resolved Object Item) → Finding State Object Item → Prop
  | failed {type resolved} (failure : Failure) : Fits executable type resolved (.failed failure)
  | null {type value} (nullable : TypeRef.nonNull type = false)
      (null : Resolved.isNull value = true) : Fits executable type (.ok value) .null
  | leaf {name nonNull resolved definition value}
      (found : executable.schema.type? name = some definition)
      (form : executable.LeafForm definition value) :
      Fits executable (.named name nonNull) resolved (.leaf value)
  | list {item nonNull resolved} (items : List (StateM State (ResolverResult Object Item))) :
      Fits executable (.list item nonNull) resolved (.list item items)
  | object {name nonNull resolved type} (source : Resolved Object Item)
      (admits : executable.schema.Admits name type) :
      Fits executable (.named name nonNull) resolved (.object type source)

namespace Completion

variable (env : Environment State Object Item) (info : ResolveInfo Object Item)

theorem gives_serialize? {definition : TypeDefinition} (leaf : definition.isLeaf)
    (value : Resolved Object Item) :
    Gives (serialize? env definition value) fun result? =>
      ∀ result, result? = some result → result.isNull = false →
        env.executable.LeafForm definition result := by
  intro state result h present
  cases value with
  | json raw => exact ExecutableSchema.leafForm_serialize? leaf h present
  | object object => cases h
  | list items => cases h

theorem gives_examineLeaf {name : String} {definition : TypeDefinition} (nonNull : Bool)
    (found : env.schema.type? name = some definition) (leaf : definition.isLeaf)
    (value : Resolved Object Item) :
    Gives (examineLeaf env definition value)
      (Finding.Fits env.executable (.named name nonNull) (.ok value)) := by
  refine (gives_serialize? env leaf value).bind ?_
  intro result? hform
  cases result? with
  | none => exact .pure (.failed _)
  | some result =>
      cases hnull : result.isNull with
      | true => simpa [hnull] using Gives.pure (.failed _)
      | false => simpa [hnull] using Gives.pure (.leaf found (hform result rfl hnull))

/-- A value is taken for an object as it is, or refused. -/
theorem gives_object_or_failure (runtime : RuntimeType) (value : Resolved Object Item) :
    Gives (examineObject env info runtime value) fun finding =>
      finding = .object runtime.type value ∨ ∃ failure, finding = .failed failure := by
  have haccepted (accepted : Bool) :
      Gives (if accepted then pure (.object runtime.type value)
        else pure (.failed (.rejectedByType runtime.type.name value.display)) :
          StateM State (Finding State Object Item)) fun finding =>
        finding = .object runtime.type value ∨ ∃ failure, finding = .failed failure := by
    cases accepted with
    | true => exact .pure (.inl rfl)
    | false => exact .pure (.inr ⟨_, rfl⟩)
  rw [examineObject]
  cases env.executable.typePredicate? runtime.type.name with
  | none => exact haccepted true
  | some accepts =>
      cases runtime.accepted with
      | true => exact haccepted true
      | false =>
          exact (Gives.anything (accepts value info)).bind fun accepted _ => haccepted accepted

theorem gives_examineObject {name : String} (nonNull : Bool) {runtime : RuntimeType}
    (admits : env.schema.Admits name runtime.type) (value : Resolved Object Item) :
    Gives (examineObject env info runtime value)
      (Finding.Fits env.executable (.named name nonNull) (.ok value)) := by
  intro state
  rcases gives_object_or_failure env info runtime value state with hobject | ⟨failure, hfailed⟩
  · exact hobject ▸ .object value admits
  · exact hfailed ▸ .failed failure

theorem gives_runtimeType (abstract : String) (value : Resolved Object Item) :
    Gives (runtimeType env info abstract value) fun runtime =>
      ∀ found, runtime = .ok found → env.schema.Admits abstract found.type := by
  refine (Gives.anything (runtimeTypeName env info abstract value)).bind ?_
  rintro ⟨name?, accepted⟩ -
  cases name? with
  | none => exact .pure (by simp)
  | some name =>
      cases hobject : env.schema.object? name with
      | none => simpa [hobject] using Gives.pure (by simp)
      | some type =>
          by_cases h : env.schema.isPossibleType abstract name
          · have hadmits : env.schema.Admits abstract type := .possible hobject h
            simp only [hobject, h, ite_true]
            exact .pure (by rintro found ⟨⟩; exact hadmits)
          · simpa [hobject, h] using Gives.pure (by simp)

theorem gives_examineNamed (name : String) (nonNull : Bool) (value : Resolved Object Item) :
    Gives (examineNamed env info name value)
      (Finding.Fits env.executable (.named name nonNull) (.ok value)) := by
  have habstract :
      Gives (runtimeType env info name value >>= examineRuntime env info value)
        (Finding.Fits env.executable (.named name nonNull) (.ok value)) := by
    refine (gives_runtimeType env info name value).bind ?_
    intro runtime hadmits
    cases runtime with
    | error failure => exact .pure (.failed _)
    | ok found => exact gives_examineObject env info nonNull (hadmits found rfl) value
  rw [examineNamed]
  cases hfound : env.schema.type? name with
  | none => exact .pure (.failed _)
  | some definition =>
      cases definition with
      | scalar scalar => exact gives_examineLeaf env nonNull hfound rfl value
      | enum type => exact gives_examineLeaf env nonNull hfound rfl value
      | inputObject type => exact .pure (.failed _)
      | object type => exact gives_examineObject env info nonNull (.itself hfound) value
      | interface type => exact habstract
      | union type => exact habstract

/-- Whatever examination finds fits the type it was asked about. -/
theorem gives_examine (type : TypeRef) (resolved : Except Failure (Resolved Object Item)) :
    Gives (examine env info type resolved) (Finding.Fits env.executable type resolved) := by
  cases resolved with
  | error failure => exact .pure (.failed _)
  | ok value =>
      rw [examine]
      split
      · rename_i hvalue
        cases hnull : type.nonNull with
        | true => exact .pure (.failed _)
        | false => exact .pure (.null hnull hvalue)
      · cases type with
        | named name nonNull => exact gives_examineNamed env info name nonNull value
        | list item nonNull =>
            rw [examinePresent]
            cases items? env.service value with
            | none => exact .pure (.failed _)
            | some items => exact .pure (.list items)

end Completion

/-! ## Resolution of fields -/

namespace Environment

variable (env : Environment State Object Item)

/-- What hooks are told about a field of an object at `path`. -/
def infoOf (path : Path) (type : ObjectType) (definition : FieldDefinition) (group : FieldGroup) :
    ResolveInfo Object Item :=
  ⟨env.request, type, definition, group, path ++ [.key group.key]⟩

/-- The resolver's answer for a field with coerced arguments. -/
def answer (info : ResolveInfo Object Item) (source : Resolved Object Item)
    (arguments : Members) : StateM State (Except Failure (Resolved Object Item)) :=
  match env.executable.resolver? info.parent.name info.fieldName with
  | some run => (·.mapError Failure.resolver) <$> run source arguments info
  | none =>
    match builtIn? info.parent info.fieldName with
    | some answer => pure answer
    | none => (·.mapError Failure.resolver) <$> env.fieldResolver source arguments info

/-- What a field resolves to, or why it does not. -/
def resolution (info : ResolveInfo Object Item) (source : Resolved Object Item) :
    StateM State (Except Failure (Resolved Object Item)) :=
  match env.schema.coerceArguments info.definition.arguments info.group.first.arguments
      env.request.variableValues with
  | .ok arguments => env.answer info source arguments
  | .error error => pure (.error (.arguments error))

theorem resolve_eq (info : ResolveInfo Object Item) (source : Resolved Object Item)
    (arguments : Members) :
    env.resolve info source arguments = Exec.call (env.answer info source arguments) := by
  rw [resolve, answer]
  cases env.executable.resolver? info.parent.name info.fieldName with
  | some run => exact (Exec.call_map _ _).symm
  | none =>
      cases hbuiltIn : (builtIn? info.parent info.fieldName :
          Option (Except Failure (Resolved Object Item))) with
      | some answer => simp
      | none => simpa [hbuiltIn] using (Exec.call_map _ _).symm

/-- Executing a field is calling for its value, completing it, and holding a null if allowed. -/
theorem executeField_eq (execute : ObjectExecutor State Object Item) (path : Path)
    (type : ObjectType) (source : Resolved Object Item) (definition : FieldDefinition)
    (group : FieldGroup) :
    env.executeField execute path type source definition group =
      Exec.nullify definition.type
        (Exec.call (env.resolution (env.infoOf path type definition group) source) >>=
          Completion.complete env execute (env.infoOf path type definition group) definition.type
            (path ++ [.key group.key])) := by
  rw [executeField, resolution]
  simp only [infoOf]
  cases env.schema.coerceArguments definition.arguments group.first.arguments
      env.request.variableValues with
  | ok arguments => simp [resolve_eq]
  | error error => simp

end Environment

end GraphQL
