import GraphQL.Proofs.Execution.Run

/-! # Plain data

Without hooks, fields of JSON data are read from its members, and what is found at a place is
decided by the schema and the data alone. No call changes the state of the service. -/

namespace GraphQL

variable {State Object Item : Type}

namespace ExecutableSchema

/-- A schema without hooks. -/
def plain (schema : Schema) : ExecutableSchema State Object Item := { schema }

theorem build_nil (schema : Schema) :
    build schema ([] : List (Hook State Object Item)) = .ok (plain schema) := rfl

end ExecutableSchema

/-- The value that the default resolver finds for a field. -/
def Json.property (field : String) : Json → Json
  | .object members => (Entries.get? field members).getD .null
  | _ => .null

theorem Service.defaultResolver_json (service : Service State Object Item) (source : Json)
    (arguments : Members) (info : ResolveInfo Object Item) :
    service.defaultResolver (.json source) arguments info =
      pure (.ok (.json (source.property info.fieldName))) := by
  cases source <;> rfl

/-! ## What data is at its type -/

namespace Schema

variable (schema : Schema)

def findLeaf (definition : TypeDefinition) (value : Json) : Finding State Object Item :=
  match definition.serialize? value with
  | some result =>
    if result.isNull then .failed (.notSerializable definition.name value.write) else .leaf result
  | none => .failed (.notSerializable definition.name value.write)

/-- Without hooks no object type is found for a value of an abstract type. -/
def findNamed (parent field name : String) (value : Json) : Finding State Object Item :=
  match schema.type? name with
  | none => .failed (.unknownType name)
  | some (.scalar scalar) => findLeaf (.scalar scalar) value
  | some (.enum type) => findLeaf (.enum type) value
  | some (.inputObject _) => .failed (.inputTypeAsOutput name)
  | some (.object type) => .object type (.json value)
  | some (.interface _) | some (.union _) => .failed (.unresolvedType name parent field)

def findPresent (parent field : String) : TypeRef → Json → Finding State Object Item
  | .named name _, value => schema.findNamed parent field name value
  | .list item _, .array items => .list item (items.map fun item => pure (.ok (.json item)))
  | .list _ _, _ => .failed (.notIterable parent field)

/-- What the value of a field, or of an item of it, is at its declared type. -/
def find (parent field : String) (type : TypeRef) (value : Json) : Finding State Object Item :=
  if value.isNull then
    if type.nonNull then .failed (.nullNotAllowed parent field) else .null
  else schema.findPresent parent field type value

variable {schema : Schema} {parent field : String} {nonNull : Bool}

theorem find_null {type : TypeRef} (nullable : type.nonNull = false) :
    schema.find parent field type .null = (.null : Finding State Object Item) := by
  simp [find, Json.isNull, nullable]

theorem find_leaf {name : String} {definition : TypeDefinition}
    (found : schema.type? name = some definition) {value result : Json}
    (present : value.isNull = false) (serialized : definition.serialize? value = some result) :
    schema.find parent field (.named name nonNull) value =
      (.leaf result : Finding State Object Item) := by
  have hleaf : findLeaf definition value = (.leaf result : Finding State Object Item) := by
    simp [findLeaf, serialized, TypeDefinition.isNull_of_serialize? serialized present]
  rw [find, present, findPresent, findNamed, found]
  cases definition with
  | scalar scalar => exact hleaf
  | enum type => exact hleaf
  | _ => cases serialized

theorem find_list (item : TypeRef) (values : List Json) :
    schema.find parent field (.list item nonNull) (.array values) =
      (.list item (values.map fun value => pure (.ok (.json value))) :
        Finding State Object Item) := by
  simp [find, Json.isNull, findPresent]

theorem find_object {name : String} {type : ObjectType}
    (found : schema.type? name = some (.object type)) {value : Json}
    (present : value.isNull = false) :
    schema.find parent field (.named name nonNull) value =
      (.object type (.json value) : Finding State Object Item) := by
  simp [find, present, findPresent, findNamed, found]

/-- What findings other than failures say about the data they come from. -/
inductive Found (schema : Schema) : TypeRef → Json → Finding State Object Item → Prop
  | failed {type value} (failure : Failure) : Found schema type value (.failed failure)
  | null {type} (nullable : TypeRef.nonNull type = false) : Found schema type .null .null
  | leaf {name nonNull definition value result} (found : schema.type? name = some definition)
      (present : Json.isNull value = false)
      (serialized : definition.serialize? value = some result) :
      Found schema (.named name nonNull) value (.leaf result)
  | list {item nonNull} (values : List Json) :
      Found schema (.list item nonNull) (.array values)
        (.list item (values.map fun value => pure (.ok (.json value))))
  | object {name nonNull type value} (found : schema.type? name = some (.object type))
      (present : Json.isNull value = false) :
      Found schema (.named name nonNull) value (.object type (.json value))

theorem found_findLeaf {name : String} {definition : TypeDefinition}
    (found : schema.type? name = some definition) {value : Json} (present : value.isNull = false) :
    schema.Found (.named name nonNull) value
      (findLeaf definition value : Finding State Object Item) := by
  rw [findLeaf]
  cases hserialized : definition.serialize? value with
  | none => exact .failed _
  | some result =>
      have hresult := TypeDefinition.isNull_of_serialize? hserialized present
      simpa [hresult] using Found.leaf found present hserialized

theorem found_find (type : TypeRef) (value : Json) :
    schema.Found type value
      (schema.find parent field type value : Finding State Object Item) := by
  rw [find]
  cases hnull : value.isNull with
  | true =>
      cases value with
      | null =>
          cases hnonNull : type.nonNull with
          | true => exact .failed _
          | false => exact .null hnonNull
      | _ => cases hnull
  | false =>
      cases type with
      | list item nonNull =>
          cases value with
          | array values => exact .list values
          | _ => exact .failed _
      | named name nonNull =>
          simp only [Bool.false_eq_true, ite_false, findPresent, findNamed]
          cases hfound : schema.type? name with
          | none => exact .failed _
          | some definition =>
              cases definition with
              | scalar scalar => exact found_findLeaf hfound hnull
              | enum type => exact found_findLeaf hfound hnull
              | object type => exact .object hfound hnull
              | _ => exact .failed _

end Schema

/-! ## Environments without hooks -/

/-- No field has a hook, so that all fields are read by the default resolver. Types may have
hooks. -/
structure Environment.Unresolved (env : Environment State Object Item) : Prop where
  resolver? : ∀ type field, env.executable.resolver? type field = none
  fieldResolver : env.fieldResolver = env.service.defaultResolver

/-- There are no hooks, and fields are read by the default resolver. -/
structure Environment.Plain (env : Environment State Object Item) : Prop where
  executable : env.executable = .plain env.schema
  fieldResolver : env.fieldResolver = env.service.defaultResolver

namespace Environment

variable {env : Environment State Object Item}

/-- What a field of JSON data resolves to, or why it does not. -/
def read (env : Environment State Object Item) (info : ResolveInfo Object Item) (source : Json) :
    Except Failure (Resolved Object Item) :=
  match env.schema.coerceArguments info.definition.arguments info.group.first.arguments
      env.request.variableValues with
  | .error error => .error (.arguments error)
  | .ok _ =>
    (builtIn? info.parent info.fieldName).getD (.ok (.json (source.property info.fieldName)))

theorem Unresolved.resolution_json (unresolved : env.Unresolved) (info : ResolveInfo Object Item)
    (source : Json) : env.resolution info (.json source) = pure (env.read info source) := by
  rw [resolution, read]
  cases env.schema.coerceArguments info.definition.arguments info.group.first.arguments
      env.request.variableValues with
  | error error => rfl
  | ok arguments =>
      simp only [answer, unresolved.resolver?, unresolved.fieldResolver,
        Service.defaultResolver_json]
      cases (builtIn? info.parent info.fieldName :
        Option (Except Failure (Resolved Object Item))) <;> rfl

namespace Plain

theorem resolver? (plain : env.Plain) (type field : String) :
    env.executable.resolver? type field = none := by
  rw [plain.executable]
  rfl

theorem serializer? (plain : env.Plain) (type : String) :
    env.executable.serializer? type = none := by
  rw [plain.executable]
  rfl

theorem typeResolver? (plain : env.Plain) (type : String) :
    env.executable.typeResolver? type = none := by
  rw [plain.executable]
  rfl

theorem typePredicate? (plain : env.Plain) (type : String) :
    env.executable.typePredicate? type = none := by
  rw [plain.executable]
  rfl

theorem unresolved (plain : env.Plain) : env.Unresolved := ⟨plain.resolver?, plain.fieldResolver⟩

theorem resolution_json (plain : env.Plain) (info : ResolveInfo Object Item) (source : Json) :
    env.resolution info (.json source) = pure (env.read info source) :=
  plain.unresolved.resolution_json info source

variable (info : ResolveInfo Object Item)

theorem examineLeaf_json (plain : env.Plain) (definition : TypeDefinition) (value : Json) :
    Completion.examineLeaf env definition (.json value) =
      pure (Schema.findLeaf definition value) := by
  rw [Completion.examineLeaf, Completion.serialize?,
    ExecutableSchema.serialize?_of_unregistered (plain.serializer? _), pure_bind, Schema.findLeaf]
  cases definition.serialize? value with
  | none => rfl
  | some result => cases hnull : result.isNull <;> simp [hnull, Resolved.display]

theorem runtimeType_json (plain : env.Plain) (abstract : String) (value : Json) :
    Completion.runtimeType env info abstract (.json value) =
      pure (.error (.unresolvedType abstract info.parent.name info.fieldName)) := by
  have hfirst : ∀ types, Completion.firstAccepting env info (.json value) types = pure none := by
    intro types
    induction types with
    | nil => rfl
    | cons type rest ih => rw [Completion.firstAccepting, plain.typePredicate?, ih]
  rw [Completion.runtimeType, Completion.runtimeTypeName, plain.typeResolver?]
  simp [hfirst]

theorem examineNamed_json (plain : env.Plain) (name : String) (value : Json) :
    Completion.examineNamed env info name (.json value) =
      pure (env.schema.findNamed info.parent.name info.fieldName name value) := by
  rw [Completion.examineNamed, Schema.findNamed]
  cases env.schema.type? name with
  | none => rfl
  | some definition =>
      cases definition with
      | scalar scalar => exact plain.examineLeaf_json (.scalar scalar) value
      | enum type => exact plain.examineLeaf_json (.enum type) value
      | object type => simp [Completion.examineObject, plain.typePredicate?]
      | inputObject type => rfl
      | interface type => simp [plain.runtimeType_json, Completion.examineRuntime]
      | union type => simp [plain.runtimeType_json, Completion.examineRuntime]

/-- Examining data calls no hook. -/
theorem examine_json (plain : env.Plain) (type : TypeRef) (value : Json) :
    Completion.examine env info type (.ok (.json value)) =
      pure (env.schema.find info.parent.name info.fieldName type value) := by
  rw [Completion.examine, Schema.find]
  cases hnull : value.isNull with
  | true => cases type.nonNull <;> simp [Resolved.isNull, hnull]
  | false =>
      simp only [Resolved.isNull, hnull, Bool.false_eq_true, ite_false]
      cases type with
      | named name nonNull => exact plain.examineNamed_json info name value
      | list item nonNull => cases value <;> rfl

end Plain

end Environment

theorem Request.plain_of_prepare {schema : Schema} {service : Service State Object Item}
    {request : Request State Object Item} {env : Environment State Object Item}
    {type : ObjectType} (resolver : request.fieldResolver? = none)
    (h : request.prepare (.plain schema) service = .ok (env, type)) : env.Plain := by
  obtain ⟨_, _, -, -, -, rfl⟩ := prepare_eq_ok_iff.mp h
  exact ⟨rfl, by simp [resolver]⟩

end GraphQL
