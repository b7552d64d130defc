import GraphQL.Proofs.Execution.Plain
import GraphQL.Proofs.Execution.Termination
import Mathlib.Data.List.Forall2

/-! # Projection of conforming data

Without hooks, data that fits the schema is answered with the part of it that was asked for, and
without an error: every field has the property of its name, serialized or projected in turn. -/

namespace GraphQL

variable {State Object Item : Type}

/-- Data that can be read as a value of an output type. A property that is missing counts as null,
and no value but null fits an abstract type. -/
inductive Schema.Fits (schema : Schema) : TypeRef → Json → Prop
  | null {type} (nullable : TypeRef.nonNull type = false) : Fits schema type .null
  | list {item nonNull values} (each : ∀ value ∈ values, Fits schema item value) :
      Fits schema (.list item nonNull) (.array values)
  | leaf {name nonNull definition value result} (found : schema.type? name = some definition)
      (present : Json.isNull value = false)
      (serialized : definition.serialize? value = some result) :
      Fits schema (.named name nonNull) value
  | object {name nonNull type members} (found : schema.type? name = some (.object type))
      (each : ∀ field ∈ type.fields.entries,
        Fits schema field.type (Json.property field.name (.object members))) :
      Fits schema (.named name nonNull) (.object members)

/-- Every object can be asked for the name of its type: the scalar String is there for it, and no
type declares a field that takes its place. -/
structure Schema.NamesTypes (schema : Schema) : Prop where
  string : schema.type? "String" = some (.scalar "String")
  typename : ∀ name definition, schema.type? name = some definition →
    definition.ownField? "__typename" = none

namespace Environment

/-! ## The reference projection -/

section

variable (env : Environment State Object Item)

/-- The serialized value of a leaf type. -/
def projectLeaf (name : String) (value : Json) : Json :=
  ((env.schema.type? name).bind fun definition => definition.serialize? value).getD .null

/-- The members for the fields selected on an object, given how its properties are projected. -/
def projectFields (type : ObjectType) (selections : List Selection)
    (properties : List (String × (TypeRef → List Selection → Json))) : Members :=
  (env.selectedFields type selections).map fun (group, definition) =>
    (group.key,
      if group.first.name = "__typename" then .string type.name
      else
        ((Entries.get? group.first.name properties).map fun project =>
          project definition.type group.selections).getD .null)

mutual

/-- The part of a value of a type that selections ask for. -/
def project : Json → TypeRef → List Selection → Json
  | .null, _, _ => .null
  | .array values, .list item _, selections => .array (projectItems values item selections)
  | .object members, .named name _, selections =>
    match env.schema.type? name with
    | some (.object type) => .object (env.projectFields type selections (projectMembers members))
    | _ => env.projectLeaf name (.object members)
  | value, .named name _, _ => env.projectLeaf name value
  | _, .list _ _, _ => .null

def projectItems : List Json → TypeRef → List Selection → List Json
  | [], _, _ => []
  | value :: rest, type, selections =>
    project value type selections :: projectItems rest type selections

def projectMembers : Members → List (String × (TypeRef → List Selection → Json))
  | [] => []
  | (name, value) :: rest => (name, project value) :: projectMembers rest

end

theorem projectItems_eq (values : List Json) (type : TypeRef) (selections : List Selection) :
    env.projectItems values type selections =
      values.map fun value => env.project value type selections := by
  induction values with
  | nil => rw [projectItems, List.map_nil]
  | cons value rest ih => rw [projectItems, ih, List.map_cons]

theorem get?_projectMembers (name : String) (members : Members) :
    Entries.get? name (env.projectMembers members) =
      (Entries.get? name members).map env.project := by
  induction members with
  | nil => rfl
  | cons member rest ih =>
      obtain ⟨key, value⟩ := member
      rw [projectMembers, Entries.get?, Entries.get?, ih]
      split <;> rfl

/-- Each field has the projection of the property with its name, whatever its response key is. -/
theorem projectFields_eq (type : ObjectType) (selections : List Selection) (members : Members) :
    env.projectFields type selections (env.projectMembers members) =
      (env.selectedFields type selections).map fun (group, definition) =>
        (group.key,
          if group.first.name = "__typename" then .string type.name
          else
            env.project (Json.property group.first.name (.object members)) definition.type
              group.selections) := by
  refine List.map_congr_left ?_
  rintro ⟨group, definition⟩ -
  simp only [get?_projectMembers, Json.property]
  cases Entries.get? group.first.name members with
  | none => simp [project]
  | some value => simp

end

/-! ## Fields that can be answered -/

/-- The fields that are collected where data is read as a value of a type. -/
inductive Collects (env : Environment State Object Item) (field : FieldGroup × FieldDefinition) :
    TypeRef → List Selection → Json → Prop
  | here {name nonNull type selections members}
      (found : env.schema.type? name = some (.object type))
      (selected : field ∈ env.selectedFields type selections) :
      Collects env field (.named name nonNull) selections (.object members)
  | item {item nonNull selections values value} (hmem : value ∈ values)
      (collects : Collects env field item selections value) :
      Collects env field (.list item nonNull) selections (.array values)
  | property {name nonNull type selections members group definition}
      (found : env.schema.type? name = some (.object type))
      (selected : (group, definition) ∈ env.selectedFields type selections)
      (collects : Collects env field definition.type group.selections
        (Json.property group.first.name (.object members))) :
      Collects env field (.named name nonNull) selections (.object members)

theorem Collects.exists_object {env : Environment State Object Item}
    {field : FieldGroup × FieldDefinition} {name : String} {nonNull : Bool}
    {selections : List Selection} {value : Json}
    (h : env.Collects field (.named name nonNull) selections value) :
    ∃ type, env.schema.type? name = some (.object type) := by
  cases h with
  | here found | property found => exact ⟨_, found⟩

/-- A field is not an introspection field, and its arguments can be coerced. -/
structure Answerable (env : Environment State Object Item)
    (field : FieldGroup × FieldDefinition) : Prop where
  schema : field.1.first.name ≠ "__schema"
  type : field.1.first.name ≠ "__type"
  arguments : ∃ arguments, env.schema.coerceArguments field.2.arguments
    field.1.first.arguments env.request.variableValues = .ok arguments

/-- Within some depth, a value of a type is completed to its projection, wherever all fields that
are collected can be answered. -/
def Projects (env : Environment State Object Item) (depth : Nat) (type : TypeRef) (value : Json) :
    Prop :=
  ∀ info path, (∀ field, env.Collects field type info.group.selections value →
      env.Answerable field) →
    Completion.complete env (env.executeSelections depth) info type path (.ok (.json value)) =
      pure (env.project value type info.group.selections)

end Environment

/-! ## Completion of data that fits -/

theorem Completion.fill_eq_pure {env : Environment State Object Item}
    {execute : ObjectExecutor State Object Item} {path : Path}
    {pendings : List (Pending State Object Item)} {values : List (PathSegment × Json)}
    (h : List.Forall₂ (fun pending value =>
      pending.segment = value.1 ∧ fillOne env execute path pending = pure value.2)
      pendings values) :
    fill env execute path pendings = pure values := by
  induction h with
  | nil => rfl
  | @cons pending value _ _ hhead _ ih =>
      obtain ⟨segment, value⟩ := value
      obtain ⟨rfl, hvalue⟩ := hhead
      rw [fill_cons_eq, hvalue, ih, pure_bind, map_pure]

theorem membersOf_map {α : Type} (name : α → String) (value : α → Json) (entries : List α) :
    membersOf (entries.map fun entry => (.key (name entry), value entry)) =
      entries.map fun entry => (name entry, value entry) := by
  induction entries with
  | nil => rfl
  | cons entry rest ih => exact congrArg _ ih

theorem Completion.fill_fields_eq_pure {env : Environment State Object Item}
    {execute : ObjectExecutor State Object Item} {path : Path} {type : ObjectType}
    {source : Resolved Object Item} {fields : List (FieldGroup × FieldDefinition)}
    {value : FieldGroup × FieldDefinition → Json}
    (h : ∀ field ∈ fields, fillOne env execute path
        { segment := .key field.1.key
          type := field.2.type
          info := env.infoOf path type field.2 field.1
          resolve := env.resolution (env.infoOf path type field.2 field.1) source } =
      pure (value field)) :
    fill env execute path (env.fieldsOf path type source fields) =
      pure (fields.map fun field => (.key field.1.key, value field)) := by
  apply fill_eq_pure
  rw [Environment.fieldsOf, List.forall₂_map_left_iff, List.forall₂_map_right_iff,
    List.forall₂_same]
  exact fun field hmem => ⟨rfl, h field hmem⟩

theorem Completion.completeItems_eq_pure {path : Path} {type : TypeRef}
    {complete : Path → Except Failure (Resolved Object Item) → Exec State Json}
    {project : Json → Json} {values : List Json}
    (h : ∀ value ∈ values, ∀ path, complete path (.ok (.json value)) = pure (project value))
    (position : Nat) :
    completeItems path type complete position
        (values.map fun value => pure (.ok (.json value))) =
      pure (values.map project) := by
  induction values generalizing position with
  | nil => rfl
  | cons value rest ih =>
      obtain ⟨hvalue, hrest⟩ := List.forall_mem_cons.mp h
      have hhead : Exec.nullify type (complete (path ++ [.index position]) (.ok (.json value))) =
          (pure (project value) : Exec State Json) := by
        rw [hvalue]
        rfl
      simp only [List.map_cons, completeItems, Exec.call_pure, pure_bind, ih hrest]
      exact (congrArg (· >>= _) hhead).trans (pure_bind _ _)

theorem Json.depth_property_le (field : String) (members : Members) :
    (Json.property field (.object members)).depth ≤ Json.memberDepths members := by
  induction members with
  | nil => exact Nat.zero_le _
  | cons member rest ih =>
      obtain ⟨key, value⟩ := member
      rw [Json.memberDepths]
      by_cases hkey : key = field
      · simp only [property, Entries.get?, hkey, ite_true]
        exact Nat.le_max_left _ _
      · simp only [property, Entries.get?, hkey, ite_false] at ih ⊢
        exact Nat.le_trans ih (Nat.le_max_right _ _)

theorem Json.depth_le_depths {values : List Json} {value : Json} (h : value ∈ values) :
    value.depth ≤ Json.depths values := by
  induction values with
  | nil => cases h
  | cons item rest ih =>
      rw [Json.depths]
      rcases List.mem_cons.mp h with rfl | h
      · exact Nat.le_max_left _ _
      · exact Nat.le_trans (ih h) (Nat.le_max_right _ _)

namespace Environment

variable {env : Environment State Object Item}

namespace Plain

theorem complete_leaf (plain : env.Plain) (execute : ObjectExecutor State Object Item)
    (info : ResolveInfo Object Item) {name : String} (nonNull : Bool)
    {definition : TypeDefinition} (found : env.schema.type? name = some definition)
    {value result : Json} (present : value.isNull = false)
    (serialized : definition.serialize? value = some result) (path : Path) :
    Completion.complete env execute info (.named name nonNull) path (.ok (.json value)) =
      pure result := by
  rw [Completion.complete_eq, plain.examine_json, Schema.find_leaf found present serialized,
    Exec.call_pure, pure_bind]
  rfl

theorem project_leaf {name : String} (nonNull : Bool) {definition : TypeDefinition}
    (found : env.schema.type? name = some definition) {value result : Json}
    (present : value.isNull = false) (serialized : definition.serialize? value = some result)
    (selections : List Selection) :
    env.project value (.named name nonNull) selections = result := by
  have hleaf : env.projectLeaf name value = result := by
    simp [projectLeaf, found, serialized]
  cases value with
  | null => cases present
  | object members =>
      rw [project, found]
      cases definition with
      | object type => cases serialized
      | _ => exact hleaf
  | _ => exact hleaf

/-- A field that an object type has is its own, or the one that has the name of the type. -/
theorem own_or_typename
    (names : env.schema.NamesTypes)
    {type : ObjectType} (found : env.schema.type? type.name = some (.object type))
    {group : FieldGroup} {definition : FieldDefinition}
    (field : env.schema.field? type.name group.first.name = some definition)
    (answerable : env.Answerable (group, definition)) :
    (group.first.name = "__typename" ∧ definition = typenameField) ∨
      (group.first.name ≠ "__typename" ∧ definition ∈ type.fields.entries ∧
        definition.name = group.first.name) := by
  rw [Schema.field?, found, Option.bind_some, TypeDefinition.ownField?] at field
  cases hown : type.fields.find? group.first.name with
  | some own =>
      simp only [hown, Option.some.injEq] at field
      subst field
      refine .inr ⟨?_, Catalog.mem_of_find? hown, Catalog.name_of_find? hown⟩
      intro hname
      have hnone := names.typename type.name _ found
      rw [TypeDefinition.ownField?, ← hname, hown] at hnone
      cases hnone
  | none =>
      simp only [hown] at field
      split at field
      · rename_i hname
        exact .inl ⟨hname.1, (Option.some.inj field).symm⟩
      · split at field
        · unfold introspectionField? at field
          split at field
          · exact absurd ‹_› answerable.schema
          · exact absurd ‹_› answerable.type
          · cases field
        · cases field

theorem read_typename (info : ResolveInfo Object Item) {arguments : Members}
    (coerced : env.schema.coerceArguments info.definition.arguments info.group.first.arguments
      env.request.variableValues = .ok arguments)
    (name : info.fieldName = "__typename") (source : Json) :
    env.read info source = .ok (.json (.string info.parent.name)) := by
  rw [read, coerced, name]
  rfl

theorem read_property (info : ResolveInfo Object Item) {arguments : Members}
    (coerced : env.schema.coerceArguments info.definition.arguments info.group.first.arguments
      env.request.variableValues = .ok arguments)
    (typename : info.fieldName ≠ "__typename") (schema : info.fieldName ≠ "__schema")
    (type : info.fieldName ≠ "__type") (source : Json) :
    env.read info source = .ok (.json (source.property info.fieldName)) := by
  have hbuiltIn : (builtIn? info.parent info.fieldName :
      Option (Except Failure (Resolved Object Item))) = none := by
    unfold builtIn?
    split <;> trivial
  rw [read, coerced, hbuiltIn]
  rfl

/-- Every field selected on an object is filled with the projection of its property. -/
theorem fillOne_fits (plain : env.Plain)
    (names : env.schema.NamesTypes)
    {depth : Nat} {type : ObjectType} {members : Members}
    (found : env.schema.type? type.name = some (.object type))
    (properties : ∀ field ∈ type.fields.entries,
      env.Projects depth field.type (Json.property field.name (.object members)))
    {selections : List Selection} {nonNull : Bool} (answerable : ∀ field,
      env.Collects field (.named type.name nonNull) selections (.object members) →
        env.Answerable field) (path : Path) :
    ∀ field ∈ env.selectedFields type selections,
      Completion.fillOne env (env.executeSelections depth) path
          { segment := .key field.1.key
            type := field.2.type
            info := env.infoOf path type field.2 field.1
            resolve := env.resolution (env.infoOf path type field.2 field.1)
              (.json (.object members)) } =
        pure (if field.1.first.name = "__typename" then .string type.name
          else
            env.project (Json.property field.1.first.name (.object members)) field.2.type
              field.1.selections) := by
  rintro ⟨group, definition⟩ hmem
  have hanswerable := answerable _ (.here found hmem)
  obtain ⟨arguments, hcoerced⟩ := hanswerable.arguments
  rw [Completion.fillOne, plain.resolution_json]
  rcases own_or_typename names found (mem_selectedFields hmem).2 hanswerable with
    ⟨hname, rfl⟩ | ⟨hname, hown, hproperty⟩
  · rw [read_typename (env.infoOf path type typenameField group) hcoerced hname, if_pos hname,
      Exec.call_pure, pure_bind]
    change Exec.nullify _ (Completion.complete env _ _ (.named "String" true) _ _) = _
    rw [plain.complete_leaf _ _ true names.string rfl rfl]
    rfl
  · rw [read_property (env.infoOf path type definition group) hcoerced hname
      hanswerable.schema hanswerable.type, if_neg hname, Exec.call_pure, pure_bind]
    have hcomplete := properties definition hown
    rw [hproperty] at hcomplete
    exact congrArg (Exec.nullify definition.type)
      (hcomplete (env.infoOf path type definition group) _
        (fun field hfield => answerable field (.property found hmem hfield)))

/-- An object whose properties are completed to their projections is executed to its own. -/
theorem executeSelections_fits (plain : env.Plain)
    (names : env.schema.NamesTypes)
    {depth : Nat} {type : ObjectType} {members : Members}
    (found : env.schema.type? type.name = some (.object type))
    (properties : ∀ field ∈ type.fields.entries,
      env.Projects depth field.type (Json.property field.name (.object members)))
    {selections : List Selection} {nonNull : Bool} (answerable : ∀ field,
      env.Collects field (.named type.name nonNull) selections (.object members) →
        env.Answerable field) (path : Path) :
    env.executeSelections (depth + 1) path type (.json (.object members)) selections =
      pure (env.projectFields type selections (env.projectMembers members)) := by
  rw [executeSelections_succ, Completion.fill_fields_eq_pure
    (plain.fillOne_fits names found properties answerable path), map_pure,
    projectFields_eq, membersOf_map]

/-- Data that fits is completed to its projection, within its own depth. -/
theorem projects_of_fits (plain : env.Plain)
    (names : env.schema.NamesTypes)
    {type : TypeRef} {value : Json} (fits : env.schema.Fits type value) (depth : Nat)
    (hdepth : value.depth ≤ depth) : env.Projects depth type value := by
  induction fits generalizing depth with
  | null nullable =>
      intro info path answerable
      rw [Completion.complete_eq, plain.examine_json, Schema.find_null nullable]
      simp [Completion.conclude, project]
  | @list item nonNull values each ih =>
      intro info path answerable
      rw [Json.depth] at hdepth
      have hitems : ∀ value ∈ values, ∀ path,
          Completion.complete env (env.executeSelections depth) info item path (.ok (.json value)) =
            pure (env.project value item info.group.selections) := by
        intro value hmem path
        have hvalue := Json.depth_le_depths hmem
        exact ih value hmem depth (by omega) info path
          fun field hfield => answerable field (.item hmem hfield)
      rw [Completion.complete_eq, plain.examine_json, Schema.find_list]
      simp [Completion.conclude, project, Completion.completeItems_eq_pure hitems, projectItems_eq]
  | leaf found present serialized =>
      intro info path answerable
      rw [plain.complete_leaf _ info _ found present serialized,
        project_leaf _ found present serialized]
  | @object name nonNull type members found each ih =>
      intro info path answerable
      rw [Json.depth] at hdepth
      obtain ⟨depth, rfl⟩ := Nat.exists_eq_add_of_le' (Nat.le_of_add_right_le hdepth)
      obtain rfl : type.name = name := Catalog.name_of_find? found
      have hproperties : ∀ field ∈ type.fields.entries,
          env.Projects depth field.type (Json.property field.name (.object members)) := by
        intro field hmem
        have hvalue := Json.depth_property_le field.name members
        exact ih field hmem depth (by omega)
      have hexecute := plain.executeSelections_fits names found hproperties
        answerable path
      rw [Completion.complete_eq, plain.examine_json, Schema.find_object found rfl, Exec.call_pure,
        pure_bind, Completion.conclude, hexecute, pure_bind, project, found]

end Plain

end Environment

theorem Schema.type?_of_rootType? {schema : Schema} {kind : OperationKind} {type : ObjectType}
    (h : schema.rootType? kind = some type) :
    schema.type? type.name = some (.object type) := by
  obtain ⟨name, -, hobject⟩ := Option.bind_eq_some_iff.mp h
  obtain ⟨definition, hfound, hdefinition⟩ := Option.bind_eq_some_iff.mp hobject
  cases definition with
  | object found =>
      obtain rfl := Option.some.inj hdefinition
      obtain rfl : found.name = name := Catalog.name_of_find? hfound
      exact hfound
  | _ => cases hdefinition

theorem Request.depth_lt_depthBound (request : Request State Object Item) :
    request.root.depth < request.depthBound := by
  rw [depthBound]
  omega

/-- A request for data that fits is answered with its projection, without an error and without a
change of the service's state. -/
theorem Request.execute_fits {schema : Schema} {service : Service State Object Item}
    {request : Request State Object Item} (names : schema.NamesTypes)
    (resolver : request.fieldResolver? = none) {value : Json} (root : request.root = .json value)
    {env : Environment State Object Item} {type : ObjectType}
    (prepared : request.prepare (.plain schema) service = .ok (env, type))
    (fits : schema.Fits (.named type.name true) value)
    (answerable : ∀ field,
      env.Collects field (.named type.name true) env.request.operation.selections value →
        env.Answerable field) (state : State) :
    ∃ members, value = .object members ∧
      request.execute (.plain schema) service state =
        some (.ok
          { errors := []
            data := .object (env.projectFields type env.request.operation.selections
              (env.projectMembers members)) }, state) := by
  have hplain := plain_of_prepare resolver prepared
  obtain ⟨operation, coerced, -, -, hroot, henv⟩ := prepare_eq_ok_iff.mp prepared
  have hschema : env.schema = schema := by rw [henv]; rfl
  have hvalue : env.request.root = .json value := by rw [henv, ← root]
  have hfound := Schema.type?_of_rootType? hroot
  subst hschema
  cases fits with
  | null nullable => cases nullable
  | leaf found _ serialized =>
      cases hfound.symm.trans found
      cases serialized
  | @object _ _ _ members found each =>
      cases hfound.symm.trans found
      have hdepth := request.depth_lt_depthBound
      rw [root, Resolved.depth, Json.depth] at hdepth
      obtain ⟨depth, hbound⟩ := Nat.exists_eq_add_of_le' (Nat.one_le_of_lt hdepth)
      have hproperties : ∀ field ∈ type.fields.entries,
          env.Projects depth field.type (Json.property field.name (.object members)) := by
        intro field hmem
        have hproperty := Json.depth_property_le field.name members
        exact hplain.projects_of_fits names (each field hmem) depth (by omega)
      have hrun : env.run request.depthBound type =
          pure (env.projectFields type env.request.operation.selections
            (env.projectMembers members)) := by
        rw [Environment.run, hvalue, hbound]
        exact hplain.executeSelections_fits names found hproperties answerable []
      refine ⟨members, rfl, ?_⟩
      rw [execute, executeWithin, prepared]
      simp only [hrun]
      rfl

namespace Sample

def meHead : FieldHead := { alias? := some "me", name := "user", location := ⟨1, 3⟩ }

/-- The operation `{ me: user { name } __typename }`. -/
def ownName : Operation :=
  { kind := .query
    location := ⟨1, 1⟩
    selections :=
      [.field meHead [.field nameHead []],
        .field { name := "__typename", location := ⟨1, 21⟩ } []] }

def ada : Json :=
  .object [("id", .integer 1), ("user", .object [("name", .string "Ada"), ("age", .integer 36)])]

def ownNameRequest : Request Unit Empty Empty :=
  { document := [.operation ownName], root := .json ada }

def plainEnvironment : Environment Unit Empty Empty where
  executable := .plain schema
  service := service
  fieldResolver := service.defaultResolver
  request :=
    { schema, operation := ownName, variableValues := [], fragments := .empty, root := .json ada }

theorem namesTypes : schema.NamesTypes where
  string := rfl
  typename name definition found := by
    have hmem := Catalog.mem_of_find? found
    simp only [schema, List.mem_cons, List.not_mem_nil, or_false] at hmem
    rcases hmem with rfl | rfl | rfl <;> rfl

theorem ada_fits : schema.Fits (.named "Query" true) ada := by
  refine .object rfl (List.forall_mem_singleton.mpr ?_)
  refine .object rfl (List.forall_mem_singleton.mpr ?_)
  exact .leaf rfl rfl rfl

theorem selectedFields_ownName :
    plainEnvironment.selectedFields query ownName.selections =
      [(⟨"me", ⟨meHead, [.field nameHead []]⟩, []⟩,
          { name := "user", type := .named "User" false }),
        (⟨"__typename", ⟨{ name := "__typename", location := ⟨1, 21⟩ }, []⟩, []⟩,
          typenameField)] := by
  have hwalk : (plainEnvironment.scope query).Walk [] ownName.selections
      [⟨meHead, [.field nameHead []]⟩, ⟨{ name := "__typename", location := ⟨1, 21⟩ }, []⟩] [] :=
    .field rfl (.field rfl (.nil []))
  rw [Environment.selectedFields, hwalk.collectFields_eq]
  rfl

theorem answerable_name {field : FieldGroup × FieldDefinition} {value : Json}
    (h : plainEnvironment.Collects field (.named "User" false) [.field nameHead []] value) :
    plainEnvironment.Answerable field := by
  cases h with
  | here found selected =>
      cases found
      rw [selectedFields_name rfl] at selected
      obtain rfl := List.mem_singleton.mp selected
      exact ⟨by decide, by decide, [], rfl⟩
  | property found selected collects =>
      cases found
      rw [selectedFields_name rfl] at selected
      cases List.mem_singleton.mp selected
      obtain ⟨_, hstring⟩ := collects.exists_object
      cases hstring

theorem answerable_ownName {field : FieldGroup × FieldDefinition} {value : Json}
    (h : plainEnvironment.Collects field (.named "Query" true) ownName.selections value) :
    plainEnvironment.Answerable field := by
  cases h with
  | here found selected =>
      cases found
      rw [selectedFields_ownName] at selected
      simp only [List.mem_cons, List.not_mem_nil, or_false] at selected
      rcases selected with rfl | rfl
      · exact ⟨by decide, by decide, [], rfl⟩
      · exact ⟨by decide, by decide, [], rfl⟩
  | property found selected collects =>
      cases found
      rw [selectedFields_ownName] at selected
      simp only [List.mem_cons, List.not_mem_nil, or_false] at selected
      rcases selected with heq | heq
      · cases heq
        exact answerable_name collects
      · cases heq
        obtain ⟨_, hstring⟩ := collects.exists_object
        cases hstring

theorem project_user :
    plainEnvironment.project (.object [("name", .string "Ada"), ("age", .integer 36)])
      (.named "User" false) [.field nameHead []] = .object [("name", .string "Ada")] := by
  have hfields : plainEnvironment.projectFields user [.field nameHead []]
      (plainEnvironment.projectMembers [("name", .string "Ada"), ("age", .integer 36)]) =
        [("name", .string "Ada")] := by
    rw [Environment.projectFields, selectedFields_name rfl]
    rfl
  rw [Environment.project]
  exact congrArg Json.object hfields

/-- Ada's name is asked for under another key, along with the name of the type. -/
theorem ada_execute_fits :
    ownNameRequest.execute (.plain schema) service () =
      some (.ok
        { errors := []
          data := .object
            [("me", .object [("name", .string "Ada")]), ("__typename", .string "Query")] },
        ()) := by
  have hprepare : ownNameRequest.prepare (.plain schema) service =
      .ok (plainEnvironment, query) := rfl
  obtain ⟨members, hmembers, h⟩ := Request.execute_fits namesTypes rfl rfl hprepare ada_fits
    (fun field => answerable_ownName) ()
  cases hmembers
  have hfields : plainEnvironment.projectFields query ownName.selections
      (plainEnvironment.projectMembers
        [("id", .integer 1), ("user", .object [("name", .string "Ada"), ("age", .integer 36)])]) =
      [("me", .object [("name", .string "Ada")]), ("__typename", .string "Query")] := by
    rw [Environment.projectFields, selectedFields_ownName, ← project_user]
    rfl
  rw [← hfields]
  exact h

end Sample

end GraphQL
