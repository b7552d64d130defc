import GraphQL.Proofs.Schema.Catalogs
import GraphQL.Schema.Executable

/-! # What a built schema holds

A builder keeps two records of the hooks it is given: tables, which hooks with improper names never
enter, and a list of places to check in the end. A schema is built if all these places are proper,
also those of hooks that were replaced, and then its tables have the last hook of each place. -/

namespace GraphQL

variable {State Object Item : Type} {schema : Schema}

/-! ## Proper places -/

namespace HookPlace

/-- The type that a place belongs to. -/
def type : HookPlace → String
  | .resolver type _ => type
  | .serializer type => type
  | .typeResolver type => type
  | .typePredicate type => type

/-- Whether types of that kind have such places. -/
def suits : HookPlace → TypeDefinition → Bool
  | .resolver _ _, definition => definition.object?.isSome
  | .serializer _, definition => definition.isLeaf
  | .typeResolver _, definition => definition.isAbstract
  | .typePredicate _, definition => definition.object?.isSome

/-- The error for a type of a kind that has no such places. -/
def misfit : HookPlace → TypeKind → HookError
  | .resolver type _ => .notObjectType type
  | .serializer type => .notLeafType type
  | .typeResolver type => .notAbstractType type
  | .typePredicate type => .notObjectType type

theorem exists_object_of_suits {type field : String} {definition : TypeDefinition}
    (h : (resolver type field).suits definition = true) :
    ∃ object, definition = .object object := by
  cases definition with
  | object object => exact ⟨object, rfl⟩
  | _ => cases h

end HookPlace

namespace Schema

/-- A field that hooks may be given for: one that the object type declares, the one for its name,
and at the query root those that describe the schema. -/
def HasField (schema : Schema) (type field : String) : Prop :=
  (∃ object, schema.object? type = some object ∧ object.fields.contains field = true) ∨
    field = "__typename" ∨
    schema.query? = some type ∧ (field = "__schema" ∨ field = "__type")

/-- A hook may be given for the place. -/
structure Accepts (schema : Schema) (place : HookPlace) : Prop where
  names : ∀ name ∈ place.names, isName name = true
  kind : ∃ definition, schema.type? place.type = some definition ∧ place.suits definition = true
  field : ∀ type field, place = .resolver type field → schema.HasField type field

/-- No hook may be given for the place, for a reason: the first of its names that is none, or else
its type, or else its field. -/
inductive Rejects (schema : Schema) : HookPlace → HookError → Prop
  | name {place : HookPlace} {before after : List String} {name : String}
      (names : place.names = before ++ name :: after)
      (proper : ∀ earlier ∈ before, isName earlier = true) (improper : isName name = false) :
      Rejects schema place (.invalidName name)
  | type {place : HookPlace} (proper : ∀ name ∈ place.names, isName name = true)
      (missing : schema.type? place.type = none) : Rejects schema place (.undefinedType place.type)
  | kind {place : HookPlace} {definition : TypeDefinition}
      (proper : ∀ name ∈ place.names, isName name = true)
      (found : schema.type? place.type = some definition)
      (other : place.suits definition = false) :
      Rejects schema place (place.misfit definition.kind)
  | field {type field : String} {object : ObjectType}
      (proper : ∀ name ∈ [type, field], isName name = true)
      (found : schema.type? type = some (.object object)) (missing : ¬schema.HasField type field) :
      Rejects schema (.resolver type field) (.undefinedField type field)

theorem field?_isSome_iff {type : String} {object : ObjectType}
    (found : schema.type? type = some (.object object)) (field : String) :
    (schema.field? type field).isSome = true ↔ schema.HasField type field := by
  have hobject : schema.object? type = some object := by rw [object?, found]; rfl
  have hintrospection :
      (introspectionField? field).isSome = true ↔ field = "__schema" ∨ field = "__type" := by
    unfold introspectionField?
    split <;> simp_all
  simp only [HasField, hobject, Option.some.injEq, exists_eq_left']
  rw [field?, found, Option.bind_some, TypeDefinition.ownField?, Catalog.contains]
  cases object.fields.find? field with
  | some declared => simp
  | none =>
      by_cases htypename : field = "__typename"
      · simp [htypename, TypeDefinition.object?]
      · by_cases hquery : schema.query? = some type <;> simp [htypename, hquery, hintrospection]

/-! ## Checks -/

theorem checkName_eq_ok_iff {name : String} : checkName name = .ok () ↔ isName name = true := by
  by_cases h : isName name = true <;> simp [checkName, h]

theorem checkName_of_improper {name : String} (h : isName name = false) :
    checkName name = .error (.invalidName name) := by
  simp [checkName, h]

end Schema

/-! ## Checking one thing after another -/

section Checking

variable {ε α : Type} {check : α → Except ε Unit}

theorem forM_cons (first : α) (rest : List α) :
    (first :: rest).forM check = (check first).bind fun _ => rest.forM check := rfl

theorem forM_eq_ok_iff {list : List α} :
    list.forM check = .ok () ↔ ∀ item ∈ list, check item = .ok () := by
  induction list with
  | nil => exact iff_of_true rfl nofun
  | cons first rest ih =>
      rw [forM_cons, List.forall_mem_cons, ← ih]
      cases check first with
      | ok value => simp [Except.bind]
      | error error => simp [Except.bind]

/-- The first check that fails gives the error. -/
theorem forM_eq_error_iff {list : List α} {error : ε} :
    list.forM check = .error error ↔
      ∃ before item after, list = before ++ item :: after ∧
        (∀ earlier ∈ before, check earlier = .ok ()) ∧ check item = .error error := by
  constructor
  · intro h
    induction list with
    | nil => cases h
    | cons first rest ih =>
        rw [forM_cons] at h
        cases hfirst : check first with
        | error other =>
            rw [hfirst] at h
            exact ⟨[], first, rest, rfl, nofun, hfirst.trans h⟩
        | ok value =>
            rw [hfirst] at h
            obtain ⟨before, item, after, rfl, hbefore, hitem⟩ := ih h
            exact ⟨first :: before, item, after, rfl,
              List.forall_mem_cons.mpr ⟨hfirst, hbefore⟩, hitem⟩
  · rintro ⟨before, item, after, rfl, hbefore, hitem⟩
    induction before with
    | nil => rw [List.nil_append, forM_cons, hitem]; rfl
    | cons first before ih =>
        obtain ⟨hfirst, hbefore⟩ := List.forall_mem_cons.mp hbefore
        rw [List.cons_append, forM_cons, hfirst]
        exact ih hbefore

end Checking

namespace Schema

/-- What is looked at once the type is known to be of the right kind. -/
def checkField (schema : Schema) : HookPlace → Except HookError Unit
  | .resolver type field =>
    if (schema.field? type field).isSome then .ok () else .error (.undefinedField type field)
  | _ => .ok ()

/-- All places are checked alike: the names, the type, its kind, the field. -/
theorem checkPlace_eq (place : HookPlace) :
    schema.checkPlace place =
      (place.names.forM checkName).bind fun _ =>
        (schema.definedType place.type).bind fun definition =>
          if place.suits definition then schema.checkField place
          else .error (place.misfit definition.kind) := by
  cases place with
  | resolver type field =>
      simp only [checkPlace, checkObjectType, HookPlace.names, HookPlace.type, HookPlace.suits,
        HookPlace.misfit, checkField, forM_cons]
      cases checkName type with
      | error error => rfl
      | ok value =>
          cases checkName field with
          | error error => rfl
          | ok value =>
              cases schema.definedType type with
              | error error => rfl
              | ok definition => cases definition <;> rfl
  | serializer type =>
      simp only [checkPlace, HookPlace.names, forM_cons]
      cases checkName type <;> rfl
  | typeResolver type =>
      simp only [checkPlace, HookPlace.names, forM_cons]
      cases checkName type <;> rfl
  | typePredicate type =>
      simp only [checkPlace, checkObjectType, HookPlace.names, forM_cons]
      cases checkName type <;> rfl

theorem forM_checkName_eq_ok_iff {names : List String} :
    names.forM checkName = .ok () ↔ ∀ name ∈ names, isName name = true := by
  simp only [forM_eq_ok_iff, checkName_eq_ok_iff]

theorem definedType_of_some {type : String} {definition : TypeDefinition}
    (h : schema.type? type = some definition) : schema.definedType type = .ok definition := by
  rw [definedType, h]

theorem definedType_of_none {type : String} (h : schema.type? type = none) :
    schema.definedType type = .error (.undefinedType type) := by
  rw [definedType, h]

/-- If the names are names and the type is of the right kind, only the field is left to check. -/
theorem checkPlace_eq_checkField {place : HookPlace} {definition : TypeDefinition}
    (names : ∀ name ∈ place.names, isName name = true)
    (found : schema.type? place.type = some definition) (suits : place.suits definition = true) :
    schema.checkPlace place = schema.checkField place := by
  rw [checkPlace_eq, forM_checkName_eq_ok_iff.mpr names, definedType_of_some found]
  exact if_pos suits

theorem checkPlace_of_accepts {place : HookPlace} (h : schema.Accepts place) :
    schema.checkPlace place = .ok () := by
  obtain ⟨definition, found, suits⟩ := h.kind
  rw [checkPlace_eq_checkField h.names found suits]
  cases place with
  | resolver type field =>
      obtain ⟨object, rfl⟩ := HookPlace.exists_object_of_suits suits
      exact if_pos ((field?_isSome_iff found field).mpr (h.field type field rfl))
  | _ => rfl

theorem checkPlace_of_rejects {place : HookPlace} {error : HookError}
    (h : schema.Rejects place error) : schema.checkPlace place = .error error := by
  cases h with
  | name names proper improper =>
      have hfirst : place.names.forM checkName = .error (.invalidName _) :=
        forM_eq_error_iff.mpr ⟨_, _, _, names,
          fun earlier hmem => checkName_eq_ok_iff.mpr (proper earlier hmem),
          checkName_of_improper improper⟩
      rw [checkPlace_eq, hfirst]
      rfl
  | type proper missing =>
      rw [checkPlace_eq, forM_checkName_eq_ok_iff.mpr proper, definedType_of_none missing]
      rfl
  | kind proper found other =>
      rw [checkPlace_eq, forM_checkName_eq_ok_iff.mpr proper, definedType_of_some found]
      exact if_neg (by simp [other])
  | field proper found missing =>
      rw [@checkPlace_eq_checkField _ (.resolver _ _) _ proper found rfl]
      exact if_neg (mt (field?_isSome_iff found _).mp missing)

/-- Each place is proper, or there is a reason why it is not. -/
theorem accepts_or_rejects (schema : Schema) (place : HookPlace) :
    schema.Accepts place ∨ ∃ error, schema.Rejects place error := by
  cases hnames : place.names.forM checkName with
  | error error =>
      obtain ⟨before, name, after, hsplit, hbefore, hname⟩ := forM_eq_error_iff.mp hnames
      refine .inr ⟨_, .name hsplit (fun earlier hmem => checkName_eq_ok_iff.mp (hbefore _ hmem)) ?_⟩
      rw [← Bool.not_eq_true, ← checkName_eq_ok_iff, hname]
      nofun
  | ok value =>
      have proper := forM_checkName_eq_ok_iff.mp hnames
      cases found : schema.type? place.type with
      | none => exact .inr ⟨_, .type proper found⟩
      | some definition =>
          cases suits : place.suits definition with
          | false => exact .inr ⟨_, .kind proper found suits⟩
          | true =>
              by_cases hfield :
                  ∀ type field, place = .resolver type field → schema.HasField type field
              · exact .inl ⟨proper, ⟨definition, found, suits⟩, hfield⟩
              · simp only [not_forall] at hfield
                obtain ⟨type, field, rfl, missing⟩ := hfield
                obtain ⟨object, rfl⟩ := HookPlace.exists_object_of_suits suits
                exact .inr ⟨_, .field proper found missing⟩

/-- The check succeeds at proper places. -/
theorem checkPlace_eq_ok_iff {place : HookPlace} :
    schema.checkPlace place = .ok () ↔ schema.Accepts place := by
  refine ⟨fun h => ?_, checkPlace_of_accepts⟩
  rcases schema.accepts_or_rejects place with haccepts | ⟨error, hrejects⟩
  · exact haccepts
  · cases h.symm.trans (checkPlace_of_rejects hrejects)

/-- The check fails at other places, with the reason why they are not proper. -/
theorem checkPlace_eq_error_iff {place : HookPlace} {error : HookError} :
    schema.checkPlace place = .error error ↔ schema.Rejects place error := by
  refine ⟨fun h => ?_, checkPlace_of_rejects⟩
  rcases schema.accepts_or_rejects place with haccepts | ⟨other, hrejects⟩
  · cases h.symm.trans (checkPlace_of_accepts haccepts)
  · cases h.symm.trans (checkPlace_of_rejects hrejects)
    exact hrejects

end Schema

/-! ## Tables -/

namespace ExecutableSchema

/-- The hook that is found for a place. -/
def hook? (executable : ExecutableSchema State Object Item) :
    HookPlace → Option (Hook State Object Item)
  | .resolver type field => (executable.resolver? type field).map (.resolver type field)
  | .serializer type => (executable.serializer? type).map (.serializer type)
  | .typeResolver type => (executable.typeResolver? type).map (.typeResolver type)
  | .typePredicate type => (executable.typePredicate? type).map (.typePredicate type)

theorem resolver?_attach (executable : ExecutableSchema State Object Item)
    (run : Resolver State Object Item) (type field otherType otherField : String) :
    (executable.attach (.resolver type field run)).resolver? otherType otherField =
      if type = otherType ∧ field = otherField then some run
      else executable.resolver? otherType otherField := by
  rw [resolver?, resolver?, attach, Entries.get?_insert]
  by_cases htype : type = otherType
  · subst htype
    rw [if_pos rfl, Option.bind_some, Entries.get?_insert]
    cases Entries.get? type executable.resolvers <;> simp [Entries.get?]
  · rw [if_neg htype, if_neg fun h => htype h.1]

/-- A hook is found at its own place from then on, and nothing changes at other places. -/
theorem hook?_attach (executable : ExecutableSchema State Object Item)
    (hook : Hook State Object Item) (place : HookPlace) :
    (executable.attach hook).hook? place =
      if hook.place = place then some hook else executable.hook? place := by
  by_cases h : hook.place = place
  · subst h
    rw [if_pos rfl]
    cases hook <;>
      simp [attach, hook?, Hook.place, resolver?, serializer?, typeResolver?, typePredicate?,
        Entries.get?_insert]
  · rw [if_neg h]
    cases hook <;> cases place
    case resolver.resolver type field run otherType otherField =>
      rw [hook?, hook?, resolver?_attach, if_neg]
      rintro ⟨rfl, rfl⟩
      exact h rfl
    case serializer.serializer | typeResolver.typeResolver | typePredicate.typePredicate =>
      simp only [attach, hook?, serializer?, typeResolver?, typePredicate?]
      rw [Entries.get?_insert, if_neg]
      rintro rfl
      exact h rfl
    all_goals rfl

@[simp]
theorem schema_attach (executable : ExecutableSchema State Object Item)
    (hook : Hook State Object Item) : (executable.attach hook).schema = executable.schema := by
  cases hook <;> rfl

end ExecutableSchema

/-! ## Builders -/

namespace SchemaBuilder

variable {builder : SchemaBuilder State Object Item} {hooks : List (Hook State Object Item)}

@[simp]
theorem schema_add (hook : Hook State Object Item) :
    (builder.add hook).executable.schema = builder.executable.schema := by
  rw [add]
  split
  · exact ExecutableSchema.schema_attach _ _
  · rfl

theorem add_of_proper {hook : Hook State Object Item}
    (proper : ∀ name ∈ hook.place.names, isName name = true) :
    (builder.add hook).executable = builder.executable.attach hook :=
  if_pos (List.all_eq_true.mpr proper)

/-- The list of places does not depend on what the tables take. -/
theorem places_foldl :
    (hooks.foldl add builder).places = builder.places ++ hooks.map Hook.place := by
  induction hooks generalizing builder with
  | nil => simp
  | cons hook hooks ih => simp [ih, add]

theorem schema_foldl :
    (hooks.foldl add builder).executable.schema = builder.executable.schema := by
  induction hooks generalizing builder with
  | nil => rfl
  | cons hook hooks ih => rw [List.foldl_cons, ih, schema_add]

/-- If no name is improper, the tables have the last hook of each place. -/
theorem hook?_foldl (schema : Schema)
    (proper : ∀ hook ∈ hooks, ∀ name ∈ hook.place.names, isName name = true) (place : HookPlace)
    (hook : Hook State Object Item) :
    (hooks.foldl add { executable := { schema } }).executable.hook? place = some hook ↔
      LastWith (fun other => other.place = place) hooks hook := by
  induction hooks using List.reverseRecOn with
  | nil =>
      have hempty : ({ schema } : ExecutableSchema State Object Item).hook? place = none := by
        cases place <;> rfl
      simp [LastWith, hempty]
  | append_singleton hooks last ih =>
      obtain ⟨hproper, hlast⟩ := List.forall_mem_append.mp proper
      rw [List.foldl_concat, add_of_proper (hlast last List.mem_cons_self),
        ExecutableSchema.hook?_attach, LastWith.concat_iff, ← ih hproper]
      by_cases hplace : last.place = place <;> simp [hplace, eq_comm]

end SchemaBuilder

/-! ## Building -/

namespace ExecutableSchema

variable {hooks : List (Hook State Object Item)}

theorem build_eq (schema : Schema) (hooks : List (Hook State Object Item)) :
    build schema hooks =
      ((hooks.map Hook.place).forM schema.checkPlace).bind fun _ =>
        .ok (hooks.foldl SchemaBuilder.add { executable := { schema } }).executable := by
  rw [build, SchemaBuilder.build, SchemaBuilder.places_foldl, SchemaBuilder.schema_foldl]
  rfl

theorem build_eq_ok_iff {executable : ExecutableSchema State Object Item} :
    build schema hooks = .ok executable ↔
      (∀ hook ∈ hooks, schema.Accepts hook.place) ∧
        executable = (hooks.foldl SchemaBuilder.add { executable := { schema } }).executable := by
  have haccepts : (hooks.map Hook.place).forM schema.checkPlace = .ok () ↔
      ∀ hook ∈ hooks, schema.Accepts hook.place := by
    rw [forM_eq_ok_iff, List.forall_mem_map]
    simp only [Schema.checkPlace_eq_ok_iff]
  rw [build_eq, ← haccepts]
  cases (hooks.map Hook.place).forM schema.checkPlace with
  | ok value => simp [Except.bind, eq_comm]
  | error error => simp [Except.bind]

/-- The error is that of the first hook in a place that is not proper. -/
theorem build_eq_error_iff {error : HookError} :
    build schema hooks = .error error ↔
      ∃ before hook after, hooks = before ++ hook :: after ∧
        (∀ earlier ∈ before, schema.Accepts earlier.place) ∧ schema.Rejects hook.place error := by
  have hchecks : build schema hooks = .error error ↔
      (hooks.map Hook.place).forM schema.checkPlace = .error error := by
    rw [build_eq]
    cases (hooks.map Hook.place).forM schema.checkPlace <;> simp [Except.bind]
  rw [hchecks, forM_eq_error_iff]
  simp only [Schema.checkPlace_eq_ok_iff, Schema.checkPlace_eq_error_iff]
  constructor
  · rintro ⟨before, place, after, hplaces, hbefore, hplace⟩
    obtain ⟨earlier, later, rfl, rfl, hlater⟩ := List.map_eq_append_iff.mp hplaces
    obtain ⟨hook, rest, rfl, rfl, rfl⟩ := List.map_eq_cons_iff.mp hlater
    exact ⟨earlier, hook, rest, rfl, List.forall_mem_map.mp hbefore, hplace⟩
  · rintro ⟨before, hook, after, rfl, hbefore, hhook⟩
    exact ⟨before.map Hook.place, hook.place, after.map Hook.place, by simp,
      List.forall_mem_map.mpr hbefore, hhook⟩

/-- A built schema has the last hook of each place, and none where none was given. -/
theorem hook?_build {executable : ExecutableSchema State Object Item}
    (h : build schema hooks = .ok executable) (place : HookPlace) :
    (∀ hook, executable.hook? place = some hook ↔
        LastWith (fun other => other.place = place) hooks hook) ∧
      (executable.hook? place = none ↔ ∀ hook ∈ hooks, hook.place ≠ place) := by
  obtain ⟨haccepts, rfl⟩ := build_eq_ok_iff.mp h
  have hlast := SchemaBuilder.hook?_foldl schema (fun hook hmem => (haccepts hook hmem).names) place
  refine ⟨hlast, ?_⟩
  constructor
  · intro hempty
    rcases LastWith.exists_or_none (fun other => other.place = place) hooks with
      ⟨hook, hhook⟩ | hnone
    · cases hempty.symm.trans ((hlast hook).mpr hhook)
    · exact hnone
  · intro hnone
    refine Option.eq_none_iff_forall_ne_some.mpr fun hook hhook => ?_
    obtain ⟨before, after, hsplit, hplace, -⟩ := (hlast hook).mp hhook
    exact hnone hook (hsplit ▸ List.mem_append_right before List.mem_cons_self) hplace

/-- Building succeeds if all hooks, also those that are replaced, are given for proper places, and
fails with the reason of the first that is not. A built schema is the given one with the last hook
of each place. -/
theorem build_iff (schema : Schema) (hooks : List (Hook State Object Item)) :
    ((∃ executable, build schema hooks = .ok executable) ↔
        ∀ hook ∈ hooks, schema.Accepts hook.place) ∧
      (∀ error, build schema hooks = .error error ↔
        ∃ before hook after, hooks = before ++ hook :: after ∧
          (∀ earlier ∈ before, schema.Accepts earlier.place) ∧
            schema.Rejects hook.place error) ∧
      ∀ executable, build schema hooks = .ok executable →
        executable.schema = schema ∧
          ∀ place,
            (∀ hook, executable.hook? place = some hook ↔
              LastWith (fun other => other.place = place) hooks hook) ∧
            (executable.hook? place = none ↔ ∀ hook ∈ hooks, hook.place ≠ place) := by
  refine ⟨?_, fun error => build_eq_error_iff, fun executable h => ⟨?_, hook?_build h⟩⟩
  · simp only [build_eq_ok_iff, exists_and_left, exists_eq, and_true]
  · obtain ⟨-, rfl⟩ := build_eq_ok_iff.mp h
    exact SchemaBuilder.schema_foldl

end ExecutableSchema

namespace Sample

/-- `type Query { count: Int }` -/
def counter : Schema where
  query? := some "Query"
  types :=
    ⟨[.scalar "Int",
      .object
        { name := "Query"
          fields := ⟨[{ name := "count", type := .named "Int" false }], by decide⟩ }],
      by decide⟩

def refusing : Serializer Unit := fun _ => pure none

def accepting : Serializer Unit := fun value => pure (some value)

def answering : Resolver Unit Unit Unit := fun _ _ _ => pure (.ok (.json (.integer 7)))

def counterHooks : List (Hook Unit Unit Unit) :=
  [.serializer "Int" refusing, .resolver "Query" "count" answering, .serializer "Int" accepting]

theorem counter_accepts : ∀ hook ∈ counterHooks, counter.Accepts hook.place := by
  have hserializer : counter.Accepts (.serializer "Int") :=
    ⟨by decide, ⟨.scalar "Int", rfl, rfl⟩, nofun⟩
  have hresolver : counter.Accepts (.resolver "Query" "count") := by
    refine ⟨by decide, ⟨_, rfl, rfl⟩, ?_⟩
    rintro type field ⟨⟩
    exact .inl ⟨_, rfl, rfl⟩
  simp only [counterHooks, List.forall_mem_cons, Hook.place]
  exact ⟨hserializer, hresolver, hserializer, nofun⟩

/-- The second serializer of the type replaces the first. -/
theorem counter_built :
    ∃ executable, ExecutableSchema.build counter counterHooks = .ok executable ∧
      executable.hook? (.serializer "Int") = some (.serializer "Int" accepting) ∧
      executable.hook? (.typePredicate "Query") = none := by
  obtain ⟨hbuilds, -, hbuilt⟩ := ExecutableSchema.build_iff counter counterHooks
  obtain ⟨executable, h⟩ := hbuilds.mpr counter_accepts
  obtain ⟨-, hhooks⟩ := hbuilt executable h
  refine ⟨executable, h, ((hhooks _).1 _).mpr ?_,
    (hhooks _).2.mpr (by simp [counterHooks, Hook.place])⟩
  exact ⟨[.serializer "Int" refusing, .resolver "Query" "count" answering], [], rfl, rfl, nofun⟩

end Sample

end GraphQL
