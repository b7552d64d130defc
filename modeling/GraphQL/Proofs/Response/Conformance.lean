import GraphQL.Proofs.Execution.Validity
import Mathlib.Data.List.Forall2

/-! # Conformance of response data

Data conforms to the type of its place and to the selections that are asked of objects there. Null
may stand at every nullable place; an object has one member for each selected field that its type
has, in the order in which the fields were collected. -/

namespace GraphQL

variable {State Object Item : Type}

mutual

/-- A value that may stand at a place of a type. -/
inductive Conforms (env : Environment State Object Item) : TypeRef → List Selection → Json → Prop
  | null {type selections} (nullable : type.nonNull = false) : Conforms env type selections .null
  | list {item nonNull selections values}
      (items : ∀ value ∈ values, Conforms env item selections value) :
      Conforms env (.list item nonNull) selections (.array values)
  | leaf {name nonNull selections definition value}
      (found : env.schema.type? name = some definition)
      (form : env.executable.LeafForm definition value) :
      Conforms env (.named name nonNull) selections value
  | object {name nonNull selections type members} (admits : env.schema.Admits name type)
      (conforms : ObjectConforms env type selections members) :
      Conforms env (.named name nonNull) selections (.object members)

/-- The members that an object of a type may have. -/
inductive ObjectConforms (env : Environment State Object Item) :
    ObjectType → List Selection → Members → Prop
  | intro {type selections members} (distinct : (Entries.keys members).Nodup)
      (fields : FieldsConform env (env.selectedFields type selections) members) :
      ObjectConforms env type selections members

/-- The members that fields may have, in order. -/
inductive FieldsConform (env : Environment State Object Item) :
    List (FieldGroup × FieldDefinition) → Members → Prop
  | nil : FieldsConform env [] []
  | cons {group definition fields value members}
      (head : Conforms env definition.type group.selections value)
      (tail : FieldsConform env fields members) :
      FieldsConform env ((group, definition) :: fields) ((group.key, value) :: members)

end

theorem FieldsConform.keys_eq {env : Environment State Object Item} :
    ∀ {fields : List (FieldGroup × FieldDefinition)} {members : Members},
      FieldsConform env fields members →
        Entries.keys members = fields.map fun field => field.1.key
  | _, _, .nil => rfl
  | _, _, .cons _ tail => congrArg _ tail.keys_eq

/-! ## Data that a record settles on -/

/-- A value conforms to the place that it was pending for. -/
def Pending.Suits (env : Environment State Object Item) (pending : Pending State Object Item)
    (value : PathSegment × Json) : Prop :=
  value.1 = pending.segment ∧ Conforms env pending.type pending.info.group.selections value.2

theorem conforms_items {env : Environment State Object Item} {info : ResolveInfo Object Item}
    {item : TypeRef} {position : Nat} {items : List (StateM State (ResolverResult Object Item))}
    {values : List (PathSegment × Json)}
    (h : List.Forall₂ (Pending.Suits env) (Completion.itemsOf info item position items) values) :
    ∀ value ∈ values.map Prod.snd, Conforms env item info.group.selections value := by
  induction items generalizing position values with
  | nil =>
      cases h
      simp
  | cons head rest ih =>
      cases h with
      | cons hhead hrest =>
          intro value hmem
          rcases List.mem_cons.mp hmem with rfl | hmem
          · exact hhead.2
          · exact ih hrest value hmem

theorem conforms_fields {env : Environment State Object Item} {path : Path} {type : ObjectType}
    {source : Resolved Object Item} {fields : List (FieldGroup × FieldDefinition)}
    {values : List (PathSegment × Json)}
    (h : List.Forall₂ (Pending.Suits env) (env.fieldsOf path type source fields) values) :
    FieldsConform env fields (membersOf values) := by
  induction fields generalizing values with
  | nil =>
      cases h
      exact .nil
  | cons field rest ih =>
      cases h with
      | @cons _ value _ _ hhead hrest =>
          obtain ⟨segment, value⟩ := value
          obtain ⟨rfl, hvalue⟩ := hhead
          exact .cons hvalue (ih hrest)

theorem conforms_object {env : Environment State Object Item} {path : Path} {type : ObjectType}
    {source : Resolved Object Item} {selections : List Selection}
    {values : List (PathSegment × Json)}
    (h : List.Forall₂ (Pending.Suits env)
      (env.fieldsOf path type source (env.selectedFields type selections)) values) :
    ObjectConforms env type selections (membersOf values) := by
  have hfields := conforms_fields h
  refine .intro ?_ hfields
  rw [hfields.keys_eq]
  exact env.nodup_keys_selectedFields type selections

mutual

/-- Whatever a derived place settles on conforms to its type. -/
theorem PlaceDerivation.conforms {env : Environment State Object Item}
    {info : ResolveInfo Object Item} {path : Path} {type : TypeRef}
    {resolved : Except Failure (Resolved Object Item)} {state next : State} {place : Place}
    (h : PlaceDerivation env info path type resolved state place next) (value : Json)
    (hvalue : Slot.value? (type, place) = some value) :
    Conforms env type info.group.selections value := by
  have hfits := Completion.gives_examine env info type resolved state
  rcases Slot.value?_eq_some.mp hvalue with hdata | ⟨-, rfl, hnullable⟩
  · cases h with
    | failed found => cases hdata
    | null found =>
        rw [found] at hfits
        obtain rfl := Option.some.inj hdata
        cases hfits with
        | null nullable _ => exact .null nullable
    | leaf found =>
        rw [found] at hfits
        obtain rfl := Option.some.inj hdata
        cases hfits with
        | leaf defined form => exact .leaf defined form
    | list found below =>
        rw [found] at hfits
        obtain ⟨values, hvalues, rfl⟩ := Option.map_eq_some_iff.mp hdata
        cases hfits with
        | list => exact .list (conforms_items (below.suits values hvalues))
    | object found below =>
        rw [found] at hfits
        obtain ⟨values, hvalues, rfl⟩ := Option.map_eq_some_iff.mp hdata
        cases hfits with
        | object _ admits => exact .object admits (conforms_object (below.suits values hvalues))
  · exact .null hnullable

theorem ChildrenDerivation.suits {env : Environment State Object Item} {path : Path}
    {pendings : List (Pending State Object Item)} {state next : State}
    {children : List (PathSegment × Slot)}
    (h : ChildrenDerivation env path pendings state children next)
    (values : List (PathSegment × Json)) (hvalues : Place.values? children = some values) :
    List.Forall₂ (Pending.Suits env) pendings values := by
  cases h with
  | nil =>
      obtain rfl := Option.some.inj hvalues
      exact .nil
  | stop call head nulled => simp [Place.values?_cons, nulled] at hvalues
  | cons call head settled tail =>
      rw [Place.values?_cons, settled] at hvalues
      obtain ⟨rest, hrest, rfl⟩ := Option.map_eq_some_iff.mp hvalues
      exact .cons ⟨rfl, head.conforms _ settled⟩ (tail.suits rest hrest)

end

theorem RunDerivation.conforms {env : Environment State Object Item} {type : ObjectType}
    {state next : State} {record : Slot} (h : RunDerivation env type state record next) :
    record.toResponse.data = .null ∨ ∃ members, record.toResponse.data = .object members ∧
      ObjectConforms env type env.request.operation.selections members := by
  obtain ⟨below⟩ := h
  rename_i children
  cases hvalues : Place.values? children with
  | none =>
      left
      simp [Slot.toResponse, Place.toData, hvalues]
  | some values =>
      right
      refine ⟨membersOf values, ?_, conforms_object (below.suits values hvalues)⟩
      simp [Slot.toResponse, Place.toData, hvalues]

/-- The data of every response is null or conforms to the root type and the selections of the
operation. -/
theorem Request.data_conforms {executable : ExecutableSchema State Object Item}
    {service : Service State Object Item} {request : Request State Object Item} {depth : Nat}
    {state next : State} {response : Response}
    (h : request.executeWithin depth executable service state = some (.ok response, next)) :
    ∃ env type, request.prepare executable service = .ok (env, type) ∧
      (response.data = .null ∨ ∃ members, response.data = .object members ∧
        ObjectConforms env type env.request.operation.selections members) := by
  obtain ⟨env, type, record, hprepare, hrecord, rfl⟩ := executeWithin_derivation h
  exact ⟨env, type, hprepare, hrecord.conforms⟩

theorem Sample.nameless_conforms :
    ∃ depth response,
      request.executeWithin depth (executable nameless) service () = some (.ok response, ()) ∧
      ∃ env type, request.prepare (executable nameless) service = .ok (env, type) ∧
        (response.data = .null ∨ ∃ members, response.data = .object members ∧
          ObjectConforms env type env.request.operation.selections members) := by
  obtain ⟨depth, h⟩ := nameless_answer
  exact ⟨depth, _, h, Request.data_conforms h⟩

end GraphQL
