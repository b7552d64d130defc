import GraphQL.Proofs.Execution.Examination
import GraphQL.Proofs.Execution.Place

/-! # Filling places one after the other

The items of a list and the fields of an object are filled alike: each place is called for its
value, the value is completed, and a null is held or ends the whole. -/

namespace GraphQL

variable {State Object Item α β : Type}

/-- A place that has still to be filled: its step from the value above, its declared type, the field
it belongs to, and the call for its value. -/
structure Pending (State Object Item : Type) where
  segment : PathSegment
  type : TypeRef
  info : ResolveInfo Object Item
  resolve : StateM State (Except Failure (Resolved Object Item))

namespace Completion

/-- The places of the items of a list. -/
def itemsOf (info : ResolveInfo Object Item) (type : TypeRef) :
    Nat → List (StateM State (ResolverResult Object Item)) → List (Pending State Object Item)
  | _, [] => []
  | position, item :: rest =>
    ⟨.index position, type, info, (·.mapError Failure.resolver) <$> item⟩ ::
      itemsOf info type (position + 1) rest

/-- Fills places in order, as long as no null goes further up. -/
def fill (env : Environment State Object Item) (execute : ObjectExecutor State Object Item)
    (path : Path) : List (Pending State Object Item) → Exec State (List (PathSegment × Json))
  | [] => pure []
  | pending :: rest => do
    let value ← Exec.nullify pending.type
      (Exec.call pending.resolve >>=
        complete env execute pending.info pending.type (path ++ [pending.segment]))
    let values ← fill env execute path rest
    pure ((pending.segment, value) :: values)

end Completion

namespace Environment

/-- The fields among groups that an object type has, with their definitions. -/
def defined (env : Environment State Object Item) (type : ObjectType) (groups : List FieldGroup) :
    List (FieldGroup × FieldDefinition) :=
  groups.filterMap fun group =>
    (env.schema.field? type.name group.first.name).map fun definition => (group, definition)

/-- The fields that selections ask of objects of a type. -/
def selectedFields (env : Environment State Object Item) (type : ObjectType)
    (selections : List Selection) : List (FieldGroup × FieldDefinition) :=
  env.defined type ((env.scope type).collectFields selections)

/-- The places of fields of an object at `path`. -/
def fieldsOf (env : Environment State Object Item) (path : Path) (type : ObjectType)
    (source : Resolved Object Item) (fields : List (FieldGroup × FieldDefinition)) :
    List (Pending State Object Item) :=
  fields.map fun (group, definition) =>
    { segment := .key group.key
      type := definition.type
      info := env.infoOf path type definition group
      resolve := env.resolution (env.infoOf path type definition group) source }

/-- A field that is selected on an object has a definition for the name of its first node. -/
theorem mem_selectedFields {env : Environment State Object Item} {type : ObjectType}
    {selections : List Selection} {group : FieldGroup} {definition : FieldDefinition}
    (h : (group, definition) ∈ env.selectedFields type selections) :
    group ∈ (env.scope type).collectFields selections ∧
      env.schema.field? type.name group.first.name = some definition := by
  obtain ⟨found, hmem, hdefined⟩ := List.mem_filterMap.mp h
  obtain ⟨definition', hdefinition, heq⟩ := Option.map_eq_some_iff.mp hdefined
  obtain ⟨rfl, rfl⟩ := Prod.mk.inj heq
  exact ⟨hmem, hdefinition⟩

end Environment

namespace Exec

theorem nullify_call_bind (type : TypeRef) (hook : StateM State α) (next : α → Exec State Json) :
    nullify type (call hook >>= next) = call hook >>= fun value => nullify type (next value) := by
  ext1 state
  rw [call_bind_apply, nullify, nullify, call_bind_apply]

end Exec

variable (env : Environment State Object Item) (execute : ObjectExecutor State Object Item)
  (path : Path)

namespace Completion

theorem completeItems_eq_fill (info : ResolveInfo Object Item) (type : TypeRef) (position : Nat)
    (items : List (StateM State (ResolverResult Object Item))) :
    completeItems path type (complete env execute info type) position items =
      (fun values => values.map Prod.snd) <$>
        fill env execute path (itemsOf info type position items) := by
  induction items generalizing position with
  | nil => simp [completeItems, itemsOf, fill]
  | cons item rest ih =>
      simp [completeItems, itemsOf, fill, ih, Exec.nullify_call_bind, Exec.call_map]

end Completion

theorem Environment.executeGroups_eq_fill (type : ObjectType) (source : Resolved Object Item)
    (groups : List FieldGroup) :
    env.executeGroups execute path type source groups =
      membersOf <$>
        Completion.fill env execute path
          (env.fieldsOf path type source (env.defined type groups)) := by
  induction groups with
  | nil => simp [executeGroups, defined, fieldsOf, Completion.fill, membersOf]
  | cons group rest ih =>
      cases hdefinition : env.schema.field? type.name group.first.name with
      | none => simp [executeGroups, hdefinition, ih, defined]
      | some definition =>
          simp only [executeGroups, hdefinition, ih, executeField_eq]
          simp [defined, hdefinition, fieldsOf, Completion.fill, membersOf, PathSegment.key?]

/-- Executing selections is filling the places of their fields. -/
theorem Environment.executeSelections_succ (depth : Nat) (type : ObjectType)
    (source : Resolved Object Item) (selections : List Selection) :
    env.executeSelections (depth + 1) path type source selections =
      membersOf <$> Completion.fill env (env.executeSelections depth) path
        (env.fieldsOf path type source (env.selectedFields type selections)) := by
  simp only [executeSelections, executeGroups_eq_fill, selectedFields]

end GraphQL
