import GraphQL.Proofs.Calls.Recording
import GraphQL.Proofs.Execution.Reach

/-! # Where calls of resolvers are noted

In a recorded run, resolvers are called only where a field asks for its value: once if its
arguments can be coerced, unless it has a built-in answer. Examining a value and pulling an item
call no resolver. -/

namespace GraphQL

variable {State Object Item α β : Type}

/-! ## Calls that lead to no call of a resolver -/

/-- Whatever has been noted before, the call leads to no call of a resolver. -/
def Quiet (hook : StateM (State × CallLog Object Item) α) : Prop :=
  ∀ state, (hook.run state).2.2.fields = state.2.fields

namespace Quiet

theorem pure (value : α) : Quiet (Pure.pure value : StateM (State × CallLog Object Item) α) :=
  fun _ => rfl

theorem map {hook : StateM (State × CallLog Object Item) α} (h : Quiet hook) (f : α → β) :
    Quiet (f <$> hook) := h

theorem noting {call : Call Object Item (ResolveInfo Object Item)} (h : call.field? = none)
    (hook : StateM State α) : Quiet (GraphQL.noting call hook) := by
  rintro ⟨state, calls⟩
  change CallLog.fields (calls ++ [call]) = calls.fields
  simp [CallLog.fields, h]

/-- Two states are the same one, and these resolvers have been called before it. -/
def Same (fields : List (FieldCall Object Item (ResolveInfo Object Item)))
    (state state' : State × CallLog Object Item) : Prop :=
  state = state' ∧ state.2.fields = fields

theorem tracks {hook : StateM (State × CallLog Object Item) α} (h : Quiet hook)
    (fields : List (FieldCall Object Item (ResolveInfo Object Item))) :
    Tracks (Same fields) Eq hook hook := by
  rintro state _ ⟨rfl, hfields⟩
  exact ⟨rfl, rfl, (h state).trans hfields⟩

/-- In a recorded environment no hook but a resolver leads to a call of one. -/
theorem hooksTrack (env : Environment State Object Item)
    (fields : List (FieldCall Object Item (ResolveInfo Object Item))) :
    HooksTrack (Same fields) Eq env.recorded env.recorded where
  schema := rfl
  parent := congrArg ResolveInfo.parent
  fieldName := congrArg ResolveInfo.fieldName
  serializers type := by
    rw [Environment.executable_recorded, ExecutableSchema.serializer?_recorded]
    exact optionRel_map fun run _ value => (noting rfl _).tracks fields
  typeResolvers type := by
    rw [Environment.executable_recorded, ExecutableSchema.typeResolver?_recorded]
    refine optionRel_map fun run _ value info _ heq => ?_
    exact heq ▸ (noting rfl _).tracks fields
  typePredicates type := by
    rw [Environment.executable_recorded, ExecutableSchema.typePredicate?_recorded]
    refine optionRel_map fun run _ value info _ heq => ?_
    exact heq ▸ (noting rfl _).tracks fields
  items item := (noting rfl _).tracks fields

theorem examine (env : Environment State Object Item) (info : ResolveInfo Object Item)
    (type : TypeRef) (resolved : Except Failure (Resolved Object Item)) :
    Quiet (Completion.examine env.recorded info type resolved) := by
  intro state
  have htracks :=
    Completion.tracks_examine (hooksTrack env state.2.fields) (Eq.refl info) type resolved
  exact (htracks state state ⟨rfl, rfl⟩).2.2

theorem found {env : Environment State Object Item} {info : ResolveInfo Object Item}
    {type : TypeRef} {resolved : Except Failure (Resolved Object Item)}
    {middle after : State × CallLog Object Item}
    {finding : Finding (State × CallLog Object Item) Object Item}
    (h : (Completion.examine env.recorded info type resolved).run middle = (finding, after)) :
    after.2.fields = middle.2.fields := by
  have hquiet := Quiet.examine env info type resolved middle
  rwa [h] at hquiet

end Quiet

/-- The items of a list are those of the value that was examined. -/
theorem Completion.items_of_examine {env : Environment State Object Item}
    {info : ResolveInfo Object Item} {type item : TypeRef}
    {resolved : Except Failure (Resolved Object Item)}
    {items : List (StateM State (ResolverResult Object Item))} {state next : State}
    (found : (examine env info type resolved).run state = (.list item items, next)) :
    ∃ value, items? env.service value = some items := by
  have hfits := gives_examine env info type resolved state
  rw [found] at hfits
  cases hfits with
  | list =>
      cases resolved with
      | error failure => cases found
      | ok value =>
          rw [examine] at found
          by_cases hnull : value.isNull
          · simp only [hnull, ite_true] at found
            split at found <;> cases found
          · simp only [hnull, examinePresent] at found
            cases hitems : items? env.service value with
            | none =>
                simp only [hitems] at found
                cases found
            | some items' =>
                simp only [hitems] at found
                cases found
                exact ⟨value, hitems⟩

theorem Quiet.item {env : Environment State Object Item} {value : Resolved Object Item}
    {items : List (StateM (State × CallLog Object Item) (ResolverResult Object Item))}
    (h : Completion.items? env.recorded.service value = some items)
    {item : StateM (State × CallLog Object Item) (ResolverResult Object Item)}
    (hmem : item ∈ items) : Quiet item := by
  cases value with
  | object object => cases h
  | list pulled =>
      obtain rfl := Option.some.inj h
      obtain ⟨item, -, rfl⟩ := List.mem_map.mp hmem
      exact Quiet.noting rfl _
  | json value =>
      cases value with
      | array values =>
          obtain rfl := Option.some.inj h
          obtain ⟨value, -, rfl⟩ := List.mem_map.mp hmem
          exact Quiet.pure _
      | null | bool | number | string | object => cases h

/-! ## The call for the value of a field -/

namespace Environment

variable (env : Environment State Object Item)

/-- The calls of resolvers for the value of a field: none if its arguments cannot be coerced or if
it has a built-in answer and no resolver of its own, and one otherwise. -/
def resolverCalls (info : ResolveInfo Object Item) (source : Resolved Object Item) :
    List (FieldCall Object Item (ResolveInfo Object Item)) :=
  match env.schema.coerceArguments info.definition.arguments info.group.first.arguments
      env.request.variableValues with
  | .error _ => []
  | .ok arguments =>
    match env.executable.resolver? info.parent.name info.fieldName,
      (builtIn? info.parent info.fieldName : Option (Except Failure (Resolved Object Item))) with
    | none, some _ => []
    | _, _ => [⟨source, arguments, info⟩]

theorem length_resolverCalls (info : ResolveInfo Object Item) (source : Resolved Object Item) :
    (env.resolverCalls info source).length ≤ 1 := by
  rw [resolverCalls]
  split
  · exact Nat.zero_le 1
  · split <;> simp

/-- What a resolver is called with. -/
theorem mem_resolverCalls {info : ResolveInfo Object Item} {source : Resolved Object Item}
    {call : FieldCall Object Item (ResolveInfo Object Item)}
    (h : call ∈ env.resolverCalls info source) :
    call.info = info ∧ call.source = source ∧
      env.schema.coerceArguments info.definition.arguments info.group.first.arguments
        env.request.variableValues = .ok call.arguments := by
  rw [resolverCalls] at h
  split at h
  · cases h
  · rename_i arguments hcoerced
    split at h
    · cases h
    · obtain rfl := List.mem_singleton.mp h
      exact ⟨rfl, rfl, hcoerced⟩

theorem fields_recorded (run : Resolver State Object Item) (source : Resolved Object Item)
    (arguments : Members) (info : ResolveInfo Object Item) (state : State × CallLog Object Item) :
    ((Resolver.recorded run source arguments info).run state).2.2.fields =
      state.2.fields ++ [⟨source, arguments, info⟩] := by
  obtain ⟨state, calls⟩ := state
  change CallLog.fields (calls ++ [.field ⟨source, arguments, info⟩]) = _
  simp [CallLog.fields, Call.field?]

/-- Asking for the value of a field notes the calls of resolvers for it. -/
theorem fields_resolution (info : ResolveInfo Object Item) (source : Resolved Object Item)
    (state : State × CallLog Object Item) :
    ((env.recorded.resolution info source).run state).2.2.fields =
      state.2.fields ++ env.resolverCalls info source := by
  rw [resolution, resolverCalls, schema_recorded, request_recorded]
  cases env.schema.coerceArguments info.definition.arguments info.group.first.arguments
      env.request.variableValues with
  | error error => exact (List.append_nil _).symm
  | ok arguments =>
      simp only [answer, executable_recorded, ExecutableSchema.resolver?_recorded]
      cases env.executable.resolver? info.parent.name info.fieldName with
      | some run => exact fields_recorded run source arguments info state
      | none =>
          cases (builtIn? info.parent info.fieldName :
              Option (Except Failure (Resolved Object Item))) with
          | some answer => exact (List.append_nil _).symm
          | none => exact fields_recorded env.fieldResolver source arguments info state

end Environment

end GraphQL
