import GraphQL.Proofs.Execution.Examination
import Mathlib.Data.List.Forall2

/-! # Hooks that track one another

Two environments may keep their states differently and tell their hooks different things about a
field. If hooks that are called in related states give the same answers and leave related states
behind, then both environments find the same at every place. -/

namespace GraphQL

variable {State State' Object Item α α' β β' : Type}

/-- Two calls that are made in related states give related values and leave related states
behind. -/
def Tracks (states : State → State' → Prop) (related : α → α' → Prop) (hook : StateM State α)
    (hook' : StateM State' α') : Prop :=
  ∀ state state', states state state' →
    related (hook.run state).1 (hook'.run state').1 ∧
      states (hook.run state).2 (hook'.run state').2

namespace Tracks

variable {states : State → State' → Prop}

theorem pure {related : α → α' → Prop} {value : α} {value' : α'} (h : related value value') :
    Tracks states related (Pure.pure value : StateM State α)
      (Pure.pure value' : StateM State' α') :=
  fun _ _ hstates => ⟨h, hstates⟩

theorem bind {first : StateM State α} {first' : StateM State' α'} {next : α → StateM State β}
    {next' : α' → StateM State' β'} {middle : α → α' → Prop} {related : β → β' → Prop}
    (h : Tracks states middle first first')
    (hnext : ∀ value value', middle value value' →
      Tracks states related (next value) (next' value')) :
    Tracks states related (first >>= next) (first' >>= next') := by
  intro state state' hstates
  obtain ⟨hvalue, hstates⟩ := h state state' hstates
  exact hnext _ _ hvalue _ _ hstates

/-- Calls that give the same value go on with the same value. -/
theorem bind_eq {first : StateM State α} {first' : StateM State' α} {next : α → StateM State β}
    {next' : α → StateM State' β'} {related : β → β' → Prop} (h : Tracks states Eq first first')
    (hnext : ∀ value, Tracks states related (next value) (next' value)) :
    Tracks states related (first >>= next) (first' >>= next') :=
  h.bind fun value _ heq => heq ▸ hnext value

theorem map_eq {hook : StateM State α} {hook' : StateM State' α} (h : Tracks states Eq hook hook')
    (f : α → β) : Tracks states Eq (f <$> hook) (f <$> hook') := by
  intro state state' hstates
  obtain ⟨hvalue, hstates⟩ := h state state' hstates
  exact ⟨congrArg f hvalue, hstates⟩

/-- What the first call always gives may be added to what is known of both values. -/
theorem and_gives {related : α → α' → Prop} {property : α → Prop} {hook : StateM State α}
    {hook' : StateM State' α'} (h : Tracks states related hook hook')
    (gives : Gives hook property) :
    Tracks states (fun value value' => related value value' ∧ property value) hook hook' := by
  intro state state' hstates
  obtain ⟨hvalue, hstates⟩ := h state state' hstates
  exact ⟨⟨hvalue, gives state⟩, hstates⟩

end Tracks

theorem optionRel_cases {related : α → β → Prop} {first : Option α} {second : Option β}
    (h : Option.Rel related first second) :
    first = none ∧ second = none ∨ ∃ x y, first = some x ∧ second = some y ∧ related x y := by
  cases h with
  | none => exact .inl ⟨rfl, rfl⟩
  | some hrelated => exact .inr ⟨_, _, rfl, rfl, hrelated⟩

theorem exists_of_optionRel_some {related : α → β → Prop} {value : α} {second : Option β}
    (h : Option.Rel related (some value) second) :
    ∃ other, second = some other ∧ related value other := by
  cases h with
  | some hrelated => exact ⟨_, rfl, hrelated⟩

theorem optionRel_imp {related weaker : α → β → Prop} (himp : ∀ x y, related x y → weaker x y)
    {first : Option α} {second : Option β} (h : Option.Rel related first second) :
    Option.Rel weaker first second := by
  cases h with
  | none => exact .none
  | some hrelated => exact .some (himp _ _ hrelated)

theorem optionRel_map {γ : Type} {related : α → β → Prop} {f : γ → α} {g : γ → β}
    {option : Option γ} (h : ∀ value, option = some value → related (f value) (g value)) :
    Option.Rel related (option.map f) (option.map g) := by
  cases option with
  | none => exact .none
  | some value => exact .some (h value rfl)

theorem optionRel_map_left {related : α → β → Prop} {f : β → α} {option : Option β}
    (h : ∀ value, related (f value) value) : Option.Rel related (option.map f) option := by
  cases option with
  | none => exact .none
  | some value => exact .some (h value)

/-- Two environments have one schema and hooks at the same places. The hooks other than resolvers
track one another whenever they are told alike about a field. -/
structure HooksTrack (states : State → State' → Prop)
    (alike : ResolveInfo Object Item → ResolveInfo Object Item → Prop)
    (env : Environment State Object Item) (env' : Environment State' Object Item) : Prop where
  schema : env.schema = env'.schema
  parent : ∀ {info info'}, alike info info' → info.parent = info'.parent
  fieldName : ∀ {info info'}, alike info info' → info.fieldName = info'.fieldName
  serializers : ∀ type,
    Option.Rel (fun run run' => ∀ value, Tracks states Eq (run value) (run' value))
      (env.executable.serializer? type) (env'.executable.serializer? type)
  typeResolvers : ∀ type,
    Option.Rel (fun run run' => ∀ value info info', alike info info' →
        Tracks states Eq (run value info) (run' value info'))
      (env.executable.typeResolver? type) (env'.executable.typeResolver? type)
  typePredicates : ∀ type,
    Option.Rel (fun run run' => ∀ value info info', alike info info' →
        Tracks states Eq (run value info) (run' value info'))
      (env.executable.typePredicate? type) (env'.executable.typePredicate? type)
  items : ∀ item, Tracks states Eq (env.service.pull item) (env'.service.pull item)

/-- Two findings are the same, the items of lists being calls that track one another. -/
inductive Finding.Tracked (states : State → State' → Prop) :
    Finding State Object Item → Finding State' Object Item → Prop
  | failed (failure : Failure) : Tracked states (.failed failure) (.failed failure)
  | null : Tracked states .null .null
  | leaf (value : Json) : Tracked states (.leaf value) (.leaf value)
  | list (item : TypeRef) {items items'} (tracked : List.Forall₂ (Tracks states Eq) items items') :
      Tracked states (.list item items) (.list item items')
  | object (type : ObjectType) (source : Resolved Object Item) :
      Tracked states (.object type source) (.object type source)

namespace Completion

variable {states : State → State' → Prop}
  {alike : ResolveInfo Object Item → ResolveInfo Object Item → Prop}
  {env : Environment State Object Item} {env' : Environment State' Object Item}
  {info info' : ResolveInfo Object Item}

theorem tracks_serialize? (h : HooksTrack states alike env env') (definition : TypeDefinition)
    (value : Resolved Object Item) :
    Tracks states Eq (serialize? env definition value) (serialize? env' definition value) := by
  cases value with
  | json raw =>
      simp only [serialize?, ExecutableSchema.serialize?]
      rcases optionRel_cases (h.serializers definition.name) with
        ⟨hrun, hrun'⟩ | ⟨run, run', hrun, hrun', htracks⟩
      · simp only [hrun, hrun']
        cases definition with
        | scalar name =>
            cases hscalar : BuiltInScalar.ofName? name <;> simp only [hscalar] <;> exact .pure rfl
        | enum type => cases raw <;> exact .pure rfl
        | object | interface | union | inputObject => exact .pure rfl
      · simp only [hrun, hrun']
        exact htracks raw
  | object object => exact .pure rfl
  | list items => exact .pure rfl

theorem tracks_examineLeaf (h : HooksTrack states alike env env') (definition : TypeDefinition)
    (value : Resolved Object Item) :
    Tracks states (Finding.Tracked states) (examineLeaf env definition value)
      (examineLeaf env' definition value) := by
  refine (tracks_serialize? h definition value).bind_eq ?_
  intro result?
  cases result? with
  | none => exact .pure (.failed _)
  | some result =>
      cases hnull : result.isNull with
      | true => simpa [hnull] using Tracks.pure (.failed _)
      | false => simpa [hnull] using Tracks.pure (.leaf result)

theorem tracks_examineObject (h : HooksTrack states alike env env') (halike : alike info info')
    (runtime : RuntimeType) (value : Resolved Object Item) :
    Tracks states (Finding.Tracked states) (examineObject env info runtime value)
      (examineObject env' info' runtime value) := by
  have haccepted (accepted : Bool) :
      Tracks states (Finding.Tracked states)
        (if accepted then pure (.object runtime.type value)
          else pure (.failed (.rejectedByType runtime.type.name value.display)) :
            StateM State (Finding State Object Item))
        (if accepted then pure (.object runtime.type value)
          else pure (.failed (.rejectedByType runtime.type.name value.display)) :
            StateM State' (Finding State' Object Item)) := by
    cases accepted with
    | true => exact .pure (.object _ value)
    | false => exact .pure (.failed _)
  rw [examineObject, examineObject]
  rcases optionRel_cases (h.typePredicates runtime.type.name) with
    ⟨hrun, hrun'⟩ | ⟨run, run', hrun, hrun', htracks⟩
  · rw [hrun, hrun']
    exact haccepted true
  · rw [hrun, hrun']
    cases runtime.accepted with
    | true => exact haccepted true
    | false => exact (htracks value _ _ halike).bind_eq haccepted

theorem tracks_firstAccepting (h : HooksTrack states alike env env') (halike : alike info info')
    (value : Resolved Object Item) (types : List ObjectType) :
    Tracks states Eq (firstAccepting env info value types)
      (firstAccepting env' info' value types) := by
  induction types with
  | nil => exact .pure rfl
  | cons type rest ih =>
      rw [firstAccepting, firstAccepting]
      rcases optionRel_cases (h.typePredicates type.name) with
        ⟨hrun, hrun'⟩ | ⟨run, run', hrun, hrun', htracks⟩
      · simpa only [hrun, hrun'] using ih
      · simp only [hrun, hrun']
        refine (htracks value _ _ halike).bind_eq ?_
        intro accepted
        cases accepted with
        | true => exact .pure rfl
        | false => exact ih

theorem tracks_runtimeTypeName (h : HooksTrack states alike env env') (halike : alike info info')
    (abstract : String) (value : Resolved Object Item) :
    Tracks states Eq (runtimeTypeName env info abstract value)
      (runtimeTypeName env' info' abstract value) := by
  rw [runtimeTypeName, runtimeTypeName, h.schema]
  rcases optionRel_cases (h.typeResolvers abstract) with
    ⟨hrun, hrun'⟩ | ⟨run, run', hrun, hrun', htracks⟩
  · simp only [hrun, hrun']
    exact (tracks_firstAccepting h halike value _).bind_eq fun name? => .pure rfl
  · simp only [hrun, hrun']
    exact (htracks value _ _ halike).bind_eq fun name? => .pure rfl

theorem tracks_runtimeType (h : HooksTrack states alike env env') (halike : alike info info')
    (abstract : String) (value : Resolved Object Item) :
    Tracks states Eq (runtimeType env info abstract value)
      (runtimeType env' info' abstract value) := by
  rw [runtimeType, runtimeType, h.schema, h.parent halike, h.fieldName halike]
  refine (tracks_runtimeTypeName h halike abstract value).bind_eq ?_
  rintro ⟨name?, accepted⟩
  cases name? with
  | none => exact .pure rfl
  | some name =>
      cases hobject : env'.schema.object? name with
      | none => simpa [hobject] using Tracks.pure rfl
      | some type =>
          by_cases hpossible : env'.schema.isPossibleType abstract name
          · simpa [hobject, hpossible] using Tracks.pure rfl
          · simpa [hobject, hpossible] using Tracks.pure rfl

theorem tracks_examineNamed (h : HooksTrack states alike env env') (halike : alike info info')
    (name : String) (value : Resolved Object Item) :
    Tracks states (Finding.Tracked states) (examineNamed env info name value)
      (examineNamed env' info' name value) := by
  have habstract :
      Tracks states (Finding.Tracked states)
        (runtimeType env info name value >>= examineRuntime env info value)
        (runtimeType env' info' name value >>= examineRuntime env' info' value) := by
    refine (tracks_runtimeType h halike name value).bind_eq ?_
    intro runtime
    cases runtime with
    | error failure => exact .pure (.failed failure)
    | ok runtime => exact tracks_examineObject h halike runtime value
  rw [examineNamed, examineNamed, h.schema]
  cases env'.schema.type? name with
  | none => exact .pure (.failed _)
  | some definition =>
      cases definition with
      | scalar scalar => exact tracks_examineLeaf h (.scalar scalar) value
      | enum type => exact tracks_examineLeaf h (.enum type) value
      | inputObject type => exact .pure (.failed _)
      | object type => exact tracks_examineObject h halike ⟨type, false⟩ value
      | interface type => exact habstract
      | union type => exact habstract

theorem tracked_items (h : HooksTrack states alike env env') (value : Resolved Object Item) :
    Option.Rel (List.Forall₂ (Tracks states Eq)) (items? env.service value)
      (items? env'.service value) := by
  cases value with
  | object object => exact .none
  | list items =>
      refine .some (List.forall₂_map_left_iff.mpr (List.forall₂_map_right_iff.mpr ?_))
      exact List.forall₂_same.mpr fun item _ => h.items item
  | json value =>
      cases value with
      | array items =>
          refine .some (List.forall₂_map_left_iff.mpr (List.forall₂_map_right_iff.mpr ?_))
          exact List.forall₂_same.mpr fun item _ => .pure rfl
      | null | bool | number | string | object => exact .none

/-- The same value is found to be the same in both environments. -/
theorem tracks_examine (h : HooksTrack states alike env env') (halike : alike info info')
    (type : TypeRef) (resolved : Except Failure (Resolved Object Item)) :
    Tracks states (Finding.Tracked states) (examine env info type resolved)
      (examine env' info' type resolved) := by
  cases resolved with
  | error failure => exact .pure (.failed failure)
  | ok value =>
      rw [examine, examine, h.parent halike, h.fieldName halike]
      cases value.isNull with
      | true =>
          cases type.nonNull with
          | true => exact .pure (.failed _)
          | false => exact .pure .null
      | false =>
          cases type with
          | named name nonNull => exact tracks_examineNamed h halike name value
          | list item nonNull =>
              simp only [Bool.false_eq_true, ite_false, examinePresent]
              rcases optionRel_cases (tracked_items h value) with
                ⟨hitems, hitems'⟩ | ⟨items, items', hitems, hitems', htracked⟩
              · simp only [hitems, hitems', h.parent halike, h.fieldName halike]
                exact .pure (.failed _)
              · simp only [hitems, hitems']
                exact .pure (.list item htracked)

end Completion

end GraphQL
