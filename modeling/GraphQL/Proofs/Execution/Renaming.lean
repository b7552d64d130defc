import GraphQL.Proofs.Execution.Simulation

/-! # Runs under other response keys

Two environments may ask for the same fields under other response keys. If nothing that decides
about a run goes by response keys, both runs have the same record, up to the keys of its fields. -/

namespace GraphQL

variable {State State' Object Item : Type}

/-! ## Records under other keys -/

def PathSegment.rename (r : String → String) : PathSegment → PathSegment
  | .key name => .key (r name)
  | .index position => .index position

def Path.rename (r : String → String) (path : Path) : Path := path.map (PathSegment.rename r)

def FieldError.rename (r : String → String) (error : FieldError) : FieldError :=
  { error with path := Path.rename r error.path }

/-- The same error at a place under other keys. -/
def ResponseError.rename (r : String → String) (error : ResponseError) : ResponseError :=
  { error with path := Path.rename r error.path }

namespace Place

mutual

/-- The same record with other keys for the fields of objects. JSON of a leaf stays as it is. -/
def rename (r : String → String) : Place → Place
  | .failed failure locations => .failed failure locations
  | .null => .null
  | .leaf value => .leaf value
  | .list items => .list (renameAll r items)
  | .object fields => .object (renameAll r fields)

def renameAll (r : String → String) :
    List (PathSegment × TypeRef × Place) → List (PathSegment × TypeRef × Place)
  | [] => []
  | (segment, type, place) :: rest =>
    (segment.rename r, type, place.rename r) :: renameAll r rest

end

end Place

def Slot.rename (r : String → String) (slot : Slot) : Slot := (slot.1, slot.2.rename r)

variable {r : String → String}

@[simp] theorem Path.rename_nil : Path.rename r [] = [] := rfl

@[simp] theorem Path.rename_append (path rest : Path) :
    Path.rename r (path ++ rest) = Path.rename r path ++ Path.rename r rest :=
  List.map_append

@[simp] theorem Path.rename_singleton (segment : PathSegment) :
    Path.rename r [segment] = [segment.rename r] :=
  rfl

theorem FieldError.rename_under (path : Path) (error : FieldError) :
    (error.under path).rename r = (error.rename r).under (Path.rename r path) := by
  simp [rename, under]

theorem FieldError.toResponseError_rename (error : FieldError) :
    (error.rename r).toResponseError = error.toResponseError.rename r :=
  rfl

namespace Place

mutual

/-- Errors stand at the same places, under other keys. -/
theorem errors_rename : ∀ place : Place,
    (place.rename r).errors = place.errors.map (FieldError.rename r)
  | .failed _ _ => rfl
  | .null => rfl
  | .leaf _ => rfl
  | .list items => errorsBelow_renameAll items
  | .object fields => errorsBelow_renameAll fields

theorem errorsBelow_renameAll : ∀ children : List (PathSegment × TypeRef × Place),
    errorsBelow (renameAll r children) = (errorsBelow children).map (FieldError.rename r)
  | [] => rfl
  | (segment, type, place) :: rest => by
      simp only [renameAll, errorsBelow, errors_rename place, errorsBelow_renameAll rest,
        List.map_append, List.map_map, Function.comp_def, FieldError.rename_under,
        Path.rename_singleton]

end

mutual

/-- Keys do not decide about nulls. -/
theorem isSome_data?_rename (r : String → String) : ∀ place : Place,
    (place.rename r).data?.isSome = place.data?.isSome
  | .failed _ _ => rfl
  | .null => rfl
  | .leaf _ => rfl
  | .list items => by
      simp only [rename, data?, Option.isSome_map, isSome_values?_renameAll r items]
  | .object fields => by
      simp only [rename, data?, Option.isSome_map, isSome_values?_renameAll r fields]

theorem isSome_values?_renameAll (r : String → String) :
    ∀ children : List (PathSegment × TypeRef × Place),
      (values? (renameAll r children)).isSome = (values? children).isSome
  | [] => rfl
  | (segment, type, place) :: rest => by
      have hplace := isSome_data?_rename r place
      have hrest := isSome_values?_renameAll r rest
      rw [renameAll, isSome_values?_cons, isSome_values?_cons, Slot.isSome_value?,
        Slot.isSome_value?, hplace, hrest]

end

end Place

theorem Slot.value?_rename (r : String → String) (slot : Slot) :
    Option.Rel (fun _ _ => True) slot.value? (slot.rename r).value? := by
  have hsome : (slot.rename r).value?.isSome = slot.value?.isSome := by
    rw [isSome_value?, isSome_value?, rename, Place.isSome_data?_rename]
  cases hvalue : slot.value? with
  | none =>
      rw [hvalue, Option.isSome_none, Option.isSome_eq_false_iff] at hsome
      rw [Option.isNone_iff_eq_none.mp hsome]
      exact .none
  | some value =>
      rw [hvalue, Option.isSome_some, Option.isSome_iff_exists] at hsome
      obtain ⟨value', hvalue'⟩ := hsome
      rw [hvalue']
      exact .some trivial

/-! ## Executions under other keys -/

/-- Two lists of fields match one by one. They stand at places with other keys, and hooks are told
alike about them. -/
def FieldsRenamed (r : String → String)
    (alike : ResolveInfo Object Item → ResolveInfo Object Item → Prop)
    (env : Environment State Object Item) (env' : Environment State' Object Item) (path : Path)
    (type : ObjectType) (fields fields' : List (FieldGroup × FieldDefinition)) : Prop :=
  List.Forall₂ (fun field field' =>
    field'.1.key = r field.1.key ∧ field'.2 = field.2 ∧
      alike (env.infoOf path type field.2 field.1)
        (env'.infoOf (Path.rename r path) type field'.2 field'.1))
    fields fields'

/-- Two environments execute alike what hooks are told alike about, but ask for other response
keys. -/
structure RunsRenamed (r : String → String) (states : State → State' → Prop)
    (alike : ResolveInfo Object Item → ResolveInfo Object Item → Prop)
    (env : Environment State Object Item) (env' : Environment State' Object Item) : Prop extends
    ResolversTrack states alike env env' where
  locations : ∀ {info info'}, alike info info' → info.locations = info'.locations
  fields : ∀ {info info'}, alike info info' → ∀ path type,
    FieldsRenamed r alike env env' path type (env.selectedFields type info.group.selections)
      (env'.selectedFields type info'.group.selections)

/-- Two pending places differ in their keys at most, and the calls for their values track one
another. -/
structure Pending.Renamed (r : String → String) (states : State → State' → Prop)
    (alike : ResolveInfo Object Item → ResolveInfo Object Item → Prop)
    (pending : Pending State Object Item) (pending' : Pending State' Object Item) : Prop where
  segment : pending'.segment = pending.segment.rename r
  type : pending'.type = pending.type
  info : alike pending.info pending'.info
  resolve : Tracks states Eq pending.resolve pending'.resolve

/-- Two steps complete the same place under different keys. -/
inductive SamePlace (r : String → String) (states : State → State' → Prop)
    (derived : Place → State → Prop) (derived' : Place → State' → Prop) (path : Path) :
    Step State Json → Step State' Json → Prop
  | intro {place next next'} (first : derived place next) (second : derived' (place.rename r) next')
      (reached : states next next') :
      SamePlace r states derived derived' path (place.step path next)
        ((place.rename r).step (Path.rename r path) next')

theorem SamePlace.imp {r : String → String} {states : State → State' → Prop}
    {derived weaker : Place → State → Prop} {derived' weaker' : Place → State' → Prop} {path : Path}
    {step : Step State Json} {step' : Step State' Json}
    (h : SamePlace r states derived derived' path step step')
    (himp : ∀ place next, derived place next → weaker place next)
    (himp' : ∀ place next, derived' place next → weaker' place next) :
    SamePlace r states weaker weaker' path step step' := by
  obtain ⟨first, second, reached⟩ := h
  exact .intro (himp _ _ first) (himp' _ _ second) reached

/-- Two steps fill the same places under different keys. -/
inductive SameChildren (r : String → String) (states : State → State' → Prop)
    (derived : List (PathSegment × Slot) → State → Prop)
    (derived' : List (PathSegment × Slot) → State' → Prop) (path : Path) :
    Step State (List (PathSegment × Json)) → Step State' (List (PathSegment × Json)) → Prop
  | intro {children next next'} (first : derived children next)
      (second : derived' (Place.renameAll r children) next') (reached : states next next') :
      SameChildren r states derived derived' path (Place.stepBelow children path next)
        (Place.stepBelow (Place.renameAll r children) (Path.rename r path) next')

/-- Two runs have the same record under different keys, and it tells the response of each. -/
inductive SameRun (r : String → String) (states : State → State' → Prop)
    (derived : Slot → State → Prop) (derived' : Slot → State' → Prop) (step : Step State Members)
    (step' : Step State' Members) : Prop
  | intro (record : Slot) (first : derived record step.state)
      (second : derived' (record.rename r) step'.state) (reached : states step.state step'.state)
      (told : step.toResponse = record.toResponse)
      (told' : step'.toResponse = (record.rename r).toResponse) :
      SameRun r states derived derived' step step'

section

variable {states : State → State' → Prop}
  {alike : ResolveInfo Object Item → ResolveInfo Object Item → Prop}
  {env : Environment State Object Item} {env' : Environment State' Object Item}
  {execute : ObjectExecutor State Object Item} {execute' : ObjectExecutor State' Object Item}

theorem RunsRenamed.fieldsOf (h : RunsRenamed r states alike env env') {path : Path}
    {type : ObjectType} (source : Resolved Object Item)
    {fields fields' : List (FieldGroup × FieldDefinition)}
    (hfields : FieldsRenamed r alike env env' path type fields fields') :
    List.Forall₂ (Pending.Renamed r states alike) (env.fieldsOf path type source fields)
      (env'.fieldsOf (Path.rename r path) type source fields') := by
  refine List.forall₂_map_left_iff.mpr (List.forall₂_map_right_iff.mpr (hfields.imp ?_))
  rintro field field' ⟨hkey, hdefinition, halike⟩
  exact ⟨congrArg PathSegment.key hkey, congrArg FieldDefinition.type hdefinition, halike,
    h.resolution halike source⟩

namespace Completion

variable (r states alike env env' execute execute') in
/-- At places of this type, values are completed alike under different keys. -/
def CompletesRenamed (type : TypeRef) : Prop :=
  ∀ info info' path resolved state state', alike info info' → states state state' →
    Option.Rel
      (SamePlace r states (PlaceDerivation env info path type resolved state)
        (PlaceDerivation env' info' (Path.rename r path) type resolved state') path)
      (complete env execute info type path resolved state)
      (complete env' execute' info' type (Path.rename r path) resolved state')

/-- Places are filled alike as long as no null goes further up: induction on the places. -/
theorem fill_renamed {pendings : List (Pending State Object Item)}
    {pendings' : List (Pending State' Object Item)}
    (h : List.Forall₂ (Pending.Renamed r states alike) pendings pendings')
    (hcomplete : ∀ pending ∈ pendings,
      CompletesRenamed r states alike env env' execute execute' pending.type)
    (path : Path) {state : State} {state' : State'} (hstates : states state state') :
    Option.Rel
      (SameChildren r states (ChildrenDerivation env path pendings state)
        (ChildrenDerivation env' (Path.rename r path) pendings' state') path)
      (fill env execute path pendings state)
      (fill env' execute' (Path.rename r path) pendings' state') := by
  induction h generalizing state state' with
  | nil =>
      change Option.Rel _ (some (Place.stepBelow [] path state))
        (some (Place.stepBelow [] (Path.rename r path) state'))
      exact .some (.intro (.nil path state) (.nil _ state') hstates)
  | @cons pending pending' rest rest' hpending _ ih =>
      obtain ⟨hhead, htail⟩ := List.forall_mem_cons.mp hcomplete
      obtain ⟨segment', type', info', resolve'⟩ := pending'
      obtain ⟨rfl, rfl, hinfo, hresolve⟩ := hpending
      obtain ⟨hresolved, hmiddle⟩ := hresolve state state' hstates
      -- Both calls give the same value, so that the same value is completed in both runs.
      have hcall : resolve'.run state' = ((pending.resolve.run state).1, (resolve'.run state').2) :=
        Prod.ext hresolved.symm rfl
      have hcompleted := hhead _ _ (path ++ [pending.segment]) (pending.resolve.run state).1 _ _
        hinfo hmiddle
      rw [Path.rename_append, Path.rename_singleton] at hcompleted
      rcases optionRel_cases hcompleted with
        ⟨hstep, hstep'⟩ | ⟨step, step', hstep, hstep', hsame⟩
      · rw [hresolved] at hstep'
        rw [fill_tooDeep hstep, fill_tooDeep hstep']
        exact .none
      · obtain ⟨hplace, hplace', hnext⟩ := hsame
        rw [hresolved, Path.rename_append, Path.rename_singleton] at hstep'
        rcases optionRel_cases (Slot.value?_rename r _) with
          ⟨hvalue, hvalue'⟩ | ⟨value, value', hvalue, hvalue', -⟩
        · rw [fill_stop hstep hvalue, fill_stop hstep' hvalue']
          exact .some (.intro (.stop rfl hplace hvalue) (.stop hcall hplace' hvalue') hnext)
        · rcases optionRel_cases (ih htail hnext) with
            ⟨hrest, hrest'⟩ | ⟨tail, tail', hrest, hrest', hsame⟩
          · rw [fill_settled_tooDeep hstep hvalue hrest, fill_settled_tooDeep hstep' hvalue' hrest']
            exact .none
          · obtain ⟨hchildren, hchildren', hlast⟩ := hsame
            rw [fill_cons hstep hvalue hrest, fill_cons hstep' hvalue' hrest']
            exact .some (.intro (.cons rfl hplace hvalue hchildren)
              (.cons hcall hplace' hvalue' hchildren') hlast)

/-- A place that is completed by filling the places below it. -/
theorem samePlace_of_children {make : List (PathSegment × Slot) → Place}
    (hmake : ∀ children, (make children).rename r = make (Place.renameAll r children))
    {f : List (PathSegment × Json) → Json} {path : Path} {state : State} {state' : State'}
    {computation : Exec State (List (PathSegment × Json))}
    {computation' : Exec State' (List (PathSegment × Json))}
    (hstep : ∀ children next, computation state = some (Place.stepBelow children path next) →
      (f <$> computation) state = some ((make children).step path next))
    (hstep' : ∀ children next,
      computation' state' = some (Place.stepBelow children (Path.rename r path) next) →
      (f <$> computation') state' = some ((make children).step (Path.rename r path) next))
    {derived : List (PathSegment × Slot) → State → Prop}
    {derived' : List (PathSegment × Slot) → State' → Prop}
    (h : Option.Rel (SameChildren r states derived derived' path) (computation state)
      (computation' state')) :
    Option.Rel
      (SamePlace r states
        (fun place next => ∃ children, place = make children ∧ derived children next)
        (fun place next => ∃ children, place = make children ∧ derived' children next) path)
      ((f <$> computation) state) ((f <$> computation') state') := by
  rcases optionRel_cases h with ⟨hbelow, hbelow'⟩ | ⟨step, step', hbelow, hbelow', hsame⟩
  · rw [Exec.map_apply, Exec.map_apply, hbelow, hbelow']
    exact .none
  · obtain ⟨first, second, reached⟩ := hsame
    rw [hstep _ _ hbelow, hstep' _ _ hbelow', ← hmake]
    exact .some (.intro ⟨_, rfl, first⟩ ⟨_, hmake _, second⟩ reached)

variable (r states env env' execute execute') in
/-- What is found at a place is concluded alike under different keys. -/
def ConcludesRenamed (info info' : ResolveInfo Object Item) (finding : Finding State Object Item)
    (finding' : Finding State' Object Item) : Prop :=
  ∀ path state state', states state state' →
    Option.Rel
      (SamePlace r states (fun place next => Concludes env info path state place next finding)
        (fun place next => Concludes env' info' (Path.rename r path) state' place next finding')
        path)
      (conclude env info execute path finding state)
      (conclude env' info' execute' (Path.rename r path) finding' state')

variable (r states alike env env' execute execute') in
/-- Selections below fields that hooks are told alike about are executed alike. -/
def ObjectsRenamed : Prop :=
  ∀ info info' object source, alike info info' →
    ConcludesRenamed r states env env' execute execute' info info' (.object object source)
      (.object object source)

theorem concludes_renamed (h : RunsRenamed r states alike env env')
    (hobject : ObjectsRenamed r states alike env env' execute execute')
    {info info' : ResolveInfo Object Item} (halike : alike info info')
    {finding : Finding State Object Item} {finding' : Finding State' Object Item}
    (htracked : finding.Tracked states finding')
    (hitem : ∀ item items, finding = .list item items →
      CompletesRenamed r states alike env env' execute execute' item) :
    ConcludesRenamed r states env env' execute execute' info info' finding finding' := by
  intro path state state' hstates
  cases htracked with
  | failed failure =>
      rw [conclude_failed, conclude_failed, ← h.locations halike]
      refine .some (.intro ⟨rfl, rfl⟩ ⟨?_, rfl⟩ hstates)
      rw [← h.locations halike]
      rfl
  | null =>
      change Option.Rel _ (some (Place.null.step path state))
        (some (Place.null.step (Path.rename r path) state'))
      exact .some (.intro ⟨rfl, rfl⟩ ⟨rfl, rfl⟩ hstates)
  | leaf value =>
      change Option.Rel _ (some ((Place.leaf value).step path state))
        (some ((Place.leaf value).step (Path.rename r path) state'))
      exact .some (.intro ⟨rfl, rfl⟩ ⟨rfl, rfl⟩ hstates)
  | list item tracked =>
      have hitems : List.Forall₂ (Pending.Renamed r states alike) (itemsOf info item 0 _)
          (itemsOf info' item 0 _) :=
        forall₂_itemsOf (fun _ _ _ h => ⟨rfl, rfl, halike, h.map_eq _⟩) 0 tracked
      have hfill := fill_renamed hitems
        (fun pending hmem => (mem_itemsOf hmem).2 ▸ hitem item _ rfl) path hstates
      rw [conclude_list, conclude_list]
      exact samePlace_of_children (fun _ => rfl) (fun _ _ => Place.step_list)
        (fun _ _ => Place.step_list) hfill
  | object object source => exact hobject info info' object source halike path state state' hstates

/-- What remains once a value has been examined: the items of a list and the fields of an object. -/
theorem completes_renamed_of_items (h : RunsRenamed r states alike env env')
    (hobject : ObjectsRenamed r states alike env env' execute execute') {type : TypeRef}
    (hitem : ∀ item nonNull, type = .list item nonNull →
      CompletesRenamed r states alike env env' execute execute' item) :
    CompletesRenamed r states alike env env' execute execute' type := by
  intro info info' path resolved state state' halike hstates
  obtain ⟨htracked, hmiddle⟩ :=
    tracks_examine h.toHooksTrack halike type resolved state state' hstates
  have hitems : ∀ item items,
      ((examine env info type resolved).run state).1 = .list item items →
        CompletesRenamed r states alike env env' execute execute' item := by
    intro item items hlist
    have hfits := gives_examine env info type resolved state
    rw [hlist] at hfits
    cases hfits with
    | list => exact hitem item _ rfl
  have hconcludes := concludes_renamed h hobject halike htracked hitems path _ _ hmiddle
  rw [complete_apply, complete_apply]
  exact optionRel_imp (fun _ _ hsame => hsame.imp (fun _ _ => .of_concludes rfl)
    fun _ _ => .of_concludes rfl) hconcludes

theorem completes_renamed (h : RunsRenamed r states alike env env')
    (hobject : ObjectsRenamed r states alike env env' execute execute') (type : TypeRef) :
    CompletesRenamed r states alike env env' execute execute' type := by
  induction type with
  | named name nonNull => exact completes_renamed_of_items h hobject nofun
  | list item nonNull ih =>
      refine completes_renamed_of_items h hobject ?_
      rintro _ _ ⟨⟩
      exact ih

end Completion

namespace RunsRenamed

/-- Objects are executed alike under different keys: induction on the depth. -/
theorem executeSelections (h : RunsRenamed r states alike env env') (depth : Nat) :
    Completion.ObjectsRenamed r states alike env env' (env.executeSelections depth)
      (env'.executeSelections depth) := by
  induction depth with
  | zero =>
      intro info info' object source halike path state state' hstates
      exact .none
  | succ depth ih =>
      intro info info' object source halike path state state' hstates
      have hfill := Completion.fill_renamed (h.fieldsOf source (h.fields halike path object))
        (fun pending _ => Completion.completes_renamed h ih pending.type) path hstates
      rw [Completion.conclude_object, Completion.conclude_object]
      exact Completion.samePlace_of_children (fun _ => rfl) (fun _ _ => Place.step_object)
        (fun _ _ => Place.step_object) hfill

/-- Operations that ask for the same root fields are executed alike. The runs have the same record,
up to keys. -/
theorem run (h : RunsRenamed r states alike env env') (depth : Nat) (type : ObjectType)
    (root : env.request.root = env'.request.root)
    (hfields : FieldsRenamed r alike env env' [] type
      (env.selectedFields type env.request.operation.selections)
      (env'.selectedFields type env'.request.operation.selections))
    {state : State} {state' : State'} (hstates : states state state') :
    Option.Rel
      (SameRun r states (RunDerivation env type state) (RunDerivation env' type state'))
      (env.run depth type state) (env'.run depth type state') := by
  cases depth with
  | zero => exact .none
  | succ depth =>
      have hpendings : List.Forall₂ (Pending.Renamed r states alike)
          (env.fieldsOf [] type env.request.root
            (env.selectedFields type env.request.operation.selections))
          (env'.fieldsOf [] type env'.request.root
            (env'.selectedFields type env'.request.operation.selections)) := by
        rw [← root]
        exact h.fieldsOf env.request.root hfields
      have hfill := Completion.fill_renamed hpendings
        (fun pending _ => Completion.completes_renamed h (h.executeSelections depth) pending.type)
        [] hstates
      rw [Path.rename_nil] at hfill
      rw [Environment.run_succ, Environment.run_succ]
      rcases optionRel_cases hfill with ⟨hbelow, hbelow'⟩ | ⟨below, below', hbelow, hbelow', hsame⟩
      · rw [Exec.map_apply, Exec.map_apply, hbelow, hbelow']
        exact .none
      · obtain ⟨first, second, reached⟩ := hsame
        rw [Path.rename_nil] at hbelow'
        have hresponse := Environment.toResponse_stepBelow hbelow (.named type.name false)
        have hresponse' := Environment.toResponse_stepBelow hbelow' (.named type.name false)
        obtain ⟨step, hstep, hanswer⟩ := Option.map_eq_some_iff.mp hresponse
        obtain ⟨step', hstep', hanswer'⟩ := Option.map_eq_some_iff.mp hresponse'
        obtain ⟨htold, rfl⟩ := Prod.mk.inj hanswer
        obtain ⟨htold', rfl⟩ := Prod.mk.inj hanswer'
        rw [hstep, hstep']
        exact .some (.intro _ (.root first) (.root second) reached htold htold')

end RunsRenamed

end

end GraphQL
