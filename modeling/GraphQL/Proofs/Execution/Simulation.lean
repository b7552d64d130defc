import GraphQL.Proofs.Execution.Correspondence
import GraphQL.Proofs.Execution.Run

/-! # Runs that go alike

Two environments whose hooks track one another, and whose selections ask for the same fields at
every level, execute an operation alike: within any depth either both runs come to an end or
neither does, with the same data, with errors that match one by one, and in related states. -/

namespace GraphQL

variable {State State' Object Item α α' β : Type}

/-- Two errors say the same of one place, and their locations are related. -/
structure FieldError.Alike (locations : List Location → List Location → Prop)
    (error error' : FieldError) : Prop where
  failure : error.failure = error'.failure
  path : error.path = error'.path
  locations : locations error.locations error'.locations

theorem FieldError.Alike.eq {error error' : FieldError} (h : error.Alike Eq error') :
    error = error' := by
  obtain ⟨failure, path, locations⟩ := error
  obtain ⟨failure', path', locations'⟩ := error'
  obtain ⟨rfl, rfl, rfl⟩ := h
  rfl

/-- Two steps have the same outcome, errors that match one by one, and related states. -/
structure Step.Alike (states : State → State' → Prop)
    (locations : List Location → List Location → Prop) (step : Step State α)
    (step' : Step State' α) : Prop where
  outcome : step.outcome = step'.outcome
  errors : List.Forall₂ (FieldError.Alike locations) step.errors step'.errors
  state : states step.state step'.state

/-- Started in related states, two computations end alike, or neither comes to an end. -/
def Exec.Simulates (states : State → State' → Prop)
    (locations : List Location → List Location → Prop) (computation : Exec State α)
    (computation' : Exec State' α) : Prop :=
  ∀ state state', states state state' →
    Option.Rel (Step.Alike states locations) (computation state) (computation' state')

namespace Exec.Simulates

variable {states : State → State' → Prop} {locations : List Location → List Location → Prop}

theorem pure (value : α) :
    Simulates states locations (Pure.pure value : Exec State α)
      (Pure.pure value : Exec State' α) :=
  fun _ _ hstates => .some ⟨rfl, .nil, hstates⟩

theorem tooDeep : Simulates states locations (Exec.tooDeep : Exec State α)
    (Exec.tooDeep : Exec State' α) :=
  fun _ _ _ => .none

theorem fail {error error' : FieldError} (h : error.Alike locations error') :
    Simulates states locations (Exec.fail error : Exec State α)
      (Exec.fail error' : Exec State' α) :=
  fun _ _ hstates => .some ⟨rfl, .cons h .nil, hstates⟩

theorem bind {first : Exec State α} {first' : Exec State' α} {next : α → Exec State β}
    {next' : α → Exec State' β} (h : Simulates states locations first first')
    (hnext : ∀ value, Simulates states locations (next value) (next' value)) :
    Simulates states locations (first >>= next) (first' >>= next') := by
  intro state state' hstates
  rcases optionRel_cases (h state state' hstates) with
    ⟨hfirst, hfirst'⟩ | ⟨⟨outcome, errors, middle⟩, ⟨outcome', errors', middle'⟩, hfirst, hfirst',
      houtcome, herrors, hmiddle⟩
  · rw [Exec.bind_of_tooDeep hfirst, Exec.bind_of_tooDeep hfirst']
    exact .none
  · obtain rfl : outcome = outcome' := houtcome
    cases outcome with
    | nulled =>
        rw [Exec.bind_of_nulled hfirst, Exec.bind_of_nulled hfirst']
        exact .some ⟨rfl, herrors, hmiddle⟩
    | value value =>
        rw [Exec.bind_of_value hfirst, Exec.bind_of_value hfirst']
        rcases optionRel_cases (hnext value middle middle' hmiddle) with
          ⟨hstep, hstep'⟩ | ⟨step, step', hstep, hstep', halike⟩
        · rw [hstep, hstep']
          exact .none
        · rw [hstep, hstep']
          exact .some ⟨halike.outcome, List.rel_append herrors halike.errors, halike.state⟩

/-- Calls that track one another can be followed by whatever goes alike for their values. -/
theorem call_bind {hook : StateM State α} {hook' : StateM State' α'} {related : α → α' → Prop}
    {next : α → Exec State β} {next' : α' → Exec State' β} (h : Tracks states related hook hook')
    (hnext : ∀ value value', related value value' →
      Simulates states locations (next value) (next' value')) :
    Simulates states locations (Exec.call hook >>= next) (Exec.call hook' >>= next') := by
  intro state state' hstates
  rw [Exec.call_bind_apply, Exec.call_bind_apply]
  obtain ⟨hvalue, hstates⟩ := h state state' hstates
  exact hnext _ _ hvalue _ _ hstates

theorem map {computation : Exec State α} {computation' : Exec State' α}
    (h : Simulates states locations computation computation') (f : α → β) :
    Simulates states locations (f <$> computation) (f <$> computation') := by
  rw [← bind_pure_comp, ← bind_pure_comp]
  exact h.bind fun value => .pure (f value)

theorem nullify {computation : Exec State Json} {computation' : Exec State' Json}
    (h : Simulates states locations computation computation') (type : TypeRef) :
    Simulates states locations (Exec.nullify type computation)
      (Exec.nullify type computation') := by
  intro state state' hstates
  simp only [Exec.nullify]
  rcases optionRel_cases (h state state' hstates) with
    ⟨hstep, hstep'⟩ | ⟨step, step', hstep, hstep', halike⟩
  · rw [hstep, hstep']
    exact .none
  · rw [hstep, hstep', Option.map_some, Option.map_some, halike.outcome]
    refine .some ?_
    cases step'.outcome with
    | value value => exact ⟨rfl, halike.errors, halike.state⟩
    | nulled => exact ⟨rfl, halike.errors, halike.state⟩

end Exec.Simulates

/-- Two lists of fields of an object at `path` match one by one, and hooks are told alike about
them. -/
def FieldsAlike (alike : ResolveInfo Object Item → ResolveInfo Object Item → Prop)
    (env : Environment State Object Item) (env' : Environment State' Object Item) (path : Path)
    (type : ObjectType) (fields fields' : List (FieldGroup × FieldDefinition)) : Prop :=
  List.Forall₂ (fun field field' =>
    field.1.key = field'.1.key ∧ field.2 = field'.2 ∧
      alike (env.infoOf path type field.2 field.1) (env'.infoOf path type field'.2 field'.1))
    fields fields'

/-- All hooks of two environments track one another, resolvers included, and fields that hooks are
told alike about have the same arguments. -/
structure ResolversTrack (states : State → State' → Prop)
    (alike : ResolveInfo Object Item → ResolveInfo Object Item → Prop)
    (env : Environment State Object Item) (env' : Environment State' Object Item) : Prop extends
    HooksTrack states alike env env' where
  variableValues : env.request.variableValues = env'.request.variableValues
  definition : ∀ {info info'}, alike info info' → info.definition = info'.definition
  arguments : ∀ {info info'}, alike info info' →
    info.group.first.arguments = info'.group.first.arguments
  resolvers : ∀ type field,
    Option.Rel (fun run run' => ∀ source arguments info info', alike info info' →
        Tracks states Eq (run source arguments info) (run' source arguments info'))
      (env.executable.resolver? type field) (env'.executable.resolver? type field)
  fieldResolver : ∀ source arguments info info', alike info info' →
    Tracks states Eq (env.fieldResolver source arguments info)
      (env'.fieldResolver source arguments info')

/-- Two environments execute alike what hooks are told alike about: all hooks track one another,
and what lies below a field asks for the same fields again. -/
structure RunsTrack (states : State → State' → Prop)
    (locations : List Location → List Location → Prop)
    (alike : ResolveInfo Object Item → ResolveInfo Object Item → Prop)
    (env : Environment State Object Item) (env' : Environment State' Object Item) : Prop extends
    ResolversTrack states alike env env' where
  locations : ∀ {info info'}, alike info info' → locations info.locations info'.locations
  fields : ∀ {info info'}, alike info info' → ∀ path type,
    FieldsAlike alike env env' path type (env.selectedFields type info.group.selections)
      (env'.selectedFields type info'.group.selections)

/-- Two pending places are one place, with calls for its value that track one another. -/
structure Pending.Alike (states : State → State' → Prop)
    (alike : ResolveInfo Object Item → ResolveInfo Object Item → Prop)
    (pending : Pending State Object Item) (pending' : Pending State' Object Item) : Prop where
  segment : pending.segment = pending'.segment
  type : pending.type = pending'.type
  info : alike pending.info pending'.info
  resolve : Tracks states Eq pending.resolve pending'.resolve

section

variable {states : State → State' → Prop} {locations : List Location → List Location → Prop}
  {alike : ResolveInfo Object Item → ResolveInfo Object Item → Prop}
  {env : Environment State Object Item} {env' : Environment State' Object Item}
  {execute : ObjectExecutor State Object Item} {execute' : ObjectExecutor State' Object Item}

namespace ResolversTrack

theorem answer (h : ResolversTrack states alike env env')
    {info info' : ResolveInfo Object Item} (halike : alike info info')
    (source : Resolved Object Item) (arguments : Members) :
    Tracks states Eq (env.answer info source arguments) (env'.answer info' source arguments) := by
  rw [Environment.answer, Environment.answer, h.parent halike, h.fieldName halike]
  rcases optionRel_cases (h.resolvers info'.parent.name info'.fieldName) with
    ⟨hrun, hrun'⟩ | ⟨run, run', hrun, hrun', htracks⟩
  · simp only [hrun, hrun']
    cases (Environment.builtIn? info'.parent info'.fieldName :
        Option (Except Failure (Resolved Object Item))) with
    | some answer => exact .pure rfl
    | none => exact (h.fieldResolver source arguments _ _ halike).map_eq _
  · simp only [hrun, hrun']
    exact (htracks source arguments _ _ halike).map_eq _

theorem resolution (h : ResolversTrack states alike env env')
    {info info' : ResolveInfo Object Item} (halike : alike info info')
    (source : Resolved Object Item) :
    Tracks states Eq (env.resolution info source) (env'.resolution info' source) := by
  rw [Environment.resolution, Environment.resolution, h.schema, h.definition halike,
    h.arguments halike, h.variableValues]
  cases env'.schema.coerceArguments info'.definition.arguments info'.group.first.arguments
      env'.request.variableValues with
  | error error => exact .pure rfl
  | ok arguments => exact h.answer halike source arguments

end ResolversTrack

namespace RunsTrack

theorem fieldsOf (h : RunsTrack states locations alike env env') {path : Path} {type : ObjectType}
    (source : Resolved Object Item) {fields fields' : List (FieldGroup × FieldDefinition)}
    (hfields : FieldsAlike alike env env' path type fields fields') :
    List.Forall₂ (Pending.Alike states alike) (env.fieldsOf path type source fields)
      (env'.fieldsOf path type source fields') := by
  refine List.forall₂_map_left_iff.mpr (List.forall₂_map_right_iff.mpr (hfields.imp ?_))
  rintro field field' ⟨hkey, hdefinition, halike⟩
  exact ⟨congrArg PathSegment.key hkey, congrArg FieldDefinition.type hdefinition, halike,
    h.resolution halike source⟩

end RunsTrack

namespace Completion

/-- The places of items match one by one if the calls for them do. -/
theorem forall₂_itemsOf {info info' : ResolveInfo Object Item} {type : TypeRef}
    {related : Pending State Object Item → Pending State' Object Item → Prop}
    (hitem : ∀ position (item : StateM State (ResolverResult Object Item))
      (item' : StateM State' (ResolverResult Object Item)), Tracks states Eq item item' →
      related ⟨.index position, type, info, (·.mapError Failure.resolver) <$> item⟩
        ⟨.index position, type, info', (·.mapError Failure.resolver) <$> item'⟩)
    (position : Nat) {items : List (StateM State (ResolverResult Object Item))}
    {items' : List (StateM State' (ResolverResult Object Item))}
    (tracked : List.Forall₂ (Tracks states Eq) items items') :
    List.Forall₂ related (itemsOf info type position items)
      (itemsOf info' type position items') := by
  induction tracked generalizing position with
  | nil => exact .nil
  | cons item _ ih => exact .cons (hitem position _ _ item) (ih (position + 1))

variable (states locations alike env env' execute execute') in
/-- At places of this type, values are completed alike. -/
def CompletesAlike (type : TypeRef) : Prop :=
  ∀ info info' path resolved, alike info info' →
    Exec.Simulates states locations (complete env execute info type path resolved)
      (complete env' execute' info' type path resolved)

theorem simulates_fill {pendings : List (Pending State Object Item)}
    {pendings' : List (Pending State' Object Item)}
    (h : List.Forall₂ (Pending.Alike states alike) pendings pendings')
    (hcomplete : ∀ pending ∈ pendings,
      CompletesAlike states locations alike env env' execute execute' pending.type)
    (path : Path) :
    Exec.Simulates states locations (fill env execute path pendings)
      (fill env' execute' path pendings') := by
  induction h with
  | nil => exact .pure []
  | cons hpending _ ih =>
      obtain ⟨hsegment, htype, hinfo, hresolve⟩ := hpending
      obtain ⟨hhead, htail⟩ := List.forall_mem_cons.mp hcomplete
      rw [fill, fill, ← hsegment, ← htype]
      refine Exec.Simulates.bind (.nullify (.call_bind hresolve ?_) _) fun value => ?_
      · rintro resolved _ rfl
        exact hhead _ _ _ resolved hinfo
      · exact (ih htail).bind fun values => .pure _

variable (states locations alike execute execute') in
/-- Selections below fields that hooks are told alike about are executed alike. -/
def ExecutesAlike : Prop :=
  ∀ info info' path type source, alike info info' →
    Exec.Simulates states locations (execute path type source info.group.selections)
      (execute' path type source info'.group.selections)

theorem completes_of_items (h : RunsTrack states locations alike env env')
    (hexecute : ExecutesAlike states locations alike execute execute') {type : TypeRef}
    (hitem : ∀ item nonNull, type = .list item nonNull →
      CompletesAlike states locations alike env env' execute execute' item) :
    CompletesAlike states locations alike env env' execute execute' type := by
  intro info info' path resolved halike
  rw [complete_eq, complete_eq]
  have hfinds := tracks_examine h.toHooksTrack halike type resolved
  refine .call_bind (hfinds.and_gives (gives_examine env info type resolved)) ?_
  rintro finding finding' ⟨htracked, hfits⟩
  cases htracked with
  | failed failure => exact .fail ⟨rfl, rfl, h.locations halike⟩
  | null => exact .pure _
  | leaf value => exact .pure _
  | list item tracked =>
      cases hfits with
      | list =>
          rw [conclude_list, conclude_list]
          have hitems : List.Forall₂ (Pending.Alike states alike) (itemsOf info item 0 _)
              (itemsOf info' item 0 _) :=
            forall₂_itemsOf (fun _ _ _ h => ⟨rfl, rfl, halike, h.map_eq _⟩) 0 tracked
          refine (simulates_fill hitems ?_ path).map _
          intro pending hmem
          rw [(mem_itemsOf hmem).2]
          exact hitem item _ rfl
  | object object source =>
      exact (hexecute info info' path object source halike).bind fun members => .pure _

theorem completes_of_executes (h : RunsTrack states locations alike env env')
    (hexecute : ExecutesAlike states locations alike execute execute') (type : TypeRef) :
    CompletesAlike states locations alike env env' execute execute' type := by
  induction type with
  | named name nonNull => exact completes_of_items h hexecute nofun
  | list item nonNull ih =>
      refine completes_of_items h hexecute ?_
      rintro _ _ ⟨⟩
      exact ih

end Completion

namespace RunsTrack

/-- Selections that ask for the same fields are executed alike: induction on the depth. -/
theorem executeSelections (h : RunsTrack states locations alike env env') (depth : Nat)
    (path : Path) (type : ObjectType) (source : Resolved Object Item)
    {selections selections' : List Selection}
    (hfields : FieldsAlike alike env env' path type (env.selectedFields type selections)
      (env'.selectedFields type selections')) :
    Exec.Simulates states locations (env.executeSelections depth path type source selections)
      (env'.executeSelections depth path type source selections') := by
  induction depth generalizing path type source selections selections' with
  | zero => exact .tooDeep
  | succ depth ih =>
      have hexecute : Completion.ExecutesAlike states locations alike
          (env.executeSelections depth) (env'.executeSelections depth) :=
        fun info info' path type source halike => ih path type source (h.fields halike path type)
      simp only [Environment.executeSelections, Environment.executeGroups_eq_fill]
      exact (Completion.simulates_fill (h.fieldsOf source hfields)
        (fun pending _ => Completion.completes_of_executes h hexecute pending.type) path).map _

/-- Operations that ask for the same root fields are executed alike. -/
theorem run (h : RunsTrack states locations alike env env') (depth : Nat) (type : ObjectType)
    (root : env.request.root = env'.request.root)
    (hfields : FieldsAlike alike env env' [] type
      (env.selectedFields type env.request.operation.selections)
      (env'.selectedFields type env'.request.operation.selections)) :
    Exec.Simulates states locations (env.run depth type) (env'.run depth type) := by
  rw [Environment.run, Environment.run, root]
  exact h.executeSelections depth [] type _ hfields

end RunsTrack

end

end GraphQL
