import GraphQL.Proofs.Execution.Serial
import GraphQL.Proofs.Execution.Simulation
import GraphQL.Proofs.Execution.Termination
import GraphQL.Proofs.Execution.Validity
import Mathlib.Data.List.Perm.Basic

/-! # Fields in any order

If hooks go by nothing but what they are given, a field is executed alike whatever has been executed
before it. So the order of the fields of an object decides the order of its members and errors, and
nothing else. -/

namespace GraphQL

variable {State Object Item α β : Type}

/-- The value of a call does not depend on the state in which it is made. -/
def Stateless (hook : StateM State α) : Prop :=
  ∀ state state', (hook.run state).1 = (hook.run state').1

/-- No hook of an environment goes by the state of the service. -/
structure HooksStateless (env : Environment State Object Item) : Prop where
  resolvers : ∀ type field run, env.executable.resolver? type field = some run →
    ∀ source arguments info, Stateless (run source arguments info)
  fieldResolver : ∀ source arguments info, Stateless (env.fieldResolver source arguments info)
  serializers : ∀ type run, env.executable.serializer? type = some run →
    ∀ value, Stateless (run value)
  typeResolvers : ∀ type run, env.executable.typeResolver? type = some run →
    ∀ value info, Stateless (run value info)
  typePredicates : ∀ type run, env.executable.typePredicate? type = some run →
    ∀ value info, Stateless (run value info)
  items : ∀ item, Stateless (env.service.pull item)

theorem Stateless.tracks {hook : StateM State α} (h : Stateless hook) :
    Tracks (fun _ _ => True) Eq hook hook :=
  fun state state' _ => ⟨h state state', trivial⟩

theorem optionRel_self {related : α → α → Prop} {option : Option α}
    (h : ∀ value, option = some value → related value value) :
    Option.Rel related option option := by
  cases option with
  | none => exact .none
  | some value => exact .some (h value rfl)

/-- Hooks that do not go by the state are tracked by themselves, whatever states they are called
in. -/
theorem HooksStateless.runsTrack {env : Environment State Object Item} (h : HooksStateless env) :
    RunsTrack (fun _ _ => True) Eq Eq env env where
  schema := rfl
  parent := congrArg ResolveInfo.parent
  fieldName := congrArg ResolveInfo.fieldName
  serializers type :=
    optionRel_self fun run hrun value => (h.serializers type run hrun value).tracks
  typeResolvers type := by
    refine optionRel_self fun run hrun value info _ heq => ?_
    exact heq ▸ (h.typeResolvers type run hrun value info).tracks
  typePredicates type := by
    refine optionRel_self fun run hrun value info _ heq => ?_
    exact heq ▸ (h.typePredicates type run hrun value info).tracks
  items item := (h.items item).tracks
  variableValues := rfl
  definition := congrArg ResolveInfo.definition
  arguments := congrArg fun info : ResolveInfo Object Item => info.group.first.arguments
  locations := congrArg ResolveInfo.locations
  resolvers type field := by
    refine optionRel_self fun run hrun source arguments info _ heq => ?_
    exact heq ▸ (h.resolvers type field run hrun source arguments info).tracks
  fieldResolver source arguments info _ heq :=
    heq ▸ (h.fieldResolver source arguments info).tracks
  fields heq path type := heq ▸ List.forall₂_same.mpr fun _ _ => ⟨rfl, rfl, rfl⟩

/-! ## Computations that end alike in all states -/

namespace Exec

/-- How a computation ends does not depend on the state in which it starts. -/
abbrev Uniform (computation : Exec State α) : Prop :=
  Simulates (fun _ _ => True) Eq computation computation

/-- Whatever state it starts in, a computation ends with this value and these errors. -/
def Yields (computation : Exec State α) (value : α) (errors : List FieldError) : Prop :=
  ∀ state, ∃ next, computation state = some ⟨.value value, errors, next⟩

theorem Uniform.yields {computation : Exec State α} (h : Uniform computation) {value : α}
    {errors : List FieldError} {state next : State}
    (hvalue : computation state = some ⟨.value value, errors, next⟩) :
    computation.Yields value errors := by
  intro state'
  have hrel := h state state' trivial
  rw [hvalue] at hrel
  rcases optionRel_cases hrel with
    ⟨hnone, -⟩ | ⟨_, ⟨outcome, errors', next'⟩, hsome, hstep', halike⟩
  · cases hnone
  · obtain rfl := Option.some.inj hsome
    obtain ⟨rfl, herrors, -⟩ := halike
    have heq : errors = errors' := List.forall₂_eq_eq_eq ▸ herrors.imp fun _ _ h => h.eq
    exact ⟨next', by rw [hstep', heq]⟩

end Exec

/-! ## Places that are filled in any order -/

/-- A place with its value, and the errors at it and below. -/
abbrev Filled := (PathSegment × Json) × List FieldError

namespace Completion

variable (env : Environment State Object Item) (execute : ObjectExecutor State Object Item)
  (path : Path)

/-- A place is filled like this, whatever state that starts in. -/
def Fulfils (pending : Pending State Object Item) (filled : Filled) : Prop :=
  filled.1.1 = pending.segment ∧ (fillOne env execute path pending).Yields filled.1.2 filled.2

variable {env execute path}

/-- Places are filled, if none sends a null upwards, each as it is filled on its own. -/
theorem fill_eq_value_iff {pendings : List (Pending State Object Item)}
    (uniform : ∀ pending ∈ pendings, (fillOne env execute path pending).Uniform) (state : State)
    (values : List (PathSegment × Json)) (errors : List FieldError) :
    (∃ next, fill env execute path pendings state = some ⟨.value values, errors, next⟩) ↔
      ∃ filled, List.Forall₂ (Fulfils env execute path) pendings filled ∧
        filled.map Prod.fst = values ∧ filled.flatMap Prod.snd = errors := by
  induction pendings generalizing state values errors with
  | nil =>
      constructor
      · rintro ⟨next, h⟩
        cases h
        exact ⟨[], .nil, rfl, rfl⟩
      · rintro ⟨filled, hfilled, rfl, rfl⟩
        cases hfilled
        exact ⟨state, rfl⟩
  | cons pending rest ih =>
      obtain ⟨hhead, htail⟩ := List.forall_mem_cons.mp uniform
      simp only [fill_cons_eq, Exec.bind_eq_value_iff, Exec.map_eq_value_iff]
      constructor
      · rintro ⟨next, value, earlier, middle, later, hvalue, ⟨values, hrest, rfl⟩, rfl⟩
        obtain ⟨filled, hfilled, rfl, rfl⟩ := (ih htail middle values later).mp ⟨_, hrest⟩
        exact ⟨((pending.segment, value), earlier) :: filled,
          .cons ⟨rfl, hhead.yields hvalue⟩ hfilled, rfl, by simp⟩
      · rintro ⟨filled, hfilled, rfl, rfl⟩
        cases hfilled with
        | @cons _ first _ others hfirst hothers =>
            obtain ⟨⟨segment, value⟩, earlier⟩ := first
            obtain ⟨rfl, hyields⟩ := hfirst
            obtain ⟨middle, hvalue⟩ := hyields state
            obtain ⟨next, hrest⟩ := (ih htail middle _ _).mpr ⟨others, hothers, rfl, rfl⟩
            exact ⟨next, value, earlier, middle, _, hvalue, ⟨_, hrest, rfl⟩, rfl⟩

/-- Whether places are filled, and how, does not depend on their order. -/
theorem fill_perm {pendings pendings' : List (Pending State Object Item)}
    (uniform : ∀ pending ∈ pendings, (fillOne env execute path pending).Uniform)
    (perm : pendings.Perm pendings') {state next : State} {values : List (PathSegment × Json)}
    {errors : List FieldError}
    (h : fill env execute path pendings state = some ⟨.value values, errors, next⟩)
    (state' : State) :
    ∃ values' errors' next',
      fill env execute path pendings' state' = some ⟨.value values', errors', next'⟩ ∧
        values.Perm values' ∧ errors.Perm errors' := by
  obtain ⟨filled, hfilled, rfl, rfl⟩ := (fill_eq_value_iff uniform state values errors).mp ⟨next, h⟩
  obtain ⟨filled', hfilled', hperm⟩ := List.perm_comp_forall₂ perm.symm hfilled
  have huniform : ∀ pending ∈ pendings', (fillOne env execute path pending).Uniform :=
    fun pending hmem => uniform pending (perm.mem_iff.mpr hmem)
  obtain ⟨next', h'⟩ :=
    (fill_eq_value_iff huniform state' _ _).mpr ⟨filled', hfilled', rfl, rfl⟩
  exact ⟨_, _, next', h', hperm.symm.map _, hperm.symm.flatMap_right _⟩

end Completion

namespace Environment

variable {env : Environment State Object Item}

/-- A field is executed alike in all states. -/
theorem uniform_field (stateless : HooksStateless env) (depth : Nat) (path : Path)
    (type : ObjectType) (source : Resolved Object Item)
    (fields : List (FieldGroup × FieldDefinition)) :
    ∀ pending ∈ env.fieldsOf path type source fields,
      (Completion.fillOne env (env.executeSelections depth) path pending).Uniform := by
  have htracks := stateless.runsTrack
  have hexecute : Completion.ExecutesAlike (fun _ _ => True) Eq Eq (env.executeSelections depth)
      (env.executeSelections depth) :=
    fun info info' path type source heq =>
      htracks.executeSelections depth path type source (htracks.fields heq path type)
  intro pending hmem
  obtain ⟨field, -, rfl⟩ := List.mem_map.mp hmem
  refine Exec.Simulates.nullify (.call_bind (htracks.resolution rfl source) ?_) _
  rintro resolved _ rfl
  exact Completion.completes_of_executes htracks hexecute field.2.type _ _ _ resolved rfl

theorem perm_fieldsOf {type : ObjectType} {selections selections' : List Selection}
    (fields : ((env.scope type).collectFields selections).Perm
      ((env.scope type).collectFields selections'))
    (path : Path) (source : Resolved Object Item) :
    (env.fieldsOf path type source (env.selectedFields type selections)).Perm
      (env.fieldsOf path type source (env.selectedFields type selections')) :=
  (fields.filterMap _).map _

end Environment

/-- How the same fields end in two orders: with the same members and the same errors, but for their
order, or with a null that goes further up. -/
inductive SameButOrder : Step State Members → Step State Members → Prop
  | members {members members' errors errors' next next'} (distinct : (Entries.keys members).Nodup)
      (sameMembers : members.Perm members') (sameErrors : errors.Perm errors') :
      SameButOrder ⟨.value members, errors, next⟩ ⟨.value members', errors', next'⟩
  | nulled (errors errors' next next') :
      SameButOrder ⟨.nulled, errors, next⟩ ⟨.nulled, errors', next'⟩

namespace Environment

variable {env : Environment State Object Item}

/-- The same fields in another order have the same members, with the same errors. -/
theorem executeSelections_perm (stateless : HooksStateless env) {depth : Nat} {path : Path}
    {type : ObjectType} {source : Resolved Object Item} {selections selections' : List Selection}
    (fields : ((env.scope type).collectFields selections).Perm
      ((env.scope type).collectFields selections'))
    {state next : State} {members : Members} {errors : List FieldError}
    (h : env.executeSelections depth path type source selections state =
      some ⟨.value members, errors, next⟩) (state' : State) :
    ∃ members' errors' next',
      env.executeSelections depth path type source selections' state' =
          some ⟨.value members', errors', next'⟩ ∧
        members.Perm members' ∧ errors.Perm errors' := by
  cases depth with
  | zero => cases h
  | succ depth =>
      rw [executeSelections_succ, Exec.map_eq_value_iff] at h
      obtain ⟨values, hvalues, rfl⟩ := h
      obtain ⟨values', errors', next', hvalues', hperm, herrors⟩ :=
        Completion.fill_perm (env.uniform_field stateless depth path type source _)
          (perm_fieldsOf fields path source) hvalues state'
      refine ⟨membersOf values', errors', next', ?_, hperm.filterMap _, herrors⟩
      rw [executeSelections_succ, Exec.map_eq_value_iff]
      exact ⟨values', hvalues', rfl⟩

/-- Executions that come to an end, within whatever depths, end alike but for order. -/
theorem executeSelections_sameButOrder (stateless : HooksStateless env) {path : Path}
    {type : ObjectType} {source : Resolved Object Item} {selections selections' : List Selection}
    (fields : ((env.scope type).collectFields selections).Perm
      ((env.scope type).collectFields selections'))
    {depth depth' : Nat} {state state' : State} {step step' : Step State Members}
    (h : env.executeSelections depth path type source selections state = some step)
    (h' : env.executeSelections depth' path type source selections' state' = some step') :
    SameButOrder step step' := by
  obtain ⟨bound, hbound⟩ := executeSelections_settles h
  obtain ⟨bound', hbound'⟩ := executeSelections_settles h'
  have hstep := hbound (max bound bound') (Nat.le_max_left _ _)
  have hstep' := hbound' (max bound bound') (Nat.le_max_right _ _)
  obtain ⟨outcome, errors, next⟩ := step
  obtain ⟨outcome', errors', next'⟩ := step'
  cases outcome with
  | value members =>
      obtain ⟨_, _, _, hsame, hmembers, herrors⟩ :=
        executeSelections_perm stateless fields hstep state'
      cases hsame.symm.trans hstep'
      exact .members (nodup_keys_executeSelections hstep) hmembers herrors
  | nulled =>
      cases outcome' with
      | nulled => exact .nulled _ _ _ _
      | value members' =>
          obtain ⟨_, _, _, hsame, -⟩ :=
            executeSelections_perm stateless fields.symm hstep' state
          cases hsame.symm.trans hstep

/-- The order of the fields of an object decides the order of its members and errors at most. Below
fragments that do not reach themselves, the fields are executed to an end in every order. -/
theorem executeSelections_anyOrder (stateless : HooksStateless env) (path : Path)
    (type : ObjectType) (source : Resolved Object Item) {selections selections' : List Selection}
    (fields : ((env.scope type).collectFields selections).Perm
      ((env.scope type).collectFields selections')) :
    (∀ depth depth' state state' step step',
      env.executeSelections depth path type source selections state = some step →
      env.executeSelections depth' path type source selections' state' = some step' →
      SameButOrder step step') ∧
    (∀ depth state members errors next,
      env.executeSelections depth path type source selections state =
        some ⟨.value members, errors, next⟩ →
      (env.executeSelections depth path type source selections').Ends) ∧
    (env.request.fragments.Acyclic → ∃ bound, ∀ depth > bound,
      (env.executeSelections depth path type source selections).Ends ∧
      (env.executeSelections depth path type source selections').Ends) := by
  refine ⟨?_, ?_, ?_⟩
  · intro depth depth' state state' step step' h h'
    exact executeSelections_sameButOrder stateless fields h h'
  · intro depth state members errors next h state'
    obtain ⟨_, _, _, hsame, -⟩ := executeSelections_perm stateless fields h state'
    rw [hsame]
    rfl
  · intro acyclic
    obtain ⟨bound, hbound⟩ := env.ends_of_acyclic acyclic selections
    obtain ⟨bound', hbound'⟩ := env.ends_of_acyclic acyclic selections'
    refine ⟨max bound bound', fun depth hdepth => ?_⟩
    exact ⟨hbound depth (by omega) path type source, hbound' depth (by omega) path type source⟩

end Environment

namespace Sample

theorem hooksStateless (answer : ResolverResult Empty Empty) :
    HooksStateless (environment answer) where
  resolvers type field run h source arguments info := by
    obtain rfl := eq_of_resolver? h
    exact fun _ _ => rfl
  fieldResolver source arguments info := by
    cases source with
    | json value => cases value <;> exact fun _ _ => rfl
    | object object => cases object
    | list items => exact fun _ _ => rfl
  serializers := nofun
  typeResolvers := nofun
  typePredicates := nofun
  items := nofun

theorem acyclic_empty : (Catalog.empty : Catalog Fragment).Acyclic := by
  rintro fragment hreaches
  obtain ⟨_, ⟨_, _, found, _⟩, -⟩ := Relation.TransGen.head'_iff.mp hreaches
  cases found

/-- The selections `{ user { name } __typename }` and `{ __typename user { name } }`. -/
theorem user_typename_anyOrder :
    ∃ bound, ∀ depth > bound, ∃ step step',
      (environment nameless).executeSelections depth [] query (.json .null)
        (selections ++ [.field typenameHead []]) () = some step ∧
      (environment nameless).executeSelections depth [] query (.json .null)
        (.field typenameHead [] :: selections) () = some step' ∧
      SameButOrder step step' := by
  have hfirst : ((environment nameless).scope query).Walk []
      (selections ++ [.field typenameHead []])
      [⟨userHead, [.field nameHead []]⟩, ⟨typenameHead, []⟩] [] :=
    (walk_user nameless).append (.field rfl (.nil []))
  have hsecond : ((environment nameless).scope query).Walk []
      (.field typenameHead [] :: selections)
      [⟨typenameHead, []⟩, ⟨userHead, [.field nameHead []]⟩] [] :=
    .field rfl (walk_user nameless)
  have hfields : (((environment nameless).scope query).collectFields
      (selections ++ [.field typenameHead []])).Perm
        (((environment nameless).scope query).collectFields
          (.field typenameHead [] :: selections)) := by
    rw [hfirst.collectFields_eq, hsecond.collectFields_eq]
    exact .swap _ _ []
  obtain ⟨hsame, -, hends⟩ := Environment.executeSelections_anyOrder (hooksStateless nameless) []
    query (.json .null) hfields
  obtain ⟨bound, hbound⟩ := hends acyclic_empty
  refine ⟨bound, fun depth hdepth => ?_⟩
  obtain ⟨step, hstep⟩ := Option.isSome_iff_exists.mp ((hbound depth hdepth).1 ())
  obtain ⟨step', hstep'⟩ := Option.isSome_iff_exists.mp ((hbound depth hdepth).2 ())
  exact ⟨step, step', hstep, hstep', hsame depth depth () () step step' hstep hstep'⟩

end Sample

end GraphQL
