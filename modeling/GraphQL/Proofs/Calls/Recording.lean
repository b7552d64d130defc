import GraphQL.Proofs.Execution.Simulation

/-! # Recorded runs

A service can keep a list of the calls that its hooks receive, beside its own state. Keeping the
list changes nothing else: without it, a recorded run is the run itself. -/

namespace GraphQL

/-- A call of a resolver, with all that it is given. -/
structure FieldCall (Object Item Info : Type) where
  source : Resolved Object Item
  arguments : Members
  info : Info

/-- A call of any hook, with all that it is given. -/
inductive Call (Object Item Info : Type) where
  | field (call : FieldCall Object Item Info)
  | serializer (type : String) (value : Json)
  | typeResolver (type : String) (value : Resolved Object Item) (info : Info)
  | typePredicate (type : String) (value : Resolved Object Item) (info : Info)
  | item (item : Item)

def Call.field? {Object Item Info : Type} : Call Object Item Info →
    Option (FieldCall Object Item Info)
  | .field call => some call
  | _ => none

/-- The calls of hooks in a run, in order. -/
abbrev CallLog (Object Item : Type) := List (Call Object Item (ResolveInfo Object Item))

variable {State Object Item α : Type}

/-- The calls of resolvers in a run, in order. -/
def CallLog.fields (calls : CallLog Object Item) :
    List (FieldCall Object Item (ResolveInfo Object Item)) :=
  calls.filterMap Call.field?

/-- Makes a call and notes it. -/
def noting (call : Call Object Item (ResolveInfo Object Item)) (hook : StateM State α) :
    StateM (State × CallLog Object Item) α := fun (state, calls) =>
  let (value, state) := hook.run state
  (value, (state, calls ++ [call]))

theorem run_noting {call : Call Object Item (ResolveInfo Object Item)} {hook : StateM State α}
    {state next : State} {value : α} (h : hook.run state = (value, next))
    (calls : CallLog Object Item) :
    (noting call hook).run (state, calls) = (value, (next, calls ++ [call])) := by
  change ((hook.run state).1, ((hook.run state).2, calls ++ [call])) = _
  rw [h]

def Resolver.recorded (run : Resolver State Object Item) :
    Resolver (State × CallLog Object Item) Object Item := fun source arguments info =>
  noting (.field ⟨source, arguments, info⟩) (run source arguments info)

def Serializer.recorded (type : String) (run : Serializer State) :
    Serializer (State × CallLog Object Item) := fun value =>
  noting (.serializer type value) (run value)

def TypeResolver.recorded (type : String) (run : TypeResolver State Object Item) :
    TypeResolver (State × CallLog Object Item) Object Item := fun value info =>
  noting (.typeResolver type value info) (run value info)

def TypePredicate.recorded (type : String) (run : TypePredicate State Object Item) :
    TypePredicate (State × CallLog Object Item) Object Item := fun value info =>
  noting (.typePredicate type value info) (run value info)

namespace ExecutableSchema

/-- The same hooks, each of which notes its calls. -/
def recorded (executable : ExecutableSchema State Object Item) :
    ExecutableSchema (State × CallLog Object Item) Object Item where
  schema := executable.schema
  resolvers := executable.resolvers.map fun (type, fields) =>
    (type, fields.map fun (field, run) => (field, Resolver.recorded run))
  serializers := executable.serializers.map fun (type, run) => (type, Serializer.recorded type run)
  typeResolvers :=
    executable.typeResolvers.map fun (type, run) => (type, TypeResolver.recorded type run)
  typePredicates :=
    executable.typePredicates.map fun (type, run) => (type, TypePredicate.recorded type run)

variable (executable : ExecutableSchema State Object Item)

theorem resolver?_recorded (type field : String) :
    executable.recorded.resolver? type field =
      (executable.resolver? type field).map Resolver.recorded := by
  have hfields := Entries.get?_map
    (fun _ (fields : List (String × Resolver State Object Item)) =>
      fields.map fun (field, run) => (field, Resolver.recorded run)) type executable.resolvers
  simp only [resolver?, recorded, hfields]
  cases Entries.get? type executable.resolvers with
  | none => rfl
  | some fields => exact Entries.get?_map (fun _ => Resolver.recorded) field fields

theorem serializer?_recorded (type : String) :
    executable.recorded.serializer? type =
      (executable.serializer? type).map (Serializer.recorded type) :=
  Entries.get?_map Serializer.recorded type executable.serializers

theorem typeResolver?_recorded (type : String) :
    executable.recorded.typeResolver? type =
      (executable.typeResolver? type).map (TypeResolver.recorded type) :=
  Entries.get?_map TypeResolver.recorded type executable.typeResolvers

theorem typePredicate?_recorded (type : String) :
    executable.recorded.typePredicate? type =
      (executable.typePredicate? type).map (TypePredicate.recorded type) :=
  Entries.get?_map TypePredicate.recorded type executable.typePredicates

end ExecutableSchema

/-- The same environment with hooks that note their calls. The resolver of the request is one of
them, also where it is the default resolver. -/
def Environment.recorded (env : Environment State Object Item) :
    Environment (State × CallLog Object Item) Object Item where
  executable := env.executable.recorded
  service :=
    { resolveField := fun object arguments info =>
        noting (.field ⟨.object object, arguments, info⟩)
          (env.service.resolveField object arguments info)
      pull := fun item => noting (.item item) (env.service.pull item) }
  fieldResolver := Resolver.recorded env.fieldResolver
  request := env.request

namespace Environment

variable (env : Environment State Object Item)

@[simp] theorem executable_recorded : env.recorded.executable = env.executable.recorded := rfl

@[simp] theorem schema_recorded : env.recorded.schema = env.schema := rfl

@[simp] theorem request_recorded : env.recorded.request = env.request := rfl

@[simp] theorem fieldResolver_recorded :
    env.recorded.fieldResolver = Resolver.recorded env.fieldResolver := rfl

end Environment

/-- Answers a request as it is answered within some depth, and keeps the calls of hooks. -/
def Request.recordWithin (depth : Nat) (executable : ExecutableSchema State Object Item)
    (service : Service State Object Item) (request : Request State Object Item) (state : State) :
    Option (Except RequestError Response × State × CallLog Object Item) :=
  match request.prepare executable service with
  | .error error => some (.error error, state, [])
  | .ok (env, type) =>
    (env.recorded.run depth type (state, [])).map fun step => (.ok step.toResponse, step.state)

/-! ## Recorded runs are the runs -/

theorem tracks_noting (call : Call Object Item (ResolveInfo Object Item)) (hook : StateM State α) :
    Tracks (fun recorded state => recorded.1 = state) Eq (noting call hook) hook := by
  rintro ⟨state, calls⟩ _ rfl
  exact ⟨rfl, rfl⟩

namespace Environment

variable (env : Environment State Object Item)

theorem fieldsAlike_recorded (path : Path) (type : ObjectType) (selections : List Selection) :
    FieldsAlike Eq env.recorded env path type (env.recorded.selectedFields type selections)
      (env.selectedFields type selections) :=
  List.forall₂_same.mpr fun _ _ => ⟨rfl, rfl, rfl⟩

theorem runsTrack_recorded :
    RunsTrack (fun recorded state => recorded.1 = state) Eq Eq env.recorded env where
  schema := rfl
  parent := congrArg ResolveInfo.parent
  fieldName := congrArg ResolveInfo.fieldName
  serializers type := by
    rw [executable_recorded, ExecutableSchema.serializer?_recorded]
    exact optionRel_map_left fun run value => tracks_noting _ _
  typeResolvers type := by
    rw [executable_recorded, ExecutableSchema.typeResolver?_recorded]
    refine optionRel_map_left fun run value info _ heq => ?_
    exact heq ▸ tracks_noting _ _
  typePredicates type := by
    rw [executable_recorded, ExecutableSchema.typePredicate?_recorded]
    refine optionRel_map_left fun run value info _ heq => ?_
    exact heq ▸ tracks_noting _ _
  items item := tracks_noting _ _
  variableValues := rfl
  definition := congrArg ResolveInfo.definition
  arguments := congrArg fun info : ResolveInfo Object Item => info.group.first.arguments
  locations := congrArg ResolveInfo.locations
  resolvers type field := by
    rw [executable_recorded, ExecutableSchema.resolver?_recorded]
    refine optionRel_map_left fun run source arguments info _ heq => ?_
    exact heq ▸ tracks_noting _ _
  fieldResolver source arguments info _ heq := heq ▸ tracks_noting _ _
  fields heq path type := heq ▸ env.fieldsAlike_recorded path type _

end Environment

/-- Recording changes neither the answer to a request nor the state it leaves behind. -/
theorem Request.recordWithin_forget (depth : Nat) (executable : ExecutableSchema State Object Item)
    (service : Service State Object Item) (request : Request State Object Item) (state : State) :
    (request.recordWithin depth executable service state).map
        (fun recorded => (recorded.1, recorded.2.1)) =
      request.executeWithin depth executable service state := by
  rw [recordWithin, executeWithin]
  cases request.prepare executable service with
  | error error => rfl
  | ok prepared =>
      obtain ⟨env, type⟩ := prepared
      have hruns := env.runsTrack_recorded.run depth type rfl (env.fieldsAlike_recorded [] type _)
        (state, []) state rfl
      simp only
      rcases optionRel_cases hruns with ⟨hrun, hrun'⟩ | ⟨step, step', hrun, hrun', halike⟩
      · rw [hrun, hrun']
        rfl
      · rw [hrun, hrun']
        have herrors : step.errors = step'.errors :=
          List.forall₂_eq_eq_eq ▸ halike.errors.imp fun _ _ h => h.eq
        simp [Step.toResponse, halike.outcome, herrors, halike.state]

/-- Whatever is answered can be recorded. -/
theorem Request.exists_calls {depth : Nat} {executable : ExecutableSchema State Object Item}
    {service : Service State Object Item} {request : Request State Object Item} {state next : State}
    {answer : Except RequestError Response}
    (h : request.executeWithin depth executable service state = some (answer, next)) :
    ∃ calls, request.recordWithin depth executable service state = some (answer, next, calls) := by
  rw [← recordWithin_forget, Option.map_eq_some_iff] at h
  obtain ⟨⟨answer', next', calls⟩, hrecord, heq⟩ := h
  obtain ⟨rfl, rfl⟩ := Prod.mk.inj heq
  exact ⟨calls, hrecord⟩

end GraphQL
