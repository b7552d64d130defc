import GraphQL.Execution.Request
import GraphQL.Proofs.Coercion.Shape
import GraphQL.Proofs.Execution.Derivation
import GraphQL.Proofs.Selection.Grouping

/-! # Runs of requests

The record of a run starts at the root, whose place holds an object of the root type, or null if
one of its fields sends a null upwards. A request is answered with the data and the errors of the
record. -/

namespace GraphQL

variable {State Object Item : Type}

/-- The record of a run from the root. The root may be null whatever its fields are. -/
inductive RunDerivation (env : Environment State Object Item) (type : ObjectType) (state : State) :
    Slot → State → Prop
  | root {children next}
      (below : ChildrenDerivation env []
        (env.fieldsOf [] type env.request.root
          (env.selectedFields type env.request.operation.selections)) state children next) :
      RunDerivation env type state (.named type.name false, .object children) next

/-- The data of a response at whose root a place stands. -/
def Place.toData : Place → ResponseData
  | .object fields =>
    match values? fields with
    | some values => .object (membersOf values)
    | none => .null
  | _ => .null

/-- The response that a record tells of. -/
def Slot.toResponse (record : Slot) : Response where
  errors := record.2.errors.map FieldError.toResponseError
  data := record.2.toData

/-! ## Execution from the root -/

namespace Environment

variable {env : Environment State Object Item}

theorem run_succ (depth : Nat) (type : ObjectType) :
    env.run (depth + 1) type =
      membersOf <$> Completion.fill env (env.executeSelections depth) []
        (env.fieldsOf [] type env.request.root
          (env.selectedFields type env.request.operation.selections)) := by
  rw [run, executeSelections_succ]

theorem toResponse_stepBelow {computation : Exec State (List (PathSegment × Json))}
    {state next : State} {children : List (PathSegment × Slot)}
    (h : computation state = some (Place.stepBelow children [] next)) (type : TypeRef) :
    ((membersOf <$> computation) state).map (fun step => (step.toResponse, step.state)) =
      some (Slot.toResponse (type, .object children), next) := by
  rw [Exec.map_apply, h]
  cases hvalues : Place.values? children <;>
    simp [Place.stepBelow, Step.toResponse, Slot.toResponse, Place.toData, Place.errors, hvalues,
      Outcome.ofOption]

/-- A run that comes to an end within some depth goes by the rules. -/
theorem run_derivation {depth : Nat} {type : ObjectType} {state : State}
    {step : Step State Members} (h : env.run depth type state = some step) :
    ∃ record, RunDerivation env type state record step.state ∧
      step.toResponse = record.toResponse := by
  cases depth with
  | zero => cases h
  | succ depth =>
      rw [run_succ] at h
      cases hfill : Completion.fill env (env.executeSelections depth) [] (env.fieldsOf [] type
          env.request.root (env.selectedFields type env.request.operation.selections)) state with
      | none => simp [Exec.map_apply, hfill] at h
      | some below =>
          obtain ⟨children, next, hchildren, rfl⟩ :=
            Completion.fill_derivation env _ [] _
              (fun pending _ => env.complete_derivation depth _ _ _) state below hfill
          have hresponse := toResponse_stepBelow hfill (.named type.name false)
          rw [h] at hresponse
          obtain ⟨hstep, rfl⟩ := Prod.mk.inj (Option.some.inj hresponse)
          exact ⟨_, .root hchildren, hstep⟩

end Environment

theorem RunDerivation.execution {env : Environment State Object Item} {type : ObjectType}
    {state next : State} {record : Slot} (h : RunDerivation env type state record next) :
    ∃ bound, ∀ depth ≥ bound, (env.run depth type state).map
      (fun step => (step.toResponse, step.state)) = some (record.toResponse, next) := by
  obtain ⟨below⟩ := h
  obtain ⟨bound, hbelow⟩ := below.execution
  refine ⟨bound + 1, ?_⟩
  intro depth hdepth
  obtain ⟨depth, rfl⟩ := Nat.exists_eq_add_of_le' (Nat.le_of_add_left_le hdepth)
  rw [Environment.run_succ]
  exact Environment.toResponse_stepBelow (hbelow depth (by omega)) _

/-! ## Answers to requests -/

namespace Request

variable {executable : ExecutableSchema State Object Item} {service : Service State Object Item}
  {request : Request State Object Item}

/-- A request goes through with an operation, values for its variables, and a type to start from. -/
theorem prepare_eq_ok_iff {env : Environment State Object Item} {type : ObjectType} :
    request.prepare executable service = .ok (env, type) ↔
      ∃ operation coerced,
        request.document.selectOperation request.operationName? = .ok operation ∧
        executable.schema.coerceVariables operation.variableDefinitions request.variableValues =
          .ok coerced ∧
        executable.schema.rootType? operation.kind = some type ∧
        env =
          { executable
            service
            fieldResolver := request.fieldResolver?.getD service.defaultResolver
            request :=
              { schema := executable.schema
                operation
                variableValues := coerced
                fragments := request.document.fragments
                root := request.root } } := by
  rw [prepare, bind_eq_ok_iff]
  apply exists_congr
  intro operation
  rw [bind_eq_ok_iff, exists_and_left]
  apply and_congr_right
  intro _
  apply exists_congr
  intro coerced
  rw [mapError_eq_ok_iff]
  apply and_congr_right
  intro _
  cases executable.schema.rootType? operation.kind with
  | none => simp
  | some found => simp [eq_comm, and_comm]

theorem executeWithin_derivation {depth : Nat} {state next : State} {response : Response}
    (h : request.executeWithin depth executable service state = some (.ok response, next)) :
    ∃ env type record, request.prepare executable service = .ok (env, type) ∧
      RunDerivation env type state record next ∧ response = record.toResponse := by
  rw [executeWithin] at h
  cases hprepare : request.prepare executable service with
  | error error => simp [hprepare] at h
  | ok prepared =>
      obtain ⟨env, type⟩ := prepared
      simp only [hprepare] at h
      obtain ⟨step, hstep, hanswer⟩ := Option.map_eq_some_iff.mp h
      obtain ⟨hresponse, rfl⟩ := Prod.mk.inj hanswer
      obtain ⟨record, hrecord, hstep⟩ := Environment.run_derivation hstep
      exact ⟨env, type, record, rfl, hrecord, (Except.ok.inj hresponse).symm.trans hstep⟩

/-- A run that the rules derive is executed within every depth that is great enough. -/
theorem executeWithin_of_derivation {env : Environment State Object Item} {type : ObjectType}
    {state next : State} {record : Slot}
    (prepared : request.prepare executable service = .ok (env, type))
    (h : RunDerivation env type state record next) :
    ∃ bound, ∀ depth ≥ bound, request.executeWithin depth executable service state =
      some (.ok record.toResponse, next) := by
  obtain ⟨bound, hbound⟩ := h.execution
  refine ⟨bound, fun depth hdepth => ?_⟩
  obtain ⟨step, hstep, hanswer⟩ := Option.map_eq_some_iff.mp (hbound depth hdepth)
  obtain ⟨hresponse, hstate⟩ := Prod.mk.inj hanswer
  simp [executeWithin, prepared, hstep, hresponse, hstate]

/-- The responses to a request, whatever depth they take, are those of the derived runs. -/
theorem executeWithin_iff (state next : State) (response : Response) :
    (∃ depth, request.executeWithin depth executable service state = some (.ok response, next)) ↔
      ∃ env type record, request.prepare executable service = .ok (env, type) ∧
        RunDerivation env type state record next ∧ response = record.toResponse := by
  refine ⟨fun ⟨depth, h⟩ => executeWithin_derivation h, ?_⟩
  rintro ⟨env, type, record, hprepare, hrecord, rfl⟩
  obtain ⟨bound, hbound⟩ := executeWithin_of_derivation hprepare hrecord
  exact ⟨bound, hbound bound (Nat.le_refl bound)⟩

end Request

/-! ## The value at the root -/

theorem RunDerivation.value?_eq {env : Environment State Object Item} {type : ObjectType}
    {state next : State} {record : Slot} (h : RunDerivation env type state record next) :
    record.value? = some record.toResponse.data.toJson := by
  obtain ⟨below⟩ := h
  rename_i children
  cases hvalues : Place.values? children <;>
    simp [Slot.value?, Slot.toResponse, Place.toData, Place.data?, TypeRef.settle, TypeRef.nonNull,
      ResponseData.toJson, hvalues]

theorem RunDerivation.nullable {env : Environment State Object Item} {type : ObjectType}
    {state next : State} {record : Slot} (h : RunDerivation env type state record next) :
    record.1.nonNull = false := by
  obtain ⟨below⟩ := h
  rfl

/-! ## A small schema

Users must have a name, so a user without one is null in the response. -/

namespace Sample

def user : ObjectType :=
  { name := "User", fields := ⟨[{ name := "name", type := .named "String" true }], by decide⟩ }

def query : ObjectType :=
  { name := "Query", fields := ⟨[{ name := "user", type := .named "User" false }], by decide⟩ }

def schema : Schema :=
  { query? := some "Query"
    types := ⟨[.scalar "String", .object user, .object query], by decide⟩ }

def executable (answer : ResolverResult Empty Empty) : ExecutableSchema Unit Empty Empty :=
  { schema
    resolvers :=
      [("Query", [("user", fun _ _ info =>
        pure (if info.path = [.key "user"] then answer else .ok (.json .null)))])] }

/-- The schema has one resolver, which looks at nothing but the path. -/
theorem eq_of_resolver? {answer : ResolverResult Empty Empty} {type field : String}
    {run : Resolver Unit Empty Empty} (h : (executable answer).resolver? type field = some run) :
    run = fun _ _ info =>
      pure (if info.path = [.key "user"] then answer else .ok (.json .null)) := by
  obtain ⟨fields, hfields, hrun⟩ := Option.bind_eq_some_iff.mp h
  obtain ⟨-, rfl⟩ := Prod.mk.inj (List.mem_singleton.mp (Entries.mem_of_get? hfields))
  exact (Prod.mk.inj (List.mem_singleton.mp (Entries.mem_of_get? hrun))).2

def service : Service Unit Empty Empty where
  resolveField := nofun
  pull := nofun

def nameHead : FieldHead := { name := "name", location := ⟨1, 10⟩ }

def userHead : FieldHead := { name := "user", location := ⟨1, 3⟩ }

/-- The selections of `{ user { name } }`. -/
def selections : List Selection := [.field userHead [.field nameHead []]]

def operation : Operation := { kind := .query, location := ⟨1, 1⟩, selections }

def request : Request Unit Empty Empty := { document := [.operation operation] }

def environment (answer : ResolverResult Empty Empty) : Environment Unit Empty Empty where
  executable := executable answer
  service := service
  fieldResolver := service.defaultResolver
  request := { schema, operation, variableValues := [], fragments := .empty, root := .json .null }

theorem prepare_eq (answer : ResolverResult Empty Empty) :
    request.prepare (executable answer) service = .ok (environment answer, query) := rfl

theorem selectedFields_user {env : Environment Unit Empty Empty} (h : env.schema = schema) :
    env.selectedFields query selections =
      [(⟨"user", ⟨userHead, [.field nameHead []]⟩, []⟩,
        { name := "user", type := .named "User" false })] := by
  rw [Environment.selectedFields, selections, Scope.collectFields_singleton, Environment.defined, h]
  rfl

theorem selectedFields_name {env : Environment Unit Empty Empty}
    (h : env.schema.type? "User" = some (.object user)) :
    env.selectedFields user [.field nameHead []] =
      [(⟨"name", ⟨nameHead, []⟩, []⟩, { name := "name", type := .named "String" true })] := by
  have hgroups : (env.scope user).collectFields [.field nameHead []] =
      [⟨"name", ⟨nameHead, []⟩, []⟩] := by
    rw [Scope.collectFields_singleton]
    rfl
  have hfield : env.schema.field? user.name nameHead.name =
      some { name := "name", type := .named "String" true } :=
    Option.bind_eq_some_iff.mpr ⟨_, h, rfl⟩
  simp only [Environment.selectedFields, Environment.defined, hgroups, List.filterMap_cons, hfield,
    Option.map_some, List.filterMap_nil]

/-- The answer of a resolver that knows a user but not the name. -/
def nameless : ResolverResult Empty Empty := .ok (.json (.object [("name", .null)]))

def namelessRecord : Slot :=
  (.named "Query" false, .object [(.key "user", .named "User" false, .object
    [(.key "name", .named "String" true, .failed (.nullNotAllowed "User" "name") [⟨1, 10⟩])])])

theorem nameless_derivation :
    RunDerivation (environment nameless) query () namelessRecord () := by
  refine .root ?_
  change ChildrenDerivation _ _ (Environment.fieldsOf _ _ _ _
    ((environment nameless).selectedFields query selections)) _ _ _
  rw [selectedFields_user rfl]
  refine .cons rfl (.object rfl ?_) rfl (.nil _ _)
  change ChildrenDerivation _ _ (Environment.fieldsOf _ _ _ _
    ((environment nameless).selectedFields user [.field nameHead []])) _ _ _
  rw [selectedFields_name rfl]
  exact .stop rfl (.failed rfl) rfl

theorem nameless_answer :
    ∃ depth, request.executeWithin depth (executable nameless) service () =
      some (.ok namelessRecord.toResponse, ()) :=
  (Request.executeWithin_iff _ _ _).mpr ⟨_, _, _, prepare_eq nameless, nameless_derivation, rfl⟩

example : namelessRecord.toResponse =
    { errors :=
        [{ message := "Cannot return null for non-nullable field User.name."
           locations := [⟨1, 10⟩]
           path := [.key "user", .key "name"] }]
      data := .object [("user", .null)] } := by
  rfl

end Sample

end GraphQL
