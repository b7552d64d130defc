import GraphQL.Proofs.Calls.Recording
import GraphQL.Proofs.Document.Selecting
import GraphQL.Proofs.Execution.Depth
import GraphQL.Proofs.Schema.PossibleTypes

/-! # Refused requests

A request is refused for the first thing that is wrong with it: the document, the values for the
variables of its operation, or a schema without a root type for that operation. Then no hook has
been called. Every other request is executed, and whatever hooks return it is not refused. -/

namespace GraphQL

variable {State Object Item : Type}

namespace Schema

variable {schema : Schema} {kind : OperationKind}

theorem rootType?_eq_some_iff {type : ObjectType} :
    schema.rootType? kind = some type ↔
      ∃ name, schema.rootName? kind = some name ∧ schema.type? name = some (.object type) := by
  rw [rootType?, Option.bind_eq_some_iff]
  exact exists_congr fun name => and_congr_right fun _ => schema.object?_eq_some_iff

theorem rootType?_eq_none_iff :
    schema.rootType? kind = none ↔
      ∀ name type, schema.rootName? kind = some name → schema.type? name ≠ some (.object type) := by
  simp only [Option.eq_none_iff_forall_ne_some, ne_eq, rootType?_eq_some_iff, not_exists, not_and]
  exact forall_comm

end Schema

namespace Request

/-- Why a request to a service of this schema is refused. -/
inductive Refused (schema : Schema) (request : Request State Object Item) : RequestError → Prop
  | unselected {error} (refuses : request.document.Refuses request.operationName? error) :
      Refused schema request error
  | uncoerced {operation error location}
      (selects : request.document.Selects request.operationName? operation)
      (failed : schema.coerceVariables operation.variableDefinitions request.variableValues =
        .error (error, location)) :
      Refused schema request (.invalidVariable error location)
  | rootless {operation values}
      (selects : request.document.Selects request.operationName? operation)
      (coerced : schema.coerceVariables operation.variableDefinitions request.variableValues =
        .ok values)
      (missing : ∀ name type, schema.rootName? operation.kind = some name →
        schema.type? name ≠ some (.object type)) :
      Refused schema request (.noRootType operation.kind operation.location)

/-- The operation that a request executes, the values of its variables, and the type at its root. -/
structure Accepted (schema : Schema) (request : Request State Object Item) (operation : Operation)
    (values : Members) (type : ObjectType) : Prop where
  selects : request.document.Selects request.operationName? operation
  coerced : schema.coerceVariables operation.variableDefinitions request.variableValues = .ok values
  root : ∃ name, schema.rootName? operation.kind = some name ∧
    schema.type? name = some (.object type)

/-- What an operation of a request is executed with. -/
def environment (executable : ExecutableSchema State Object Item)
    (service : Service State Object Item) (request : Request State Object Item)
    (operation : Operation) (values : Members) : Environment State Object Item where
  executable := executable
  service := service
  fieldResolver := request.fieldResolver?.getD service.defaultResolver
  request :=
    { schema := executable.schema
      operation
      variableValues := values
      fragments := request.document.fragments
      root := request.root }

variable {executable : ExecutableSchema State Object Item} {service : Service State Object Item}
  {request : Request State Object Item} {error : RequestError} {operation : Operation}
  {values : Members} {type : ObjectType}

theorem refused_or_accepted (schema : Schema) (request : Request State Object Item) :
    (∃ error, request.Refused schema error) ∨
      ∃ operation values type, request.Accepted schema operation values type := by
  rcases request.document.selects_or_refuses request.operationName? with
    ⟨operation, hselects⟩ | ⟨error, hrefuses⟩
  · cases hcoerce : schema.coerceVariables operation.variableDefinitions request.variableValues with
    | error failure => exact .inl ⟨_, .uncoerced hselects hcoerce⟩
    | ok values =>
        cases hroot : schema.rootType? operation.kind with
        | none =>
            exact .inl ⟨_, .rootless hselects hcoerce (Schema.rootType?_eq_none_iff.mp hroot)⟩
        | some type =>
            have hfound := Schema.rootType?_eq_some_iff.mp hroot
            exact .inr ⟨operation, values, type, hselects, hcoerce, hfound⟩
  · exact .inl ⟨error, .unselected hrefuses⟩

theorem Refused.prepare_eq (h : request.Refused executable.schema error) :
    request.prepare executable service = .error error := by
  cases h with
  | unselected refuses =>
      rw [prepare, Document.selectOperation_eq_error_iff.mpr refuses]
      rfl
  | uncoerced selects failed =>
      rw [prepare, Document.selectOperation_eq_ok_iff.mpr selects]
      simp only [bind, Except.bind, failed]
      rfl
  | rootless selects coerced missing =>
      rw [prepare, Document.selectOperation_eq_ok_iff.mpr selects]
      simp only [bind, Except.bind, coerced, Schema.rootType?_eq_none_iff.mpr missing]
      rfl

variable (service) in
theorem Accepted.prepare_eq (h : request.Accepted executable.schema operation values type) :
    request.prepare executable service =
      .ok (request.environment executable service operation values, type) := by
  have hselect := Document.selectOperation_eq_ok_iff.mpr h.selects
  have hroot := Schema.rootType?_eq_some_iff.mpr h.root
  exact prepare_eq_ok_iff.mpr ⟨operation, values, hselect, h.coerced, hroot, rfl⟩

theorem prepare_eq_error_iff :
    request.prepare executable service = .error error ↔
      request.Refused executable.schema error := by
  refine ⟨fun h => ?_, Refused.prepare_eq⟩
  rcases request.refused_or_accepted executable.schema with
    ⟨other, hrefused⟩ | ⟨operation, values, type, haccepted⟩
  · obtain rfl := Except.error.inj (hrefused.prepare_eq.symm.trans h)
    exact hrefused
  · cases (haccepted.prepare_eq service).symm.trans h

variable (service) in
theorem execute_of_accepted (h : request.Accepted executable.schema operation values type)
    (state : State) :
    request.execute executable service state =
      ((request.environment executable service operation values).run request.depthBound type
        state).map fun step => (.ok step.toResponse, step.state) := by
  rw [execute, executeWithin, h.prepare_eq service]

/-- The recorded answer is an error just when the request is refused; then there are no calls. -/
theorem record_eq_error_iff {state next : State} {calls : CallLog Object Item} :
    request.recordWithin request.depthBound executable service state =
        some (.error error, next, calls) ↔
      request.Refused executable.schema error ∧ next = state ∧ calls = [] := by
  rw [recordWithin]
  cases hprepare : request.prepare executable service with
  | error other =>
      constructor
      · intro h
        cases h
        exact ⟨prepare_eq_error_iff.mp hprepare, rfl, rfl⟩
      · rintro ⟨hrefused, rfl, rfl⟩
        cases hprepare.symm.trans hrefused.prepare_eq
        rfl
  | ok prepared =>
      constructor
      · intro h
        obtain ⟨step, -, hanswer⟩ := Option.map_eq_some_iff.mp h
        cases hanswer
      · rintro ⟨hrefused, -, -⟩
        cases hprepare.symm.trans hrefused.prepare_eq

theorem execute_eq_error_iff {state next : State} :
    request.execute executable service state = some (.error error, next) ↔
      request.Refused executable.schema error ∧ next = state := by
  constructor
  · intro h
    have ⟨calls, hrecord⟩ := exists_calls h
    have ⟨hrefused, hnext, _⟩ := record_eq_error_iff.mp hrecord
    exact ⟨hrefused, hnext⟩
  · rintro ⟨hrefused, rfl⟩
    rw [execute, ← recordWithin_forget, record_eq_error_iff.mpr ⟨hrefused, rfl, rfl⟩]
    rfl

/-- A request is answered with an error just when it is refused, for the first thing that is wrong
with it, and then no hook has been called and the state is as it was. Every other request executes
the operation that it selects. Its answer is a response, and there is one whatever hooks return
unless fragments reach themselves. -/
theorem execute_outcome (executable : ExecutableSchema State Object Item)
    (service : Service State Object Item) (request : Request State Object Item) :
    (∀ error state next calls,
      request.recordWithin request.depthBound executable service state =
          some (.error error, next, calls) ↔
        request.Refused executable.schema error ∧ next = state ∧ calls = []) ∧
    (∀ error state next,
      request.execute executable service state = some (.error error, next) ↔
        request.Refused executable.schema error ∧ next = state) ∧
    ((∀ error, ¬request.Refused executable.schema error) →
      ∃ operation values type, request.Accepted executable.schema operation values type ∧
        (∀ name fragment, request.document.fragments.find? name = some fragment ↔
          LastWith (fun other => other.name = name)
            (request.document.filterMap Document.fragment?) fragment) ∧
        (∀ state, request.execute executable service state =
          ((request.environment executable service operation values).run request.depthBound type
            state).map fun step => (.ok step.toResponse, step.state)) ∧
        (request.document.fragments.Acyclic → ∀ state, ∃ response next,
          request.execute executable service state = some (.ok response, next))) := by
  refine ⟨fun error state next calls => record_eq_error_iff,
    fun error state next => execute_eq_error_iff, fun hrefused => ?_⟩
  rcases request.refused_or_accepted executable.schema with
    ⟨error, herror⟩ | ⟨operation, values, type, haccepted⟩
  · exact absurd herror (hrefused error)
  · refine ⟨operation, values, type, haccepted, fun name fragment => ?_,
      execute_of_accepted service haccepted, fun acyclic state => ?_⟩
    · exact Document.find?_fragments_iff
    · have hends := ends_of_acyclic (haccepted.prepare_eq service) acyclic state
      have ⟨step, hstep⟩ := Option.isSome_iff_exists.mp hends
      refine ⟨step.toResponse, step.state, ?_⟩
      rw [execute_of_accepted service haccepted, hstep, Option.map_some]

end Request

end GraphQL
