import GraphQL.Proofs.Calls.Views
import GraphQL.Proofs.Selection.Inlining

/-! # Responses to inlined documents

Fragments are a way of writing. With all spreads replaced by inline fragments, a document gets the
same response from the same calls, provided that no hook looks at the selections of the document
itself. Fields may be met more often; an error then has more locations, but no other ones. -/

namespace GraphQL

variable {State Object Item : Type}

/-! ## What hooks are told apart from selections -/

/-- What a hook is told about its field, without the selections of the operation, the fragments, and
the fields that are merged with the first one. -/
structure FieldView (Object Item : Type) where
  schema : Schema
  operation : Operation
  variableValues : Members
  root : Resolved Object Item
  parent : ObjectType
  definition : FieldDefinition
  key : String
  first : FieldHead
  path : Path

def ResolveInfo.view (info : ResolveInfo Object Item) : FieldView Object Item where
  schema := info.request.schema
  operation := { info.request.operation with selections := [] }
  variableValues := info.request.variableValues
  root := info.request.root
  parent := info.parent
  definition := info.definition
  key := info.group.key
  first := info.group.first.toFieldHead
  path := info.path

theorem showsField_view :
    ShowsField (ResolveInfo.view : ResolveInfo Object Item → FieldView Object Item) where
  parent := congrArg FieldView.parent
  definition := congrArg FieldView.definition
  fieldName := congrArg fun view : FieldView Object Item => view.first.name

/-! ## Fields that are met more often -/

/-- Two fields have the same view, and the second one has the nodes of the first one, inlined and
with repetitions. -/
def SameField (includes : List Directive → Bool) (fragments : Catalog Fragment)
    (info info' : ResolveInfo Object Item) : Prop :=
  info.view = info'.view ∧
    Repeats (FieldNode.Inlined includes fragments) [] info.group.nodes info'.group.nodes

namespace SameField

variable {includes : List Directive → Bool} {fragments : Catalog Fragment}
  {info info' : ResolveInfo Object Item}

theorem first (h : SameField includes fragments info info') :
    info.group.first.toFieldHead = info'.group.first.toFieldHead :=
  congrArg FieldView.first h.1

theorem locations (h : SameField includes fragments info info') :
    Repeats Eq [] info.locations info'.locations :=
  h.2.map fun _ _ hinlined => congrArg FieldHead.location hinlined.head

end SameField

/-! ## Executing inlined selections -/

namespace Environment

/-- The environment for an operation without spreads, in a document with other fragments. -/
def inline (env : Environment State Object Item) (fragments' : Catalog Fragment) :
    Environment State Object Item :=
  env.rewrite (env.request.operation.inline env.request.fragments) fragments'

/-- No spread of the operation or of a fragment is excluded by its directives. -/
def IncludesSpreads (env : Environment State Object Item) : Prop :=
  Selection.SpreadsIncluded (env.schema.includes env.request.variableValues)
      env.request.operation.selections ∧
    ∀ fragment ∈ env.request.fragments.entries,
      Selection.SpreadsIncluded (env.schema.includes env.request.variableValues)
        fragment.selections

variable {env : Environment State Object Item} {fragments' : Catalog Fragment}

variable (env) in
/-- What hooks are told about a field of the operation, and about the field that it becomes. -/
abbrev Matches : ResolveInfo Object Item → ResolveInfo Object Item → Prop :=
  SameField (env.schema.includes env.request.variableValues) env.request.fragments

theorem fieldsAlike_of_repeating {groups groups' : List FieldGroup}
    (h : List.Forall₂ (FieldGroup.Repeating (FieldNode.Inlined
      (env.schema.includes env.request.variableValues) env.request.fragments)) groups groups')
    (path : Path) (type : ObjectType) :
    FieldsAlike env.Matches env.recorded (env.inline fragments').recorded path type
      (env.recorded.defined type groups)
      ((env.inline fragments').recorded.defined type groups') := by
  refine List.rel_filterMap ?_ h
  intro group group' hgroup
  have hfirst : group.first.toFieldHead = group'.first.toFieldHead := hgroup.first.head
  obtain ⟨hkey, hnodes⟩ := hgroup
  have hname : group.first.name = group'.first.name := congrArg FieldHead.name hfirst
  simp only [hname]
  refine optionRel_map fun definition _ => ⟨hkey, rfl, ?_, hnodes⟩
  simp only [ResolveInfo.view, infoOf, hkey, hfirst]
  rfl

theorem runsTrack_inline {request : Request State Object Item}
    (goes : HooksGoBy ResolveInfo.view env.executable env.service request)
    (hresolver : env.fieldResolver = request.fieldResolver?.getD env.service.defaultResolver)
    (fragments' : Catalog Fragment) :
    RunsTrack (SameCallsBy ResolveInfo.view) (Repeats Eq []) env.Matches env.recorded
      (env.inline fragments').recorded := by
  have htracks : ResolversTrack (SameCallsBy ResolveInfo.view) env.Matches env.recorded
      (env.inline fragments').recorded :=
    resolversTrack_rewrite showsField_view goes hresolver (fun h => h.1)
      (fun h => congrArg FieldHead.arguments (SameField.first h)) _ fragments'
  refine ⟨htracks, SameField.locations, fun h path type => ?_⟩
  exact fieldsAlike_of_repeating ((env.scope type).repeating_of_repeats h.2 fragments') path type

/-- Without cycles, the operation is executed alike when it is inlined. -/
theorem run_inline {request : Request State Object Item}
    (goes : HooksGoBy ResolveInfo.view env.executable env.service request)
    (hresolver : env.fieldResolver = request.fieldResolver?.getD env.service.defaultResolver)
    (acyclic : env.request.fragments.Acyclic) (included : env.IncludesSpreads)
    (fragments' : Catalog Fragment) (depth : Nat) (type : ObjectType) :
    Exec.Simulates (SameCallsBy ResolveInfo.view) (Repeats Eq []) (env.recorded.run depth type)
      ((env.inline fragments').recorded.run depth type) := by
  have hinlines := (env.scope type).inlines_inline acyclic included.2 included.1
  have hgroups := (env.scope type).repeating_of_inlines hinlines fragments'
  exact (runsTrack_inline goes hresolver fragments').run depth type rfl
    (fieldsAlike_of_repeating hgroups [] type)

end Environment

namespace Request

/-- The same request with the document inlined. -/
def inlined (request : Request State Object Item) : Request State Object Item :=
  { request with document := request.document.inlined }

theorem prepare_inlined (executable : ExecutableSchema State Object Item)
    (service : Service State Object Item) (request : Request State Object Item) :
    request.inlined.prepare executable service =
      (request.prepare executable service).map fun (env, type) =>
        (env.inline request.document.inlined.fragments, type) := by
  have hselect := request.document.selectOperation_inlined request.operationName?
  rw [prepare, prepare]
  simp only [inlined, hselect]
  cases request.document.selectOperation request.operationName? with
  | error error => rfl
  | ok operation =>
      simp only [Except.map, bind, Except.bind, Operation.inline]
      cases executable.schema.coerceVariables operation.variableDefinitions
        request.variableValues with
      | error error => rfl
      | ok variableValues =>
          simp only [Except.mapError]
          cases executable.schema.rootType? operation.kind with
          | none => rfl
          | some type => rfl

end Request

/-- The same error, with repetitions among its locations. -/
structure ResponseError.Alike (error error' : ResponseError) : Prop where
  message : error.message = error'.message
  locations : Repeats Eq [] error.locations error'.locations
  path : error.path = error'.path
  extensions : error.extensions = error'.extensions

/-- The same data and the same errors in the same order, with repetitions among locations. -/
structure Response.Alike (response response' : Response) : Prop where
  data : response.data = response'.data
  errors : List.Forall₂ ResponseError.Alike response.errors response'.errors

theorem Step.Alike.toResponse {states : State → State → Prop} {step step' : Step State Members}
    (h : step.Alike states (Repeats Eq []) step') : step.toResponse.Alike step'.toResponse := by
  constructor
  · simp only [Step.toResponse, h.outcome]
  · refine List.forall₂_map_left_iff.mpr (List.forall₂_map_right_iff.mpr (h.errors.imp ?_))
    intro error error' halike
    exact ⟨congrArg Failure.message halike.failure, halike.locations, halike.path,
      congrArg Failure.extensions halike.failure⟩

/-- Inlining preserves responses. If no fragment reaches itself, no spread is excluded and no hook
looks at the selections of the document, then the document without spreads is answered within the
same depths, with the same data and the same errors up to repeated locations, by the same calls. -/
theorem Request.recordWithin_inlined {executable : ExecutableSchema State Object Item}
    {service : Service State Object Item} {request : Request State Object Item}
    (acyclic : request.document.fragments.Acyclic)
    (included : ∀ env type, request.prepare executable service = .ok (env, type) →
      env.IncludesSpreads)
    (goes : HooksGoBy ResolveInfo.view executable service request) (depth : Nat) (state : State) :
    Option.Rel
      (fun recorded recorded' =>
        Answered Response.Alike recorded.1 recorded'.1 ∧
          SameCallsBy ResolveInfo.view recorded.2 recorded'.2)
      (request.recordWithin depth executable service state)
      (request.inlined.recordWithin depth executable service state) := by
  rw [recordWithin, recordWithin, prepare_inlined]
  cases hprepare : request.prepare executable service with
  | error error => exact .some ⟨.refused error, rfl, rfl⟩
  | ok prepared =>
      obtain ⟨env, type⟩ := prepared
      have hincluded := included env type hprepare
      obtain ⟨operation, coerced, -, -, -, rfl⟩ := prepare_eq_ok_iff.mp hprepare
      -- The fragments of the new document do not matter: its operation has no spreads.
      have hruns := Environment.run_inline goes rfl acyclic hincluded
        request.document.inlined.fragments depth type (state, []) (state, []) ⟨rfl, rfl⟩
      simp only [Except.map]
      rcases optionRel_cases hruns with ⟨hrun, hrun'⟩ | ⟨step, step', hrun, hrun', halike⟩
      · rw [hrun, hrun']
        exact .none
      · rw [hrun, hrun']
        exact .some ⟨.response halike.toResponse, halike.state⟩

/-! ## A fragment that is spread twice -/

namespace Sample

def naming : Fragment :=
  { name := "Naming", condition := "User", selections := [.field nameHead []] }

def details : Fragment :=
  { name := "Details"
    condition := "Query"
    selections := [.field userHead [.spread "Naming" []]] }

/-- The request for `{ ...Details user { name } ...Details }`, where the fragment has
`user { ...Naming }` and `Naming` has `name`. -/
def twice : Request Unit Empty Empty where
  document :=
    [.operation
      { operation with
        selections := .spread "Details" [] :: selections ++ [.spread "Details" []] },
      .fragment details, .fragment naming]

theorem fragments_twice : twice.document.fragments.entries = [details, naming] := by rfl

theorem spreads_twice {fragment other : String}
    (h : twice.document.fragments.Spreads fragment other) :
    fragment = "Details" ∧ other = "Naming" := by
  obtain ⟨definition, directives, found, hspread⟩ := h
  have hname : definition.name = fragment := Catalog.name_of_find? found
  have hmem := Catalog.mem_of_find? found
  rw [fragments_twice] at hmem
  simp only [List.mem_cons, List.not_mem_nil, or_false] at hmem
  rcases hmem with rfl | rfl
  · simp [details, Selection.spreadsAll, Selection.spreads] at hspread hname
    exact ⟨hname.symm, hspread.1⟩
  · simp [naming, Selection.spreadsAll, Selection.spreads] at hspread

theorem acyclic_twice : twice.document.fragments.Acyclic := by
  intro fragment h
  obtain ⟨other, hfirst, -⟩ := Relation.TransGen.head'_iff.mp h
  obtain ⟨last, -, hlast⟩ := Relation.TransGen.tail'_iff.mp h
  obtain ⟨rfl, -⟩ := spreads_twice hfirst
  obtain ⟨-, hne⟩ := spreads_twice hlast
  simp at hne

theorem included_twice : ∀ env type,
    twice.prepare (executable nameless) service = .ok (env, type) → env.IncludesSpreads := by
  intro env type hprepare
  obtain ⟨rfl, rfl⟩ := Prod.mk.inj (Except.ok.inj hprepare)
  have hplain {selections : List Selection}
      (h : ∀ spread ∈ Selection.spreadsAll selections, spread.2 = []) :
      Selection.SpreadsIncluded (schema.includes []) selections := by
    intro spread hmem
    rw [h spread hmem]
    rfl
  refine ⟨hplain ?_, fun fragment hmem => hplain ?_⟩
  · simp [selections, Selection.spreadsAll, Selection.spreads]
  · have hfragments : fragment ∈ [details, naming] := hmem
    simp only [List.mem_cons, List.not_mem_nil, or_false] at hfragments
    rcases hfragments with rfl | rfl
    · simp [details, Selection.spreadsAll, Selection.spreads]
    · simp [naming, Selection.spreadsAll, Selection.spreads]

theorem goesByView_nameless : HooksGoBy ResolveInfo.view (executable nameless) service twice where
  resolvers type field run hrun source arguments info info' hview := by
    have hpath : info.path = info'.path := congrArg FieldView.path hview
    obtain rfl := eq_of_resolver? hrun
    simp only [hpath]
  typeResolvers _ _ hrun := by cases hrun
  typePredicates _ _ hrun := by cases hrun
  objects object := object.elim
  fieldResolver _ hrun := by cases hrun

def twiceEnvironment : Environment Unit Empty Empty :=
  { environment nameless with
    request :=
      { schema
        operation :=
          { operation with
            selections := .spread "Details" [] :: selections ++ [.spread "Details" []] }
        variableValues := []
        fragments := twice.document.fragments
        root := .json .null } }

theorem prepare_twice :
    twice.prepare (executable nameless) service = .ok (twiceEnvironment, query) := rfl

/-- The second spread of the fragment is not followed. When it is inlined, a third field is met. -/
theorem selectedFields_users :
    twiceEnvironment.selectedFields query twiceEnvironment.request.operation.selections =
      [(⟨"user", ⟨userHead, [.spread "Naming" []]⟩, [⟨userHead, [.field nameHead []]⟩]⟩,
        { name := "user", type := .named "User" false })] := by
  have hwalk : (twiceEnvironment.scope query).Walk []
      twiceEnvironment.request.operation.selections
      [⟨userHead, [.spread "Naming" []]⟩, ⟨userHead, [.field nameHead []]⟩] ["Details"] :=
    .spread List.not_mem_nil rfl (.field rfl (.nil _))
      (.field rfl (.again List.mem_cons_self (.nil _)))
  rw [Environment.selectedFields, hwalk.collectFields_eq]
  rfl

theorem selectedFields_names :
    twiceEnvironment.selectedFields user [.spread "Naming" [], .field nameHead []] =
      [(⟨"name", ⟨nameHead, []⟩, [⟨nameHead, []⟩]⟩,
        { name := "name", type := .named "String" true })] := by
  have hwalk : (twiceEnvironment.scope user).Walk []
      [.spread "Naming" [], .field nameHead []] [⟨nameHead, []⟩, ⟨nameHead, []⟩] ["Naming"] :=
    .spread List.not_mem_nil rfl (.field rfl (.nil _)) (.field rfl (.nil _))
  rw [Environment.selectedFields, hwalk.collectFields_eq]
  rfl

def twiceRecord : Slot :=
  (.named "Query" false, .object [(.key "user", .named "User" false, .object
    [(.key "name", .named "String" true,
      .failed (.nullNotAllowed "User" "name") [⟨1, 10⟩, ⟨1, 10⟩])])])

theorem twice_derivation : RunDerivation twiceEnvironment query () twiceRecord () := by
  refine .root ?_
  rw [selectedFields_users]
  refine .cons rfl (.object rfl ?_) rfl (.nil _ _)
  change ChildrenDerivation _ _ (Environment.fieldsOf _ _ _ _
    (twiceEnvironment.selectedFields user [.spread "Naming" [], .field nameHead []])) _ _ _
  rw [selectedFields_names]
  exact .stop rfl (.failed rfl) rfl

theorem twice_answer :
    ∃ depth, twice.executeWithin depth (executable nameless) service () =
      some (.ok twiceRecord.toResponse, ()) :=
  (Request.executeWithin_iff _ _ _).mpr ⟨_, _, _, prepare_twice, twice_derivation, rfl⟩

/-- Both requests are answered, and alike. -/
theorem twice_inlined :
    ∃ depth calls recorded',
      twice.recordWithin depth (executable nameless) service () =
        some (.ok twiceRecord.toResponse, (), calls) ∧
      twice.inlined.recordWithin depth (executable nameless) service () = some recorded' ∧
      Answered Response.Alike (.ok twiceRecord.toResponse) recorded'.1 ∧
      SameCallsBy ResolveInfo.view ((), calls) recorded'.2 := by
  obtain ⟨depth, hanswer⟩ := twice_answer
  obtain ⟨calls, hrecord⟩ := Request.exists_calls hanswer
  have hinlined := Request.recordWithin_inlined acyclic_twice included_twice goesByView_nameless
    depth ()
  rw [hrecord] at hinlined
  obtain ⟨recorded', hrun, halike⟩ := exists_of_optionRel_some hinlined
  exact ⟨depth, calls, recorded', hrecord, hrun, halike⟩

end Sample

end GraphQL
