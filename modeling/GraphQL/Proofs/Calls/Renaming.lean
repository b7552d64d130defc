import GraphQL.Proofs.Calls.Views
import GraphQL.Proofs.Execution.Renaming
import GraphQL.Proofs.Selection.Renaming
import Mathlib.Logic.Equiv.Basic

/-! # Responses under other response keys

If an injective map renames the response keys of a document, by aliases, then the response is the
same under the images of its keys, the paths of its errors included. Hooks that look neither at
aliases nor at the paths and nodes of their fields get the same calls in the same order. So all
that is looked up for a field is looked up by its name. -/

namespace GraphQL

variable {State Object Item : Type}

/-! ## What hooks are told apart from aliases -/

/-- What a hook is told about its field, without aliases and without the path and the nodes of the
field. -/
structure UnaliasedView (Object Item : Type) where
  schema : Schema
  operation : Operation
  variableValues : Members
  fragment? : String → Option Fragment
  root : Resolved Object Item
  parent : ObjectType
  definition : FieldDefinition
  name : String

def ResolveInfo.unaliased (info : ResolveInfo Object Item) : UnaliasedView Object Item where
  schema := info.request.schema
  operation := info.request.operation.realias FieldHead.noAlias
  variableValues := info.request.variableValues
  fragment? name := (info.request.fragments.find? name).map (Fragment.realias FieldHead.noAlias)
  root := info.request.root
  parent := info.parent
  definition := info.definition
  name := info.fieldName

theorem showsField_unaliased :
    ShowsField (ResolveInfo.unaliased : ResolveInfo Object Item → UnaliasedView Object Item) where
  parent := congrArg UnaliasedView.parent
  definition := congrArg UnaliasedView.definition
  fieldName := congrArg UnaliasedView.name

/-! ## Fields under other keys -/

/-- The same field of the same object, under the image of its key. -/
structure RenamedField (r : String → String) (info info' : ResolveInfo Object Item) : Prop where
  view : info.unaliased = info'.unaliased
  group : info'.group = info.group.rename r

namespace RenamedField

variable {r : String → String} {info info' : ResolveInfo Object Item}

theorem arguments (h : RenamedField r info info') :
    info.group.first.arguments = info'.group.first.arguments := by
  rw [h.group]
  rfl

theorem locations (h : RenamedField r info info') : info.locations = info'.locations := by
  rw [ResolveInfo.locations, ResolveInfo.locations, h.group, FieldGroup.nodes_rename, List.map_map]
  rfl

end RenamedField

namespace Environment

variable {r : String → String} {env : Environment State Object Item} {operation' : Operation}
  {fragments' : Catalog Fragment}

variable (operation') in
theorem selectedFields_rename (hr : Function.Injective r)
    (hfragments : env.request.fragments.Realiased (FieldHead.imageKey r) fragments')
    (type : ObjectType) (selections : List Selection) :
    (env.rewrite operation' fragments').selectedFields type
        (Selection.realiasAll (FieldHead.imageKey r) selections) =
      (env.selectedFields type selections).map fun field => (field.1.rename r, field.2) := by
  have hcollect := Scope.collectFields_rename hr (env.scope type) hfragments selections
  change (env.rewrite operation' fragments').defined type
    (({ env.scope type with fragments := fragments' } : Scope).collectFields _) = _
  rw [hcollect, selectedFields, defined, defined, List.filterMap_map, List.map_filterMap]
  refine List.filterMap_congr fun group _ => ?_
  rw [Option.map_map]
  rfl

/-- A field of the renamed document is a field of the document under the image of its key. -/
theorem renamedField
    (hoperation : operation' = env.request.operation.realias (FieldHead.imageKey r))
    (hfragments : env.request.fragments.Realiased (FieldHead.imageKey r) fragments')
    (path path' : Path) (type : ObjectType) (definition : FieldDefinition) (group : FieldGroup) :
    RenamedField r (env.infoOf path type definition group)
      ((env.rewrite operation' fragments').infoOf path' type definition (group.rename r)) where
  view := by
    have hfragment : ∀ name, (fragments'.find? name).map (Fragment.realias FieldHead.noAlias) =
        (env.request.fragments.find? name).map (Fragment.realias FieldHead.noAlias) := by
      intro name
      rw [hfragments name, Option.map_map]
      exact congrArg (Option.map · _) (funext Fragment.realias_noAlias)
    simp only [ResolveInfo.unaliased, infoOf, rewrite, hoperation, Operation.realias_noAlias,
      hfragment]
    rfl
  group := rfl

theorem fieldsRenamed (hr : Function.Injective r)
    (hoperation : operation' = env.request.operation.realias (FieldHead.imageKey r))
    (hfragments : env.request.fragments.Realiased (FieldHead.imageKey r) fragments')
    (path : Path) (type : ObjectType) (selections : List Selection) :
    FieldsRenamed r (RenamedField r) env.recorded (env.rewrite operation' fragments').recorded path
      type (env.recorded.selectedFields type selections)
      ((env.rewrite operation' fragments').recorded.selectedFields type
        (Selection.realiasAll (FieldHead.imageKey r) selections)) := by
  have hselected := selectedFields_rename operation' hr hfragments type selections
  change List.Forall₂ _ (env.selectedFields type selections)
    ((env.rewrite operation' fragments').selectedFields type _)
  rw [hselected]
  refine List.forall₂_map_right_iff.mpr (List.forall₂_same.mpr fun field _ => ⟨rfl, rfl, ?_⟩)
  exact renamedField hoperation hfragments path (Path.rename r path) type field.2 field.1

/-- Under other keys, an operation is executed alike. -/
theorem run_rename {request : Request State Object Item} (hr : Function.Injective r)
    (goes : HooksGoBy ResolveInfo.unaliased env.executable env.service request)
    (hresolver : env.fieldResolver = request.fieldResolver?.getD env.service.defaultResolver)
    (hoperation : operation' = env.request.operation.realias (FieldHead.imageKey r))
    (hfragments : env.request.fragments.Realiased (FieldHead.imageKey r) fragments') (depth : Nat)
    (type : ObjectType) (state : State) :
    Option.Rel (SameRun r (SameCallsBy ResolveInfo.unaliased)
        (RunDerivation env.recorded type (state, []))
        (RunDerivation (env.rewrite operation' fragments').recorded type (state, [])))
      (env.recorded.run depth type (state, []))
      ((env.rewrite operation' fragments').recorded.run depth type (state, [])) := by
  have htracks : ResolversTrack (SameCallsBy ResolveInfo.unaliased) (RenamedField r) env.recorded
      (env.rewrite operation' fragments').recorded :=
    resolversTrack_rewrite showsField_unaliased goes hresolver RenamedField.view
      RenamedField.arguments operation' fragments'
  have hruns : RunsRenamed r (SameCallsBy ResolveInfo.unaliased) (RenamedField r) env.recorded
      (env.rewrite operation' fragments').recorded := by
    refine ⟨htracks, RenamedField.locations, fun {info info'} h path object => ?_⟩
    rw [h.group, FieldGroup.selections_rename]
    exact fieldsRenamed hr hoperation hfragments path object info.group.selections
  have hfields := fieldsRenamed hr hoperation hfragments [] type env.request.operation.selections
  subst hoperation
  exact hruns.run depth type rfl hfields ⟨rfl, rfl⟩

end Environment

/-! ## Responses -/

def Request.rename (r : String → String) (request : Request State Object Item) :
    Request State Object Item :=
  { request with document := request.document.rename r }

/-- The record of a run of the request in which the calls of hooks are kept. -/
inductive Request.Records (executable : ExecutableSchema State Object Item)
    (service : Service State Object Item) (request : Request State Object Item) (state : State)
    (record : Slot) (last : State × CallLog Object Item) : Prop
  | run {env type} (prepared : request.prepare executable service = .ok (env, type))
      (derivation : RunDerivation env.recorded type (state, []) record last)

/-- The second response is the first one with other keys: those of the objects that the record has
in the data, and those in the paths of errors. -/
structure Response.Renamed (r : String → String) (record : Slot) (response response' : Response) :
    Prop where
  told : response = record.toResponse
  data : response'.data = (record.rename r).2.toData
  errors : response'.errors = response.errors.map (ResponseError.rename r)

theorem Slot.renamed_toResponse (r : String → String) (record : Slot) :
    record.toResponse.Renamed r record (record.rename r).toResponse where
  told := rfl
  data := rfl
  errors := by
    simp only [Slot.toResponse, Slot.rename, Place.errors_rename, List.map_map, Function.comp_def,
      FieldError.toResponseError_rename]

/-- Responses are equivariant under renaming of response keys. If hooks look neither at aliases nor
at the paths and nodes of their fields, then a document whose response keys are renamed is answered
within the same depths, with the same response but for its keys, by the same calls in the same
order. -/
theorem Request.recordWithin_rename {executable : ExecutableSchema State Object Item}
    {service : Service State Object Item} {request : Request State Object Item}
    {r : String → String} (hr : Function.Injective r)
    (goes : HooksGoBy ResolveInfo.unaliased executable service request) (depth : Nat)
    (state : State) :
    Option.Rel
      (fun recorded recorded' =>
        Answered (fun response response' => ∃ record,
            request.Records executable service state record recorded.2 ∧
            (request.rename r).Records executable service state (record.rename r) recorded'.2 ∧
            response.Renamed r record response') recorded.1 recorded'.1 ∧
          SameCallsBy ResolveInfo.unaliased recorded.2 recorded'.2)
      (request.recordWithin depth executable service state)
      ((request.rename r).recordWithin depth executable service state) := by
  rw [recordWithin, recordWithin]
  have hrewritten := request.document.rewritten_realias (FieldHead.imageKey r)
  rcases prepare_rewritten executable service hrewritten with
    ⟨error, hprepare, hprepare'⟩ | ⟨env, type, operation', hprepare, hprepare', hoperation⟩
  · rw [rename, Document.rename, hprepare, hprepare']
    exact .some ⟨.refused error, rfl, rfl⟩
  · have hfragments := request.document.realiased_fragments (FieldHead.imageKey r)
    have hrealiased : operation' = env.request.operation.realias (FieldHead.imageKey r) := by
      obtain ⟨rfl⟩ := hoperation
      rfl
    rw [rename, Document.rename, hprepare, hprepare']
    obtain ⟨operation, coerced, -, -, -, rfl⟩ := prepare_eq_ok_iff.mp hprepare
    have hruns := Environment.run_rename hr goes rfl hrealiased hfragments depth type state
    simp only
    rcases optionRel_cases hruns with ⟨hrun, hrun'⟩ | ⟨step, step', hrun, hrun', hsame⟩
    · rw [hrun, hrun']
      exact .none
    · obtain ⟨record, hrecord, hrecord', hcalls, htold, htold'⟩ := hsame
      have hrenamed : step.toResponse.Renamed r record step'.toResponse := by
        rw [htold, htold']
        exact record.renamed_toResponse r
      rw [hrun, hrun']
      exact .some ⟨.response ⟨record, .run hprepare hrecord, .run hprepare' hrecord', hrenamed⟩,
        hcalls⟩

/-! ## Keys that change places -/

namespace Sample

def swapKeys : String → String := Equiv.swap "user" "name"

example : (namelessRecord.rename swapKeys).toResponse =
    { errors :=
        [{ message := "Cannot return null for non-nullable field User.name."
           locations := [⟨1, 10⟩]
           path := [.key "name", .key "user"] }]
      data := .object [("name", .null)] } := by
  rfl

/-- A request that reads a user without a name from the root. -/
def anonymous : Request Unit Empty Empty :=
  { request with root := .json (.object [("user", .object [])]) }

def anonymousEnvironment : Environment Unit Empty Empty where
  executable := { schema }
  service := service
  fieldResolver := service.defaultResolver
  request :=
    { schema
      operation
      variableValues := []
      fragments := .empty
      root := .json (.object [("user", .object [])]) }

theorem anonymous_derivation : RunDerivation anonymousEnvironment query () namelessRecord () := by
  refine .root ?_
  change ChildrenDerivation _ _ (Environment.fieldsOf _ _ _ _
    (anonymousEnvironment.selectedFields query selections)) _ _ _
  rw [selectedFields_user rfl]
  refine .cons rfl (.object rfl ?_) rfl (.nil _ _)
  change ChildrenDerivation _ _ (Environment.fieldsOf _ _ _ _
    (anonymousEnvironment.selectedFields user [.field nameHead []])) _ _ _
  rw [selectedFields_name rfl]
  exact .stop rfl (.failed rfl) rfl

theorem goesByUnaliased_anonymous :
    HooksGoBy ResolveInfo.unaliased { schema } service anonymous where
  resolvers _ _ _ hrun := by cases hrun
  typeResolvers _ _ hrun := by cases hrun
  typePredicates _ _ hrun := by cases hrun
  objects object := object.elim
  fieldResolver _ hrun := by cases hrun

/-- In `{ name: user { user: name } }` the fields still find their own properties. -/
theorem anonymous_rename :
    Function.Injective swapKeys ∧ ∃ depth calls recorded',
      anonymous.recordWithin depth { schema } service () =
        some (.ok namelessRecord.toResponse, (), calls) ∧
      (anonymous.rename swapKeys).recordWithin depth { schema } service () = some recorded' ∧
      Answered (fun response response' => ∃ record,
          anonymous.Records { schema } service () record ((), calls) ∧
          (anonymous.rename swapKeys).Records { schema } service () (record.rename swapKeys)
            recorded'.2 ∧
          response.Renamed swapKeys record response') (.ok namelessRecord.toResponse)
        recorded'.1 ∧
      SameCallsBy ResolveInfo.unaliased ((), calls) recorded'.2 := by
  have hswap : Function.Injective swapKeys := (Equiv.swap "user" "name").injective
  have hprepare : anonymous.prepare { schema } service = .ok (anonymousEnvironment, query) := rfl
  obtain ⟨depth, hdepth⟩ := Request.executeWithin_of_derivation hprepare anonymous_derivation
  obtain ⟨calls, hrecord⟩ := Request.exists_calls (hdepth depth (Nat.le_refl depth))
  have hrename := Request.recordWithin_rename hswap goesByUnaliased_anonymous depth ()
  rw [hrecord] at hrename
  obtain ⟨recorded', hrun, halike⟩ := exists_of_optionRel_some hrename
  exact ⟨hswap, depth, calls, recorded', hrecord, hrun, halike⟩

end Sample

end GraphQL
