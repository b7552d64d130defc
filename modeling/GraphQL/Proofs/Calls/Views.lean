import GraphQL.Proofs.Calls.Recording
import GraphQL.Proofs.Document.Rewriting

/-! # What hooks go by

A hook may look at some of what it is told about its field and leave the rest alone. Where hooks go
by views of fields, a rewritten document makes them do the same, as long as the fields that it asks
for have the same views. -/

namespace GraphQL

variable {State Object Item View α : Type}

/-! ## Views of fields -/

/-- The hook cannot tell apart two fields with the same view. -/
def GoesBy (view : ResolveInfo Object Item → View) (hook : ResolveInfo Object Item → α) : Prop :=
  ∀ info info', view info = view info' → hook info = hook info'

/-- All hooks go by the view, and so does the resolver for fields without one. -/
structure HooksGoBy (view : ResolveInfo Object Item → View)
    (executable : ExecutableSchema State Object Item) (service : Service State Object Item)
    (request : Request State Object Item) : Prop where
  resolvers : ∀ type field run, executable.resolver? type field = some run →
    ∀ source arguments, GoesBy view (run source arguments)
  typeResolvers : ∀ type run, executable.typeResolver? type = some run →
    ∀ value, GoesBy view (run value)
  typePredicates : ∀ type run, executable.typePredicate? type = some run →
    ∀ value, GoesBy view (run value)
  objects : ∀ object arguments, GoesBy view (service.resolveField object arguments)
  fieldResolver : ∀ run, request.fieldResolver? = some run →
    ∀ source arguments, GoesBy view (run source arguments)

/-- The view shows which field of which type it is. -/
structure ShowsField (view : ResolveInfo Object Item → View) : Prop where
  parent : ∀ {info info'}, view info = view info' → info.parent = info'.parent
  definition : ∀ {info info'}, view info = view info' → info.definition = info'.definition
  fieldName : ∀ {info info'}, view info = view info' → info.fieldName = info'.fieldName

/-- The same call with something else told about the field. -/
def Call.map {Info Info' : Type} (f : Info → Info') :
    Call Object Item Info → Call Object Item Info'
  | .field call => .field ⟨call.source, call.arguments, f call.info⟩
  | .serializer type value => .serializer type value
  | .typeResolver type value info => .typeResolver type value (f info)
  | .typePredicate type value info => .typePredicate type value (f info)
  | .item pulled => .item pulled

/-- The same state has been reached by the same calls in the same order, as far as the view of
fields shows. -/
def SameCallsBy (view : ResolveInfo Object Item → View)
    (recorded recorded' : State × CallLog Object Item) : Prop :=
  recorded.1 = recorded'.1 ∧ recorded.2.map (Call.map view) = recorded'.2.map (Call.map view)

/-- Two requests are refused for the same reason, or have related responses. -/
inductive Answered (related : Response → Response → Prop) :
    Except RequestError Response → Except RequestError Response → Prop
  | refused (error : RequestError) : Answered related (.error error) (.error error)
  | response {response response'} (alike : related response response') :
      Answered related (.ok response) (.ok response')

/-! ## Hooks that go by a view -/

section

variable {view : ResolveInfo Object Item → View}

theorem tracks_sameCallsBy {call call' : Call Object Item (ResolveInfo Object Item)}
    (hcall : call.map view = call'.map view) {hook hook' : StateM State α} (hhook : hook = hook') :
    Tracks (SameCallsBy view) Eq (noting call hook) (noting call' hook') := by
  rintro ⟨state, calls⟩ ⟨_, calls'⟩ ⟨rfl, hcalls⟩
  subst hhook
  refine ⟨rfl, rfl, ?_⟩
  change (calls ++ [call]).map _ = (calls' ++ [call']).map _
  rw [List.map_append, List.map_append, hcalls, List.map_singleton, List.map_singleton, hcall]

theorem Service.goesBy_defaultResolver (shows : ShowsField view)
    {service : Service State Object Item}
    (h : ∀ object arguments, GoesBy view (service.resolveField object arguments))
    (source : Resolved Object Item) (arguments : Members) :
    GoesBy view (service.defaultResolver source arguments) := by
  intro info info' hview
  cases source with
  | object object => exact h object arguments info info' hview
  | list items => rfl
  | json value =>
      cases value with
      | object members => simp only [Service.defaultResolver, shows.fieldName hview]
      | null | bool | number | string | array => rfl

theorem HooksGoBy.resolver (shows : ShowsField view)
    {executable : ExecutableSchema State Object Item} {service : Service State Object Item}
    {request : Request State Object Item} (h : HooksGoBy view executable service request)
    (source : Resolved Object Item) (arguments : Members) :
    GoesBy view (request.fieldResolver?.getD service.defaultResolver source arguments) := by
  cases hresolver : request.fieldResolver? with
  | none => exact Service.goesBy_defaultResolver shows h.objects source arguments
  | some run => exact h.fieldResolver run hresolver source arguments

namespace Environment

@[simp] theorem executable_rewrite (env : Environment State Object Item) (operation : Operation)
    (fragments : Catalog Fragment) :
    (env.rewrite operation fragments).executable = env.executable :=
  rfl

@[simp] theorem fieldResolver_rewrite (env : Environment State Object Item) (operation : Operation)
    (fragments : Catalog Fragment) :
    (env.rewrite operation fragments).fieldResolver = env.fieldResolver :=
  rfl

/-- Hooks that go by a view do the same for fields with the same view, whatever the document. -/
theorem resolversTrack_rewrite {env : Environment State Object Item}
    {request : Request State Object Item} (shows : ShowsField view)
    (goes : HooksGoBy view env.executable env.service request)
    (hresolver : env.fieldResolver = request.fieldResolver?.getD env.service.defaultResolver)
    {alike : ResolveInfo Object Item → ResolveInfo Object Item → Prop}
    (hview : ∀ {info info'}, alike info info' → view info = view info')
    (harguments : ∀ {info info'}, alike info info' →
      info.group.first.arguments = info'.group.first.arguments)
    (operation : Operation) (fragments : Catalog Fragment) :
    ResolversTrack (SameCallsBy view) alike env.recorded
      (env.rewrite operation fragments).recorded where
  schema := rfl
  parent h := shows.parent (hview h)
  fieldName h := shows.fieldName (hview h)
  serializers type := by
    simp only [executable_recorded, executable_rewrite, ExecutableSchema.serializer?_recorded]
    exact optionRel_map fun run _ value => tracks_sameCallsBy rfl rfl
  typeResolvers type := by
    simp only [executable_recorded, executable_rewrite, ExecutableSchema.typeResolver?_recorded]
    refine optionRel_map fun run hrun value info info' h => ?_
    exact tracks_sameCallsBy (by simp [Call.map, hview h])
      (goes.typeResolvers type run hrun value _ _ (hview h))
  typePredicates type := by
    simp only [executable_recorded, executable_rewrite, ExecutableSchema.typePredicate?_recorded]
    refine optionRel_map fun run hrun value info info' h => ?_
    exact tracks_sameCallsBy (by simp [Call.map, hview h])
      (goes.typePredicates type run hrun value _ _ (hview h))
  items item := tracks_sameCallsBy rfl rfl
  variableValues := rfl
  definition h := shows.definition (hview h)
  arguments := harguments
  resolvers type field := by
    simp only [executable_recorded, executable_rewrite, ExecutableSchema.resolver?_recorded]
    refine optionRel_map fun run hrun source arguments info info' h => ?_
    exact tracks_sameCallsBy (by simp [Call.map, hview h])
      (goes.resolvers type field run hrun source arguments _ _ (hview h))
  fieldResolver source arguments info info' h := by
    simp only [fieldResolver_recorded, fieldResolver_rewrite, hresolver]
    exact tracks_sameCallsBy (by simp [Call.map, hview h])
      (goes.resolver shows source arguments _ _ (hview h))

end Environment

end

/-! ## Views without selections -/

/-- What hooks are told about a request, without the selections of its document. -/
structure RequestOutline (Object Item : Type) where
  schema : Schema
  operation : Operation
  variableValues : Members
  condition? : String → Option String
  root : Resolved Object Item

def RequestContext.outline (request : RequestContext Object Item) : RequestOutline Object Item where
  schema := request.schema
  operation := { request.operation with selections := [] }
  variableValues := request.variableValues
  condition? name := (request.fragments.find? name).map Fragment.condition
  root := request.root

/-- Which field it is and where it stands in the response, but not its nodes. -/
structure FieldOutline (Object Item : Type) where
  request : RequestOutline Object Item
  parent : ObjectType
  definition : FieldDefinition
  name : String
  key : String
  path : Path

def ResolveInfo.outline (info : ResolveInfo Object Item) : FieldOutline Object Item where
  request := info.request.outline
  parent := info.parent
  definition := info.definition
  name := info.fieldName
  key := info.group.key
  path := info.path

theorem showsField_outline :
    ShowsField (ResolveInfo.outline : ResolveInfo Object Item → FieldOutline Object Item) where
  parent := congrArg FieldOutline.parent
  definition := congrArg FieldOutline.definition
  fieldName := congrArg FieldOutline.name

/-- Rewriting a document leaves the outline of a request as it is. -/
theorem RequestContext.outline_rewrite {operations : List Selection → List Selection → Prop}
    {bodies : Fragment → List Selection → List Selection → Prop}
    {env : Environment State Object Item} {operation' : Operation} {fragments' : Catalog Fragment}
    (hoperation : env.request.operation.Rewritten operations operation')
    (hfragments : ∀ name, Option.Rel (Fragment.Rewritten bodies)
      (env.request.fragments.find? name) (fragments'.find? name)) :
    (env.rewrite operation' fragments').request.outline = env.request.outline := by
  obtain ⟨-⟩ := hoperation
  have hconditions : (fun name => (fragments'.find? name).map Fragment.condition) =
      fun name => (env.request.fragments.find? name).map Fragment.condition := by
    funext name
    rcases optionRel_cases (hfragments name) with
      ⟨hfind, hfind'⟩ | ⟨fragment, fragment', hfind, hfind', hrewritten⟩
    · rw [hfind, hfind']
    · obtain ⟨-⟩ := hrewritten
      rw [hfind, hfind']
      rfl
  simp only [outline, Environment.rewrite, hconditions]

end GraphQL
