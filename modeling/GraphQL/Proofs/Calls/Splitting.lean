import GraphQL.Proofs.Calls.Views
import GraphQL.Proofs.Selection.Splitting

/-! # Responses to split fields

If a field is written as two, with a part of its sub-selections each and nothing in between that
contributes to its response key, then the response stays the same but for the locations of errors.
Hooks that do not look at the nodes of their fields get the same calls in the same order. So the
field is still resolved once for every object. -/

namespace GraphQL

variable {State Object Item : Type}

/-- The scopes in which selections of the request may be collected. -/
def Request.Scopes (executable : ExecutableSchema State Object Item)
    (service : Service State Object Item) (request : Request State Object Item) : Scope → Prop :=
  fun scope => ∃ env root type,
    request.prepare executable service = .ok (env, root) ∧ env.scope type = scope

/-- The second document is the first one with fields that are split in two, in operations and in
fragments. -/
def Document.Splits (scopes : Scope → Prop) : Document → Document → Prop :=
  Document.Rewritten (GraphQL.Splits scopes (.start scopes))
    fun fragment => GraphQL.Splits scopes (.body scopes fragment)

/-! ## Fields and their parts -/

/-- The same field of the same object, whose sub-selections are split. -/
structure SplitField (scopes : Scope → Prop) (info info' : ResolveInfo Object Item) : Prop where
  outline : info.outline = info'.outline
  first : info.group.first.toFieldHead.Moved info'.group.first.toFieldHead
  selections : Splits scopes (.below scopes) info.group.selections info'.group.selections

theorem SplitField.arguments {scopes : Scope → Prop} {info info' : ResolveInfo Object Item}
    (h : SplitField scopes info info') :
    info.group.first.arguments = info'.group.first.arguments := by
  have harguments {head head' : FieldHead} (h : head.Moved head') :
      head.arguments = head'.arguments := by
    cases h
    rfl
  exact harguments h.first

namespace Environment

variable {scopes : Scope → Prop} {env : Environment State Object Item} {operation' : Operation}
  {fragments' : Catalog Fragment}

theorem fieldsAlike_of_splits
    (houtline : (env.rewrite operation' fragments').request.outline = env.request.outline)
    {groups groups' : List FieldGroup}
    (h : List.Forall₂ (FieldGroup.Splits scopes) groups groups') (path : Path) (type : ObjectType) :
    FieldsAlike (SplitField scopes) env.recorded (env.rewrite operation' fragments').recorded path
      type (env.recorded.defined type groups)
      ((env.rewrite operation' fragments').recorded.defined type groups') := by
  refine List.rel_filterMap ?_ h
  intro group group' hgroup
  obtain ⟨hkey, hfirst, hselections⟩ := hgroup
  have hname {head head' : FieldHead} (h : head.Moved head') : head'.name = head.name := by
    cases h
    rfl
  simp only [hname hfirst]
  refine optionRel_map fun definition _ => ⟨hkey, rfl, ?_, hfirst, hselections⟩
  simp only [ResolveInfo.outline, infoOf, request_recorded, houtline, hkey, ResolveInfo.fieldName,
    hname hfirst]

/-- With fields split, an operation is executed alike. -/
theorem run_split {request : Request State Object Item}
    (goes : HooksGoBy ResolveInfo.outline env.executable env.service request)
    (hresolver : env.fieldResolver = request.fieldResolver?.getD env.service.defaultResolver)
    (hscopes : ∀ type, scopes (env.scope type))
    (hoperation : env.request.operation.Rewritten (Splits scopes (.start scopes)) operation')
    (hfragments : FragmentsSplit scopes env.request.fragments fragments') (depth : Nat)
    (type : ObjectType) :
    Exec.Simulates (SameCallsBy ResolveInfo.outline) (fun _ _ => True)
      (env.recorded.run depth type)
      ((env.rewrite operation' fragments').recorded.run depth type) := by
  have houtline := RequestContext.outline_rewrite hoperation hfragments
  have htracks : ResolversTrack (SameCallsBy ResolveInfo.outline) (SplitField scopes) env.recorded
      (env.rewrite operation' fragments').recorded :=
    resolversTrack_rewrite showsField_outline goes hresolver SplitField.outline
      SplitField.arguments operation' fragments'
  have hruns : RunsTrack (SameCallsBy ResolveInfo.outline) (fun _ _ => True) (SplitField scopes)
      env.recorded (env.rewrite operation' fragments').recorded := by
    refine ⟨htracks, fun _ => trivial, fun h path object => ?_⟩
    have hgroups := Scope.splits_collectFields (hscopes object) hfragments h.selections
      (hscopes object)
    exact fieldsAlike_of_splits houtline hgroups path object
  obtain ⟨hselections⟩ := hoperation
  have hgroups := Scope.splits_collectFields (hscopes type) hfragments hselections
    ⟨hscopes type, rfl⟩
  exact hruns.run depth type rfl (fieldsAlike_of_splits houtline hgroups [] type)

end Environment

/-! ## Responses -/

/-- The same error, perhaps with other locations. -/
inductive ResponseError.Relocated (error : ResponseError) : ResponseError → Prop
  | to (locations : List Location) : Relocated error { error with locations }

/-- The same data, and the same errors in the same order but for their locations. -/
structure Response.Relocated (response response' : Response) : Prop where
  data : response.data = response'.data
  errors : List.Forall₂ ResponseError.Relocated response.errors response'.errors

theorem Step.Alike.relocated {states : State → State → Prop}
    {locations : List Location → List Location → Prop} {step step' : Step State Members}
    (h : step.Alike states locations step') : step.toResponse.Relocated step'.toResponse := by
  constructor
  · simp only [Step.toResponse, h.outcome]
  · refine List.forall₂_map_left_iff.mpr (List.forall₂_map_right_iff.mpr (h.errors.imp ?_))
    intro error error' halike
    have hmoved : error'.toResponseError =
        { error.toResponseError with locations := error'.locations } := by
      simp only [FieldError.toResponseError, halike.failure, halike.path]
    rw [hmoved]
    exact .to _

/-- Splitting a field preserves responses. If hooks do not look at the nodes of their fields, nor
otherwise at the selections of the document, then a document with fields split in two is answered
within the same depths, with the same data and the same errors but for their locations, by the same
calls in the same order. -/
theorem Request.recordWithin_split {executable : ExecutableSchema State Object Item}
    {service : Service State Object Item} {request : Request State Object Item}
    {document' : Document}
    (splits : request.document.Splits (request.Scopes executable service) document')
    (goes : HooksGoBy ResolveInfo.outline executable service request) (depth : Nat)
    (state : State) :
    Option.Rel
      (fun recorded recorded' =>
        Answered Response.Relocated recorded.1 recorded'.1 ∧
          SameCallsBy ResolveInfo.outline recorded.2 recorded'.2)
      (request.recordWithin depth executable service state)
      (({ request with document := document' } : Request State Object Item).recordWithin depth
        executable service state) := by
  rw [recordWithin, recordWithin]
  rcases prepare_rewritten executable service splits with
    ⟨error, hprepare, hprepare'⟩ | ⟨env, type, operation', hprepare, hprepare', hoperation⟩
  · rw [hprepare, hprepare']
    exact .some ⟨.refused error, rfl, rfl⟩
  · have hscopes : ∀ object, request.Scopes executable service (env.scope object) :=
      fun object => ⟨env, type, object, hprepare, rfl⟩
    rw [hprepare, hprepare']
    obtain ⟨operation, coerced, -, -, -, rfl⟩ := prepare_eq_ok_iff.mp hprepare
    have hruns := Environment.run_split goes rfl hscopes hoperation splits.find? depth type
      (state, []) (state, []) ⟨rfl, rfl⟩
    simp only
    rcases optionRel_cases hruns with ⟨hrun, hrun'⟩ | ⟨step, step', hrun, hrun', halike⟩
    · rw [hrun, hrun']
      exact .none
    · rw [hrun, hrun']
      exact .some ⟨.response halike.relocated, halike.state⟩

/-! ## A field around another one -/

namespace Sample

def kindHead : FieldHead := { name := "__typename", location := ⟨1, 15⟩ }

def otherHead : FieldHead := { alias? := some "me", name := "user", location := ⟨1, 28⟩ }

/-- The selections of `{ user { name __typename } me: user { name } }`. -/
def joinedSelections : List Selection :=
  [.field userHead [.field nameHead [], .field kindHead []],
    .field otherHead [.field nameHead []]]

/-- The selections of `{ user { name } me: user { name } user { __typename } }`. -/
def splitSelections : List Selection :=
  [.field userHead [.field nameHead []], .field otherHead [.field nameHead []],
    .field { userHead with location := ⟨1, 43⟩ } [.field kindHead []]]

def joined : Request Unit Empty Empty :=
  { document := [.operation { operation with selections := joinedSelections }] }

def splitDocument : Document := [.operation { operation with selections := splitSelections }]

theorem joined_splits :
    joined.document.Splits (joined.Scopes (executable nameless) service) splitDocument := by
  have hleaf {scopes : Scope → Prop} (head : FieldHead) :
      Splits scopes (.below scopes) [.field head []] [.field head []] :=
    .field (.to head.location) (.nil _) (.nil _)
  have hother {scopes : Scope → Prop} (site : Site) :
      Splits scopes site [.field otherHead [.field nameHead []]]
        [.field otherHead [.field nameHead []]] :=
    .field (.to otherHead.location) (hleaf nameHead) (.nil _)
  have hapart (site : Site) :
      site.KeepsApart userHead.key [.field otherHead [.field nameHead []]] := by
    intro scope visited nodes last _ hwalk node hmem
    cases hwalk with
    | field _ tail =>
        cases tail
        rw [List.mem_singleton.mp hmem]
        decide
    | excluded _ tail =>
        cases tail
        cases hmem
  exact .cons (.operation (.mk (.split (.to userHead.location) (.to ⟨1, 43⟩) (hleaf nameHead)
    (hleaf kindHead) (hapart _) (hother _) (.nil _)))) .nil

theorem goesByOutline_nameless :
    HooksGoBy ResolveInfo.outline (executable nameless) service joined where
  resolvers type field run hrun source arguments info info' hview := by
    have hpath : info.path = info'.path := congrArg FieldOutline.path hview
    obtain rfl := eq_of_resolver? hrun
    simp only [hpath]
  typeResolvers _ _ hrun := by cases hrun
  typePredicates _ _ hrun := by cases hrun
  objects object := object.elim
  fieldResolver _ hrun := by cases hrun

def joinedEnvironment : Environment Unit Empty Empty :=
  { environment nameless with
    request :=
      { (environment nameless).request with
        operation := { operation with selections := joinedSelections } } }

theorem prepare_joined :
    joined.prepare (executable nameless) service = .ok (joinedEnvironment, query) := rfl

theorem selectedFields_joined :
    joinedEnvironment.selectedFields query joinedSelections =
      [(⟨"user", ⟨userHead, [.field nameHead [], .field kindHead []]⟩, []⟩,
          { name := "user", type := .named "User" false }),
        (⟨"me", ⟨otherHead, [.field nameHead []]⟩, []⟩,
          { name := "user", type := .named "User" false })] := by
  have hwalk : (joinedEnvironment.scope query).Walk [] joinedSelections
      [⟨userHead, [.field nameHead [], .field kindHead []]⟩,
        ⟨otherHead, [.field nameHead []]⟩] [] :=
    .field rfl (.field rfl (.nil _))
  rw [Environment.selectedFields, hwalk.collectFields_eq]
  rfl

theorem selectedFields_joinedUser :
    joinedEnvironment.selectedFields user [.field nameHead [], .field kindHead []] =
      [(⟨"name", ⟨nameHead, []⟩, []⟩, { name := "name", type := .named "String" true }),
        (⟨"__typename", ⟨kindHead, []⟩, []⟩,
          { name := "__typename", type := .named "String" true })] := by
  have hwalk : (joinedEnvironment.scope user).Walk []
      [.field nameHead [], .field kindHead []] [⟨nameHead, []⟩, ⟨kindHead, []⟩] [] :=
    .field rfl (.field rfl (.nil _))
  rw [Environment.selectedFields, hwalk.collectFields_eq]
  rfl

/-- The user has no name and is null; nobody else is known. -/
def joinedRecord : Slot :=
  (.named "Query" false, .object
    [(.key "user", .named "User" false, .object
      [(.key "name", .named "String" true, .failed (.nullNotAllowed "User" "name") [⟨1, 10⟩])]),
      (.key "me", .named "User" false, .null)])

theorem joined_derivation : RunDerivation joinedEnvironment query () joinedRecord () := by
  refine .root ?_
  change ChildrenDerivation _ _ (Environment.fieldsOf _ _ _ _
    (joinedEnvironment.selectedFields query joinedSelections)) _ _ _
  rw [selectedFields_joined]
  refine .cons rfl (.object rfl ?_) rfl (.cons rfl (.null rfl) rfl (.nil _ _))
  change ChildrenDerivation _ _ (Environment.fieldsOf _ _ _ _
    (joinedEnvironment.selectedFields user [.field nameHead [], .field kindHead []])) _ _ _
  rw [selectedFields_joinedUser]
  exact .stop rfl (.failed rfl) rfl

theorem joined_answer :
    ∃ depth, joined.executeWithin depth (executable nameless) service () =
      some (.ok joinedRecord.toResponse, ()) :=
  (Request.executeWithin_iff _ _ _).mpr ⟨_, _, _, prepare_joined, joined_derivation, rfl⟩

/-- Both requests are answered, and alike. -/
theorem joined_split :
    ∃ depth calls recorded',
      joined.recordWithin depth (executable nameless) service () =
        some (.ok joinedRecord.toResponse, (), calls) ∧
      ({ joined with document := splitDocument } : Request Unit Empty Empty).recordWithin depth
        (executable nameless) service () = some recorded' ∧
      Answered Response.Relocated (.ok joinedRecord.toResponse) recorded'.1 ∧
      SameCallsBy ResolveInfo.outline ((), calls) recorded'.2 := by
  obtain ⟨depth, hanswer⟩ := joined_answer
  obtain ⟨calls, hrecord⟩ := Request.exists_calls hanswer
  have hsplit := Request.recordWithin_split joined_splits goesByOutline_nameless depth ()
  rw [hrecord] at hsplit
  obtain ⟨recorded', hrun, halike⟩ := exists_of_optionRel_some hsplit
  exact ⟨depth, calls, recorded', hrecord, hrun, halike⟩

end Sample

end GraphQL
