import GraphQL.Proofs.Execution.Correspondence
import GraphQL.Proofs.Execution.Filling

/-! # Agreement of two services

Two services whose calls give the same answers, whatever states they are made in, find the same at
every place. The answers may differ for one field, or for one item of a list of its. -/

namespace GraphQL

variable {State State' Object Item α α' β β' : Type}

/-- Two calls give related values, whatever states they are made in. -/
def Agrees (related : α → α' → Prop) (hook : StateM State α) (hook' : StateM State' α') : Prop :=
  ∀ state state', related (hook.run state).1 (hook'.run state').1

namespace Agrees

theorem pure {related : α → α' → Prop} {value : α} {value' : α'} (h : related value value') :
    Agrees related (Pure.pure value : StateM State α) (Pure.pure value' : StateM State' α') :=
  fun _ _ => h

theorem map {hook : StateM State α} {hook' : StateM State' α'} {f : α → β} {f' : α' → β'}
    {before : α → α' → Prop} {after : β → β' → Prop} (h : Agrees before hook hook')
    (hmap : ∀ value value', before value value' → after (f value) (f' value')) :
    Agrees after (f <$> hook) (f' <$> hook') :=
  fun state state' => hmap _ _ (h state state')

end Agrees

/-- Lists of the same length with related entries at each position. -/
def Aligned (related : Nat → α → β → Prop) (first : List α) (second : List β) : Prop :=
  first.length = second.length ∧ ∀ position x y,
    first[position]? = some x → second[position]? = some y → related position x y

/-- Two answers differ at most in the item that is found by these positions, one for each list
around it. -/
def DifferOnlyAt (service : Service State Object Item) (service' : Service State' Object Item) :
    List Nat → ResolverResult Object Item → ResolverResult Object Item → Prop
  | [], _, _ => True
  | index :: rest, answer, answer' =>
    answer = answer' ∨
      ∃ value value' items items', answer = .ok value ∧ answer' = .ok value' ∧
        Completion.items? service value = some items ∧
        Completion.items? service' value' = some items' ∧
        Aligned (fun position item item' =>
          if position = index then Agrees (DifferOnlyAt service service' rest) item item'
          else Agrees Eq item item') items items'

theorem differOnlyAt_self (service : Service State Object Item)
    (service' : Service State' Object Item) (indices : List Nat)
    (answer : ResolverResult Object Item) : DifferOnlyAt service service' indices answer answer :=
  match indices with
  | [] => trivial
  | _ :: _ => .inl rfl

/-- Two resolvers give the same answers, but for the field at `path`. -/
def ResolversAgree (service : Service State Object Item) (service' : Service State' Object Item)
    (path : Path) (indices : List Nat) (run : Resolver State Object Item)
    (run' : Resolver State' Object Item) : Prop :=
  ∀ source arguments info,
    Agrees (fun answer answer' =>
      if info.path = path then DifferOnlyAt service service' indices answer answer'
      else answer = answer') (run source arguments info) (run' source arguments info)

/-- Two services have hooks at the same places, and these give the same answers, but for the field
at `path`. -/
structure HooksAgree (path : Path) (indices : List Nat)
    (executable : ExecutableSchema State Object Item) (service : Service State Object Item)
    (fieldResolver : Resolver State Object Item)
    (executable' : ExecutableSchema State' Object Item) (service' : Service State' Object Item)
    (fieldResolver' : Resolver State' Object Item) : Prop where
  resolvers : ∀ type field,
    Option.Rel (ResolversAgree service service' path indices)
      (executable.resolver? type field) (executable'.resolver? type field)
  fieldResolver : ResolversAgree service service' path indices fieldResolver fieldResolver'
  serializers : ∀ type,
    Option.Rel (fun run run' => ∀ value, Agrees Eq (run value) (run' value))
      (executable.serializer? type) (executable'.serializer? type)
  typeResolvers : ∀ type,
    Option.Rel (fun run run' => ∀ value info, Agrees Eq (run value info) (run' value info))
      (executable.typeResolver? type) (executable'.typeResolver? type)
  typePredicates : ∀ type,
    Option.Rel (fun run run' => ∀ value info, Agrees Eq (run value info) (run' value info))
      (executable.typePredicate? type) (executable'.typePredicate? type)
  items : ∀ item, Agrees Eq (service.pull item) (service'.pull item)

/-- Two environments are for the same request, and their hooks agree but for the field at `path`. -/
structure AgreeExcept (path : Path) (indices : List Nat) (env : Environment State Object Item)
    (env' : Environment State' Object Item) : Prop extends
    HooksAgree path indices env.executable env.service env.fieldResolver env'.executable
      env'.service env'.fieldResolver where
  schema : env.schema = env'.schema
  request : env.request = env'.request

/-! ## Findings -/

/-- Two findings are the same, the items of lists being calls that give the same answers. -/
inductive Finding.Same : Finding State Object Item → Finding State' Object Item → Prop
  | failed (failure : Failure) : Same (.failed failure) (.failed failure)
  | null : Same .null .null
  | leaf (value : Json) : Same (.leaf value) (.leaf value)
  | list (item : TypeRef) {items items'} (aligned : Aligned (fun _ => Agrees Eq) items items') :
      Same (.list item items) (.list item items')
  | object (type : ObjectType) (source : Resolved Object Item) :
      Same (.object type source) (.object type source)

/-! Agreement is tracking, whatever states the calls are made in. -/

theorem Tracks.agrees {related : α → α' → Prop} {hook : StateM State α} {hook' : StateM State' α'}
    (h : Tracks (fun _ _ => True) related hook hook') : Agrees related hook hook' :=
  fun state state' => (h state state' trivial).1

theorem Agrees.tracks {related : α → α' → Prop} {hook : StateM State α} {hook' : StateM State' α'}
    (h : Agrees related hook hook') : Tracks (fun _ _ => True) related hook hook' :=
  fun state state' _ => ⟨h state state', trivial⟩

theorem Finding.Tracked.same {finding : Finding State Object Item}
    {finding' : Finding State' Object Item}
    (h : Finding.Tracked (fun _ _ => True) finding finding') :
    Finding.Same finding finding' := by
  cases h with
  | failed failure => exact .failed failure
  | null => exact .null
  | leaf value => exact .leaf value
  | object type source => exact .object type source
  | list item tracked =>
      obtain ⟨hlength, htracked⟩ := List.forall₂_iff_get.mp tracked
      refine .list item ⟨hlength, ?_⟩
      intro position x y hx hy
      obtain ⟨hposition, rfl⟩ := List.getElem?_eq_some_iff.mp hx
      obtain ⟨hposition', rfl⟩ := List.getElem?_eq_some_iff.mp hy
      exact (htracked position hposition hposition').agrees

theorem AgreeExcept.hooksTrack {path : Path} {indices : List Nat}
    {env : Environment State Object Item} {env' : Environment State' Object Item}
    (h : AgreeExcept path indices env env') : HooksTrack (fun _ _ => True) Eq env env' where
  schema := h.schema
  parent := congrArg ResolveInfo.parent
  fieldName := congrArg ResolveInfo.fieldName
  serializers type :=
    optionRel_imp (fun _ _ hagrees value => (hagrees value).tracks) (h.serializers type)
  typeResolvers type :=
    optionRel_imp (fun _ _ hagrees value info _ heq => heq ▸ (hagrees value info).tracks)
      (h.typeResolvers type)
  typePredicates type :=
    optionRel_imp (fun _ _ hagrees value info _ heq => heq ▸ (hagrees value info).tracks)
      (h.typePredicates type)
  items item := (h.items item).tracks

namespace Completion

variable {path : Path} {indices : List Nat} {env : Environment State Object Item}
  {env' : Environment State' Object Item}

/-- The same value is found to be the same in both environments. -/
theorem agrees_examine (h : AgreeExcept path indices env env') (info : ResolveInfo Object Item)
    (type : TypeRef) (resolved : Except Failure (Resolved Object Item)) :
    Agrees Finding.Same (examine env info type resolved) (examine env' info type resolved) :=
  fun state state' => (tracks_examine h.hooksTrack rfl type resolved state state' trivial).1.same

end Completion

end GraphQL
