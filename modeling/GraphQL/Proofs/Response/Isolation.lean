import GraphQL.Proofs.Execution.Agreement
import GraphQL.Proofs.Execution.Reach
import GraphQL.Proofs.Execution.Serial
import GraphQL.Proofs.Response.Hiding
import Mathlib.Data.List.Forall2

/-! # Isolation of nullable places

Two runs whose services differ at one field, or at one item of its list, have records that differ
at most there, if the place may be null. So the responses are the same outside of it. -/

namespace GraphQL

variable {State State' Object Item : Type}

/-- What is found by positions in lists of a type, one for each list, may be null. -/
def TypeRef.NullableItem : TypeRef → List Nat → Prop
  | type, [] => type.nonNull = false
  | .list item _, _ :: rest => item.NullableItem rest
  | .named _ _, _ :: _ => False

theorem TypeRef.nullableItem_nil (type : TypeRef) :
    type.NullableItem [] ↔ type.nonNull = false := by
  cases type <;> rfl

/-- The place of an item, one position for each list around it. -/
def Path.item (path : Path) (indices : List Nat) : Path := path ++ indices.map PathSegment.index

/-! ## Answers that differ at one item -/

/-- Answers for the place at `path` that are the same, or differ only at an item of nullable type.
The type of the field at `base` is known to be right only while that place is reached. -/
inductive AnswersAlike (service : Service State Object Item) (service' : Service State' Object Item)
    (base : Path) (indices : List Nat) (path : Path) (type : TypeRef) :
    Except Failure (Resolved Object Item) → Except Failure (Resolved Object Item) → Prop
  | same (resolved) : AnswersAlike service service' base indices path type resolved resolved
  | differ {rest answer answer'} (target : base.item indices = path.item rest)
      (nullable : (path = base → type.NullableItem indices) → type.NullableItem rest)
      (only : DifferOnlyAt service service' rest answer answer') :
      AnswersAlike service service' base indices path type (answer.mapError Failure.resolver)
        (answer'.mapError Failure.resolver)

/-- Places that are pending below `path` in both runs, with answers that are alike. -/
inductive PendingsAlike (service : Service State Object Item)
    (service' : Service State' Object Item) (base : Path) (indices : List Nat) (path : Path) :
    Pending State Object Item → Pending State' Object Item → Prop
  | intro {segment type info resolve resolve'}
      (agrees : Agrees (AnswersAlike service service' base indices (path ++ [segment]) type)
        resolve resolve') :
      PendingsAlike service service' base indices path ⟨segment, type, info, resolve⟩
        ⟨segment, type, info, resolve'⟩

section

variable {service : Service State Object Item} {service' : Service State' Object Item}
  {base path : Path} {indices : List Nat} {type : TypeRef}
  {items : List (StateM State (ResolverResult Object Item))}
  {items' : List (StateM State' (ResolverResult Object Item))}

theorem pendingsAlike_items (info : ResolveInfo Object Item) {start : Nat}
    (h : Aligned (fun position item item' =>
      Agrees (AnswersAlike service service' base indices (path ++ [.index (start + position)]) type)
        ((·.mapError Failure.resolver) <$> item) ((·.mapError Failure.resolver) <$> item'))
      items items') :
    List.Forall₂ (PendingsAlike service service' base indices path)
      (Completion.itemsOf info type start items) (Completion.itemsOf info type start items') := by
  induction items generalizing start items' with
  | nil =>
      obtain rfl := List.length_eq_zero_iff.mp h.1.symm
      exact .nil
  | cons item rest ih =>
      cases items' with
      | nil => cases h.1
      | cons item' rest' =>
          refine .cons (.intro (h.2 0 item item' rfl rfl)) (ih ⟨Nat.succ.inj h.1, ?_⟩)
          intro position x y hx hy
          have hposition : start + 1 + position = start + (position + 1) := by omega
          rw [hposition]
          exact h.2 (position + 1) x y (by simpa using hx) (by simpa using hy)

theorem agrees_of_same {item : StateM State (ResolverResult Object Item)}
    {item' : StateM State' (ResolverResult Object Item)} (h : Agrees Eq item item') :
    Agrees (AnswersAlike service service' base indices path type)
      ((·.mapError Failure.resolver) <$> item) ((·.mapError Failure.resolver) <$> item') := by
  refine h.map ?_
  intro answer answer' heq
  rw [heq]
  exact .same _

theorem pendingsAlike_of_same (info : ResolveInfo Object Item)
    (h : Aligned (fun _ => Agrees Eq) items items') :
    List.Forall₂ (PendingsAlike service service' base indices path)
      (Completion.itemsOf info type 0 items) (Completion.itemsOf info type 0 items') := by
  refine pendingsAlike_items info ⟨h.1, ?_⟩
  intro position item item' hitem hitem'
  exact agrees_of_same (h.2 position item item' hitem hitem')

theorem pendingsAlike_of_differ (info : ResolveInfo Object Item) {index : Nat} {rest : List Nat}
    (target : base.item indices = path.item (index :: rest)) (nullable : type.NullableItem rest)
    (h : Aligned (fun position item item' =>
      if position = index then Agrees (DifferOnlyAt service service' rest) item item'
      else Agrees Eq item item') items items') :
    List.Forall₂ (PendingsAlike service service' base indices path)
      (Completion.itemsOf info type 0 items) (Completion.itemsOf info type 0 items') := by
  refine pendingsAlike_items info ⟨h.1, ?_⟩
  intro position item item' hitem hitem'
  have hrelated := h.2 position item item' hitem hitem'
  by_cases hposition : position = index
  · simp only [hposition, ite_true, Nat.zero_add] at hrelated ⊢
    refine hrelated.map ?_
    intro answer answer' only
    have htarget : base.item indices = Path.item (path ++ [.index index]) rest := by
      simpa [Path.item] using target
    exact .differ htarget (fun _ => nullable) only
  · simp only [hposition, ite_false] at hrelated
    exact agrees_of_same hrelated

end

namespace AgreeExcept

variable {base : Path} {indices : List Nat} {env : Environment State Object Item}
  {env' : Environment State' Object Item}

theorem selectedFields_eq (h : AgreeExcept base indices env env') (type : ObjectType)
    (selections : List Selection) :
    env.selectedFields type selections = env'.selectedFields type selections := by
  simp only [Environment.selectedFields, Environment.defined, Environment.scope, h.schema,
    h.request]

theorem agrees_resolution (h : AgreeExcept base indices env env') (info : ResolveInfo Object Item)
    (source : Resolved Object Item) (type : TypeRef) :
    Agrees (AnswersAlike env.service env'.service base indices info.path type)
      (env.resolution info source) (env'.resolution info source) := by
  have hresolver {run : Resolver State Object Item} {run' : Resolver State' Object Item}
      (hagree : ResolversAgree env.service env'.service base indices run run')
      (arguments : Members) :
      Agrees (AnswersAlike env.service env'.service base indices info.path type)
        ((·.mapError Failure.resolver) <$> run source arguments info)
        ((·.mapError Failure.resolver) <$> run' source arguments info) := by
    refine (hagree source arguments info).map ?_
    intro answer answer' hanswer
    by_cases hpath : info.path = base
    · simp only [hpath, ite_true] at hanswer ⊢
      exact .differ rfl (fun hnullable => hnullable rfl) hanswer
    · simp only [hpath, ite_false] at hanswer
      rw [hanswer]
      exact .same _
  rw [Environment.resolution, Environment.resolution, h.schema, h.request]
  cases env'.schema.coerceArguments info.definition.arguments info.group.first.arguments
      env'.request.variableValues with
  | error error => exact .pure (.same _)
  | ok arguments =>
      simp only [Environment.answer]
      rcases optionRel_cases (h.resolvers info.parent.name info.fieldName) with
        ⟨hrun, hrun'⟩ | ⟨run, run', hrun, hrun', hagree⟩
      · simp only [hrun, hrun']
        cases hbuiltIn : (Environment.builtIn? info.parent info.fieldName :
            Option (Except Failure (Resolved Object Item))) with
        | some answer => simpa only [hbuiltIn] using Agrees.pure (.same answer)
        | none => simpa only [hbuiltIn] using hresolver h.fieldResolver arguments
      · simp only [hrun, hrun']
        exact hresolver hagree arguments

theorem pendingsAlike_fields (h : AgreeExcept base indices env env') (path : Path)
    (type : ObjectType) (source : Resolved Object Item)
    (fields : List (FieldGroup × FieldDefinition)) :
    List.Forall₂ (PendingsAlike env.service env'.service base indices path)
      (env.fieldsOf path type source fields) (env'.fieldsOf path type source fields) := by
  induction fields with
  | nil => exact .nil
  | cons field rest ih =>
      obtain ⟨group, definition⟩ := field
      have hinfo :
          env'.infoOf path type definition group = env.infoOf path type definition group := by
        rw [Environment.infoOf, Environment.infoOf, h.request]
      refine .cons ?_ ih
      dsimp only
      rw [hinfo]
      exact .intro
        (h.agrees_resolution (env.infoOf path type definition group) source definition.type)

end AgreeExcept

/-! ## Records of two runs -/

/-- Two slots at `path` are the same, or differ only at the target. -/
def SlotsAlike (target path : Path) (slot slot' : Slot) : Prop :=
  slot = slot' ∨ ∃ rest, target = path ++ rest ∧ slot.DifferAt rest slot'

/-- Lists of places below `path` are the same, or differ only at the target. -/
def ChildrenAlike (target path : Path) (children children' : List (PathSegment × Slot)) : Prop :=
  children = children' ∨ ∃ segment rest earlier later child child',
    target = path ++ segment :: rest ∧ children = earlier ++ (segment, child) :: later ∧
      children' = earlier ++ (segment, child') :: later ∧ child.DifferAt rest child'

theorem SlotsAlike.isSome_value? {target path : Path} {slot slot' : Slot}
    (h : SlotsAlike target path slot slot') : slot.value?.isSome = slot'.value?.isSome := by
  rcases h with rfl | ⟨rest, -, hdiffer⟩
  · rfl
  · have hvalue := congrArg Option.isSome hdiffer.hide_value
    rwa [Option.isSome_map, Option.isSome_map] at hvalue

namespace ChildrenAlike

variable {target path : Path} {children children' : List (PathSegment × Slot)}

theorem cons {segment : PathSegment} {slot slot' : Slot}
    (head : SlotsAlike target (path ++ [segment]) slot slot')
    (tail : ChildrenAlike target path children children') (new : segment ∉ Entries.keys children) :
    ChildrenAlike target path ((segment, slot) :: children) ((segment, slot') :: children') := by
  rcases head with rfl | ⟨rest, htarget, hdiffer⟩
  · rcases tail with rfl | ⟨key, rest, earlier, later, child, child', htarget, rfl, rfl, hdiffer⟩
    · exact .inl rfl
    · exact .inr ⟨key, rest, (segment, slot) :: earlier, later, child, child', htarget, rfl, rfl,
        hdiffer⟩
  · have htarget' : target = path ++ segment :: rest := by simpa using htarget
    rcases tail with rfl | ⟨key, rest', earlier, later, child, child', hkey, rfl, rfl, -⟩
    · exact .inr ⟨segment, rest, [], children, slot, slot', htarget', rfl, rfl, hdiffer⟩
    · have hparts := List.append_cancel_left (hkey.symm.trans htarget')
      obtain ⟨rfl, -⟩ := List.cons.inj hparts
      exact absurd (List.mem_map.mpr ⟨(key, child), by simp, rfl⟩) new

theorem list (h : ChildrenAlike target path children children') (type : TypeRef)
    (numbered : Entries.keys children = (List.range children.length).map PathSegment.index) :
    SlotsAlike target path (type, .list children) (type, .list children') := by
  rcases h with rfl | ⟨segment, rest, earlier, later, child, child', htarget, rfl, rfl, hdiffer⟩
  · exact .inl rfl
  · have hsegment :
        (Entries.keys (earlier ++ (segment, child) :: later))[earlier.length]? = some segment := by
      simp [Entries.keys]
    rw [numbered] at hsegment
    obtain rfl : PathSegment.index earlier.length = segment := by simpa using hsegment
    exact .inr ⟨_, htarget, .item hdiffer⟩

theorem object (h : ChildrenAlike target path children children') (type : TypeRef)
    (named : ∀ segment ∈ Entries.keys children, segment.key?.isSome)
    (distinct : (Entries.keys children).Nodup) :
    SlotsAlike target path (type, .object children) (type, .object children') := by
  rcases h with rfl | ⟨segment, rest, earlier, later, child, child', htarget, rfl, rfl, hdiffer⟩
  · exact .inl rfl
  · cases segment with
    | index position =>
        cases named (.index position) (List.mem_map.mpr ⟨(.index position, child), by simp, rfl⟩)
    | key name =>
        refine .inr ⟨_, htarget, .field hdiffer ?_⟩
        simp only [Entries.keys, List.map_append, List.map_cons] at distinct
        have hdisjoint := (List.nodup_append.mp distinct).2.2
        exact fun hmem => hdisjoint _ hmem _ List.mem_cons_self rfl

end ChildrenAlike

/-- If the field at `base` is recorded in the slot at `path`, the item may be null at its type. -/
def Slot.Guarded (base : Path) (indices : List Nat) (path : Path) (slot : Slot) : Prop :=
  ∀ rest lower, base = path ++ rest → slot.find? rest = some lower → lower.1.NullableItem indices

theorem Slot.Guarded.child {base path : Path} {indices : List Nat} {slot : Slot}
    (h : slot.Guarded base indices path) (hvalid : slot.Valid) {child : PathSegment × Slot}
    (hmem : child ∈ slot.2.children) : child.2.Guarded base indices (path ++ [child.1]) := by
  intro rest lower hbase hfind
  refine h (child.1 :: rest) lower (by simpa using hbase) ?_
  rw [find?_cons, Entries.get?_of_mem hvalid.nodup_keys hmem]
  exact hfind

theorem Completion.isNull_of_items? {service : Service State Object Item}
    {value : Resolved Object Item} {items : List (StateM State (ResolverResult Object Item))}
    (h : items? service value = some items) : value.isNull = false := by
  cases value with
  | json value => cases value <;> first | rfl | cases h
  | object | list => rfl

/-- A value whose items are known is found to be a list at every list type. -/
theorem Completion.examine_list (env : Environment State Object Item)
    (info : ResolveInfo Object Item) (item : TypeRef) (nonNull : Bool)
    {value : Resolved Object Item} {items : List (StateM State (ResolverResult Object Item))}
    (h : items? env.service value = some items) (state : State) :
    (examine env info (.list item nonNull) (.ok value)).run state = (.list item items, state) := by
  simp only [examine, isNull_of_items? h, Bool.false_eq_true, ite_false, examinePresent, h]
  rfl

section

variable {base : Path} {indices : List Nat} {env : Environment State Object Item}
  {env' : Environment State' Object Item}

/-- Two findings from which both runs go on alike: the items of a list have answers that are
alike. -/
inductive FindingsAlike (service : Service State Object Item)
    (service' : Service State' Object Item) (base : Path) (indices : List Nat) (path : Path)
    (info : ResolveInfo Object Item) :
    Finding State Object Item → Finding State' Object Item → Prop
  | failed (failure : Failure) :
      FindingsAlike service service' base indices path info (.failed failure) (.failed failure)
  | null : FindingsAlike service service' base indices path info .null .null
  | leaf (value : Json) :
      FindingsAlike service service' base indices path info (.leaf value) (.leaf value)
  | list (item : TypeRef) {items items'}
      (alike : List.Forall₂ (PendingsAlike service service' base indices path)
        (Completion.itemsOf info item 0 items) (Completion.itemsOf info item 0 items')) :
      FindingsAlike service service' base indices path info (.list item items) (.list item items')
  | object (type : ObjectType) (source : Resolved Object Item) :
      FindingsAlike service service' base indices path info (.object type source)
        (.object type source)

theorem Finding.Same.alike {service : Service State Object Item}
    {service' : Service State' Object Item} {path : Path} {finding : Finding State Object Item}
    {finding' : Finding State' Object Item} (h : finding.Same finding')
    (info : ResolveInfo Object Item) :
    FindingsAlike service service' base indices path info finding finding' := by
  cases h with
  | failed failure => exact .failed failure
  | null => exact .null
  | leaf value => exact .leaf value
  | list item aligned => exact .list item (pendingsAlike_of_same info aligned)
  | object type source => exact .object type source

/-- Answers that are alike are found to be alike, but for an answer at the target itself, which may
be null. -/
theorem AgreeExcept.examine_alike (h : AgreeExcept base indices env env')
    (info : ResolveInfo Object Item) {path : Path} {type : TypeRef}
    {resolved resolved' : Except Failure (Resolved Object Item)}
    (answers : AnswersAlike env.service env'.service base indices path type resolved resolved')
    (guarded : path = base → type.NullableItem indices) (state : State) (state' : State') :
    (base.item indices = path ∧ type.nonNull = false) ∨
      FindingsAlike env.service env'.service base indices path info
        ((Completion.examine env info type resolved).run state).1
        ((Completion.examine env' info type resolved').run state').1 := by
  have hsame (resolved : Except Failure (Resolved Object Item)) :
      FindingsAlike env.service env'.service base indices path info
        ((Completion.examine env info type resolved).run state).1
        ((Completion.examine env' info type resolved).run state').1 :=
    (Completion.agrees_examine h info type resolved state state').alike info
  cases answers with
  | same => exact .inr (hsame resolved)
  | @differ rest answer answer' target nullable only =>
      have hnullable := nullable guarded
      cases rest with
      | nil =>
          have htarget : base.item indices = path := by simpa [Path.item] using target
          exact .inl ⟨htarget, (TypeRef.nullableItem_nil type).mp hnullable⟩
      | cons index rest =>
          rcases only with rfl | ⟨value, value', items, items', rfl, rfl, hitems, hitems', haligned⟩
          · exact .inr (hsame _)
          · cases type with
            | named name nonNull => exact hnullable.elim
            | list item nonNull =>
                have hexamine := Completion.examine_list env info item nonNull hitems state
                have hexamine' := Completion.examine_list env' info item nonNull hitems' state'
                right
                change FindingsAlike _ _ _ _ _ _
                  ((Completion.examine env info (.list item nonNull) (.ok value)).run state).1
                  ((Completion.examine env' info (.list item nonNull) (.ok value')).run state').1
                rw [hexamine, hexamine']
                exact .list item (pendingsAlike_of_differ info target hnullable haligned)

/-- The first place is completed in both runs, with answers that are alike. -/
theorem PendingsAlike.head {path : Path} {pending : Pending State Object Item}
    {pending' : Pending State' Object Item} {rest : List (Pending State' Object Item)}
    {resolved : Except Failure (Resolved Object Item)} {state middle : State}
    {state' next' : State'} {children : List (PathSegment × Slot)}
    (h : PendingsAlike env.service env'.service base indices path pending pending')
    (call : pending.resolve.run state = (resolved, middle))
    (h' : ChildrenDerivation env' path (pending' :: rest) state' children next') :
    ∃ resolved' middle' place after others,
      children = (pending.segment, pending.type, place) :: others ∧
      AnswersAlike env.service env'.service base indices (path ++ [pending.segment]) pending.type
        resolved resolved' ∧
      PlaceDerivation env' pending.info (path ++ [pending.segment]) pending.type resolved' middle'
        place after ∧
      ((Slot.value? (pending.type, place)).isSome = true →
        ChildrenDerivation env' path rest after others next') ∧
      ((Slot.value? (pending.type, place)).isSome = false → others = [] ∧ next' = after) := by
  obtain ⟨agrees⟩ := h
  have answers := agrees state state'
  dsimp only at call
  rw [call] at answers
  obtain ⟨place, after, others, hchildren, hplace, hothers⟩ := h'.head rfl
  exact ⟨_, _, place, after, others, hchildren, answers, hplace, hothers⟩

mutual

/-- Places with answers that are alike are the same, or differ only at the target. -/
theorem PlaceDerivation.alike {info : ResolveInfo Object Item} {path : Path} {type : TypeRef}
    {resolved resolved' : Except Failure (Resolved Object Item)} {state next : State}
    {state' next' : State'} {place place' : Place} (agree : AgreeExcept base indices env env')
    (h : PlaceDerivation env info path type resolved state place next)
    (h' : PlaceDerivation env' info path type resolved' state' place' next')
    (answers : AnswersAlike env.service env'.service base indices path type resolved resolved')
    (guarded : Slot.Guarded base indices path (type, place)) :
    SlotsAlike (base.item indices) path (type, place) (type, place') := by
  have hvalid := h.valid
  have hnullable : path = base → type.NullableItem indices := by
    intro hpath
    exact guarded [] (type, place) (by simp [hpath]) rfl
  rcases agree.examine_alike info answers hnullable state state' with
    ⟨htarget, hnull⟩ | halike
  · exact .inr ⟨[], by simpa using htarget, .here hnull⟩
  · cases hfound' : (Completion.examine env' info type resolved').run state' with
    | mk finding' middle' =>
        have hplace' := h'.concludes hfound'
        rw [hfound'] at halike
        cases h with
        | failed found | null found | leaf found =>
            rw [found] at halike
            cases halike
            obtain ⟨rfl, -⟩ := hplace'
            exact .inl rfl
        | list found below =>
            rw [found] at halike
            cases halike with
            | list item hitems =>
                obtain ⟨children', rfl, below'⟩ := hplace'
                have hchildren := below.alike agree below' hitems
                  (Completion.nodup_itemsOf info _ _) fun child hmem => guarded.child hvalid hmem
                exact hchildren.list type below.keys_items
        | object found below =>
            rw [found] at halike
            cases halike with
            | object object source =>
                obtain ⟨children', rfl, below'⟩ := hplace'
                rw [← agree.selectedFields_eq] at below'
                have hchildren := below.alike agree below'
                  (agree.pendingsAlike_fields path _ _ _) (env.nodup_fieldsOf path _ _ _)
                  fun child hmem => guarded.child hvalid hmem
                exact hchildren.object type below.keys_fields.1 below.keys_fields.2

theorem ChildrenDerivation.alike {path : Path} {pendings : List (Pending State Object Item)}
    {pendings' : List (Pending State' Object Item)} {state next : State} {state' next' : State'}
    {children children' : List (PathSegment × Slot)} (agree : AgreeExcept base indices env env')
    (h : ChildrenDerivation env path pendings state children next)
    (h' : ChildrenDerivation env' path pendings' state' children' next')
    (alike : List.Forall₂ (PendingsAlike env.service env'.service base indices path) pendings
      pendings')
    (distinct : (pendings.map Pending.segment).Nodup)
    (guarded : ∀ child ∈ children, child.2.Guarded base indices (path ++ [child.1])) :
    ChildrenAlike (base.item indices) path children children' := by
  cases h with
  | nil =>
      cases alike
      cases h'
      exact .inl rfl
  | stop call head nulled =>
      cases alike with
      | cons hpending hrest =>
          obtain ⟨_, _, place', after', others', rfl, answers, head', -, hothers'⟩ :=
            hpending.head call h'
          have hslots := head.alike agree head' answers (guarded _ List.mem_cons_self)
          have hnone := hslots.isSome_value?
          rw [nulled] at hnone
          obtain ⟨rfl, -⟩ := hothers' hnone.symm
          exact .cons hslots (.inl rfl) (List.not_mem_nil)
  | cons call head settled tail =>
      cases alike with
      | cons hpending hrest =>
          obtain ⟨_, _, place', after', others', rfl, answers, head', htail', -⟩ :=
            hpending.head call h'
          obtain ⟨hnew, hdistinct⟩ := List.nodup_cons.mp distinct
          have hslots := head.alike agree head' answers (guarded _ List.mem_cons_self)
          have hsome := hslots.isSome_value?
          rw [settled] at hsome
          have hchildren := tail.alike agree (htail' hsome.symm) hrest hdistinct
            fun child hmem => guarded child (List.mem_cons_of_mem _ hmem)
          exact .cons hslots hchildren fun hmem => hnew (tail.keys_initial.subset hmem)

end

/-- The records of two runs are the same, or differ only at the target. -/
theorem RunDerivation.alike {type : ObjectType} {state next : State} {state' next' : State'}
    {record record' : Slot} (agree : AgreeExcept base indices env env')
    (h : RunDerivation env type state record next)
    (h' : RunDerivation env' type state' record' next')
    (nullable : ∀ pending resolved middle,
      Asks env type state base pending resolved middle → pending.type.NullableItem indices) :
    SlotsAlike (base.item indices) [] record record' := by
  have hvalid := h.valid
  have hguarded : ∀ child ∈ record.2.children, child.2.Guarded base indices ([] ++ [child.1]) := by
    intro child hmem rest lower hbase hfind
    have hrecord : record.find? (child.1 :: rest) = some lower := by
      rw [Slot.find?_cons, Entries.get?_of_mem hvalid.nodup_keys hmem]
      exact hfind
    cases h.fills hrecord with
    | intro asks _ =>
        obtain rfl : base = child.1 :: rest := hbase
        exact nullable _ _ _ asks
  obtain ⟨below⟩ := h
  obtain ⟨below'⟩ := h'
  rw [← agree.request, ← agree.selectedFields_eq] at below'
  exact (below.alike agree below' (agree.pendingsAlike_fields [] type _ _)
    (env.nodup_fieldsOf [] type _ _) hguarded).object _ below.keys_fields.1 below.keys_fields.2

end

namespace SlotsAlike

variable {target : Path} {record record' : Slot}

theorem hide_value (h : SlotsAlike target [] record record') :
    record.value?.map (Json.hide target) = record'.value?.map (Json.hide target) := by
  rcases h with rfl | ⟨rest, rfl, hdiffer⟩
  · rfl
  · exact hdiffer.hide_value

theorem errors_outside (h : SlotsAlike target [] record record') :
    FieldError.outside target record.2.errors = FieldError.outside target record'.2.errors := by
  rcases h with rfl | ⟨rest, rfl, hdiffer⟩
  · rfl
  · exact hdiffer.errors_outside

end SlotsAlike

/-! ## Responses of two runs -/

/-- Two requests are the same, and their services agree but for the field at `path`. -/
structure RequestsAgree (path : Path) (indices : List Nat)
    (executable : ExecutableSchema State Object Item) (service : Service State Object Item)
    (request : Request State Object Item) (executable' : ExecutableSchema State' Object Item)
    (service' : Service State' Object Item) (request' : Request State' Object Item) : Prop extends
    HooksAgree path indices executable service
      (request.fieldResolver?.getD service.defaultResolver) executable' service'
      (request'.fieldResolver?.getD service'.defaultResolver) where
  sameSchema : executable.schema = executable'.schema
  sameDocument : request.document = request'.document
  sameOperation : request.operationName? = request'.operationName?
  sameVariables : request.variableValues = request'.variableValues
  sameRoot : request.root = request'.root

section

variable {executable : ExecutableSchema State Object Item} {service : Service State Object Item}
  {request : Request State Object Item} {executable' : ExecutableSchema State' Object Item}
  {service' : Service State' Object Item} {request' : Request State' Object Item}
  {path : Path} {indices : List Nat}

/-- The same request is prepared alike for both services. -/
theorem RequestsAgree.prepare
    (h : RequestsAgree path indices executable service request executable' service' request')
    {env : Environment State Object Item} {type : ObjectType}
    (hprepare : request.prepare executable service = .ok (env, type)) :
    ∃ env', request'.prepare executable' service' = .ok (env', type) ∧
      AgreeExcept path indices env env' := by
  obtain ⟨operation, coerced, hoperation, hcoerced, htype, rfl⟩ :=
    Request.prepare_eq_ok_iff.mp hprepare
  rw [h.sameDocument, h.sameOperation] at hoperation
  rw [h.sameSchema, h.sameVariables] at hcoerced
  rw [h.sameSchema] at htype
  refine ⟨_, Request.prepare_eq_ok_iff.mpr ⟨operation, coerced, hoperation, hcoerced, htype, rfl⟩,
    h.toHooksAgree, h.sameSchema, ?_⟩
  simp only [h.sameSchema, h.sameDocument, h.sameRoot]

/-- Whatever becomes of a nullable field or item, nothing outside of it changes: the data around it
is the same, and so are the errors outside of it, in their order. -/
theorem Request.isolation {depth depth' : Nat} {state next : State} {state' next' : State'}
    {response : Response} {answer' : Except RequestError Response}
    (agree : RequestsAgree path indices executable service request executable' service' request')
    (nullable : ∀ env type, request.prepare executable service = .ok (env, type) →
      ∀ pending resolved middle, Asks env type state path pending resolved middle →
        pending.type.NullableItem indices)
    (h : request.executeWithin depth executable service state = some (.ok response, next))
    (h' : request'.executeWithin depth' executable' service' state' = some (answer', next')) :
    ∃ response', answer' = .ok response' ∧
      response.data.toJson.hide (path.item indices) =
        response'.data.toJson.hide (path.item indices) ∧
      (∀ other, ¬ path.item indices <+: other → ¬ other <+: path.item indices →
        response.data.toJson.at? other = response'.data.toJson.at? other) ∧
      (response.errors.filter fun error => ¬ path.item indices <+: error.path) =
        response'.errors.filter fun error => ¬ path.item indices <+: error.path := by
  obtain ⟨env, type, record, hprepare, hrecord, rfl⟩ := executeWithin_derivation h
  obtain ⟨env', hprepare', hagree⟩ := agree.prepare hprepare
  obtain ⟨response', rfl⟩ : ∃ response', answer' = .ok response' := by
    simp only [executeWithin, hprepare'] at h'
    obtain ⟨step, -, hanswer⟩ := Option.map_eq_some_iff.mp h'
    exact ⟨_, (Prod.mk.inj hanswer).1.symm⟩
  obtain ⟨env'', type'', record', hprepare'', hrecord', rfl⟩ := executeWithin_derivation h'
  cases hprepare'.symm.trans hprepare''
  have halike := hrecord.alike hagree hrecord' (nullable env type hprepare)
  have hvalue := halike.hide_value
  rw [hrecord.value?_eq, hrecord'.value?_eq] at hvalue
  have hdata := Option.some.inj hvalue
  refine ⟨record'.toResponse, rfl, hdata, ?_, ?_⟩
  · intro other hbelow haround
    rw [← Json.at?_hide hbelow haround, hdata, Json.at?_hide hbelow haround]
  · simp only [Slot.toResponse, FieldError.filter_toResponseError, halike.errors_outside]

end

namespace Sample

def crewHead : FieldHead := { name := "crew", location := ⟨1, 3⟩ }

def typeHead : FieldHead :=
  { name := "__type", location := ⟨1, 28⟩, arguments := [("name", .string "User")] }

def typeSelections : List Selection := [.field { nameHead with location := ⟨1, 51⟩ } []]

/-- The selections of `{ crew { name } __typename __type(name: "User") { name } }`. -/
def crewSelections : List Selection :=
  [.field crewHead [.field nameHead []], .field typenameHead [], .field typeHead typeSelections]

def crewRequest : Request Unit Empty Empty where
  document := [.operation { operation with selections := crewSelections }]

def crewField : FieldDefinition := { name := "crew", type := .list (.named "User" false) false }

def vessel : ObjectType := { name := "Query", fields := ⟨[crewField], by decide⟩ }

/-- `type User { name: String! } type Query { crew: [User] }`, with a resolver for the crew. -/
def manned (answer : ResolverResult Empty Empty) : ExecutableSchema Unit Empty Empty where
  schema :=
    { query? := some "Query"
      types := ⟨[.scalar "String", .object user, .object vessel], by decide⟩ }
  resolvers :=
    [("Query", [("crew", fun _ _ info =>
      pure (if info.path = [.key "crew"] then answer else .ok (.json .null)))])]

/-- The requests agree but for the crew, or but for one of it. -/
theorem requestsAgree_crew {indices : List Nat} {answer answer' : ResolverResult Empty Empty}
    (only : DifferOnlyAt service service indices answer answer') :
    RequestsAgree [.key "crew"] indices (manned answer) service crewRequest (manned answer') service
      crewRequest where
  resolvers type field := by
    simp only [manned, ExecutableSchema.resolver?, Entries.get?]
    split
    · simp only [Option.bind_some, Entries.get?]
      split
      · refine .some fun source arguments info => .pure ?_
        by_cases hpath : info.path = [.key "crew"]
        · simpa only [hpath, ite_true] using only
        · simp only [hpath, ite_false]
      · exact .none
    · exact .none
  fieldResolver source arguments info := by
    have hpure (result : ResolverResult Empty Empty) : Agrees (fun answer answer' =>
        if info.path = [.key "crew"] then DifferOnlyAt service service indices answer answer'
        else answer = answer') (pure result : StateM Unit _) (pure result : StateM Unit _) := by
      refine .pure ?_
      split
      · exact differOnlyAt_self service service indices result
      · rfl
    cases source with
    | object object => cases object
    | list items => exact hpure _
    | json value => cases value <;> exact hpure _
  serializers type := .none
  typeResolvers type := .none
  typePredicates type := .none
  items := nofun
  sameSchema := rfl
  sameDocument := rfl
  sameOperation := rfl
  sameVariables := rfl
  sameRoot := rfl

def crewEnvironment (answer : ResolverResult Empty Empty) : Environment Unit Empty Empty where
  executable := manned answer
  service := service
  fieldResolver := service.defaultResolver
  request :=
    { schema := (manned answer).schema
      operation := { operation with selections := crewSelections }
      variableValues := []
      fragments := .empty
      root := .json .null }

theorem prepare_crew (answer : ResolverResult Empty Empty) :
    crewRequest.prepare (manned answer) service = .ok (crewEnvironment answer, vessel) := rfl

def crewGroup : FieldGroup := ⟨"crew", ⟨crewHead, [.field nameHead []]⟩, []⟩

theorem selectedFields_crew (answer : ResolverResult Empty Empty) :
    (crewEnvironment answer).selectedFields vessel crewSelections =
      [(crewGroup, crewField), (⟨"__typename", ⟨typenameHead, []⟩, []⟩, typenameField),
        (⟨"__type", ⟨typeHead, typeSelections⟩, []⟩,
          { name := "__type"
            type := .named "__Type" false
            arguments := [{ name := "name", type := .named "String" true }] })] := by
  have hwalk : ((crewEnvironment answer).scope vessel).Walk [] crewSelections
      [⟨crewHead, [.field nameHead []]⟩, ⟨typenameHead, []⟩, ⟨typeHead, typeSelections⟩] [] :=
    .field rfl (.field rfl (.field rfl (.nil _)))
  rw [Environment.selectedFields, hwalk.collectFields_eq]
  rfl

def crewInfo (answer : ResolverResult Empty Empty) : ResolveInfo Empty Empty :=
  (crewEnvironment answer).infoOf [] vessel crewField crewGroup

/-- The crew, beside the name of the type and a type that is not told. -/
def crewRecord (crew : Place) : Slot :=
  (.named "Query" false, .object
    [(.key "crew", crewField.type, crew),
      (.key "__typename", .named "String" true, .leaf (.string "Query")),
      (.key "__type", .named "__Type" false, .failed .noIntrospection [⟨1, 28⟩])])

theorem crew_derivation {answer : ResolverResult Empty Empty} {crew : Place}
    (h : PlaceDerivation (crewEnvironment answer) (crewInfo answer) [.key "crew"] crewField.type
      (answer.mapError Failure.resolver) () crew ()) :
    RunDerivation (crewEnvironment answer) vessel () (crewRecord crew) () := by
  have ⟨value, settled⟩ : ∃ value, Slot.value? (crewField.type, crew) = some value :=
    Slot.exists_value? rfl
  refine .root ?_
  change ChildrenDerivation _ _ (Environment.fieldsOf _ _ _ _
    ((crewEnvironment answer).selectedFields vessel crewSelections)) _ _ _
  rw [selectedFields_crew]
  exact .cons rfl h settled (.cons rfl (.leaf rfl) rfl (.cons rfl (.failed rfl) rfl (.nil _ _)))

def mate : Json := .object [("name", .string "mate")]

/-- Two are in the crew, the mate and somebody before. -/
def listed (first : Json) : ResolverResult Empty Empty := .ok (.json (.array [first, mate]))

def listedPlace (first : Place) : Place :=
  .list
    [(.index 0, .named "User" false, first),
      (.index 1, .named "User" false, .object
        [(.key "name", .named "String" true, .leaf (.string "mate"))])]

theorem listed_derivation {first : Json} {place : Place}
    (h : PlaceDerivation (crewEnvironment (listed first)) (crewInfo (listed first))
      [.key "crew", .index 0] (.named "User" false) (.ok (.json first)) () place ()) :
    RunDerivation (crewEnvironment (listed first)) vessel ()
      (crewRecord (listedPlace place)) () := by
  have ⟨value, settled⟩ : ∃ value, Slot.value? (.named "User" false, place) = some value :=
    Slot.exists_value? rfl
  refine crew_derivation (.list rfl (.cons rfl h settled (.cons rfl (.object rfl ?_) rfl
    (.nil _ _))))
  change ChildrenDerivation _ _ (Environment.fieldsOf _ _ _ _
    ((crewEnvironment _).selectedFields user [.field nameHead []])) _ _ _
  rw [selectedFields_name rfl]
  exact .cons rfl (.leaf rfl) rfl (.nil _ _)

def nobody : Json := .object [("name", .null)]

def nobodyPlace : Place :=
  .object [(.key "name", .named "String" true, .failed (.nullNotAllowed "User" "name") [⟨1, 10⟩])]

theorem nobody_derivation :
    RunDerivation (crewEnvironment (listed nobody)) vessel ()
      (crewRecord (listedPlace nobodyPlace)) () := by
  refine listed_derivation (.object rfl ?_)
  change ChildrenDerivation _ _ (Environment.fieldsOf _ _ _ _
    ((crewEnvironment _).selectedFields user [.field nameHead []])) _ _ _
  rw [selectedFields_name rfl]
  exact .stop rfl (.failed rfl) rfl

theorem vacant_derivation :
    RunDerivation (crewEnvironment (listed .null)) vessel () (crewRecord (listedPlace .null)) () :=
  listed_derivation (.null rfl)

/-- The answer of a resolver that knows no crew. -/
def unknown : ResolverResult Empty Empty := .ok (.json .null)

theorem unknown_derivation :
    RunDerivation (crewEnvironment unknown) vessel () (crewRecord .null) () :=
  crew_derivation (.null rfl)

theorem crew_answer {answer : ResolverResult Empty Empty} {record : Slot}
    (h : RunDerivation (crewEnvironment answer) vessel () record ()) :
    ∃ depth response, crewRequest.executeWithin depth (manned answer) service () =
      some (.ok response, ()) := by
  obtain ⟨depth, h⟩ :=
    (Request.executeWithin_iff _ _ _).mpr ⟨_, _, _, prepare_crew answer, h, rfl⟩
  exact ⟨depth, _, h⟩

/-- The crew may be null, and so may each of it. -/
theorem nullable_crew {indices : List Nat}
    (nullable : crewField.type.NullableItem indices) :
    ∀ env type, crewRequest.prepare (manned (listed nobody)) service = .ok (env, type) →
      ∀ pending resolved middle, Asks env type () [.key "crew"] pending resolved middle →
        pending.type.NullableItem indices := by
  intro env type hprepare pending resolved middle hasks
  cases (prepare_crew (listed nobody)).symm.trans hprepare
  obtain ⟨place, next, hfind, -⟩ := hasks.derivation nobody_derivation
  obtain ⟨htype, -⟩ := Prod.mk.inj (Option.some.inj hfind)
  rwa [← htype]

theorem listed_differ (first first' : Json) :
    DifferOnlyAt service service [0] (listed first) (listed first') := by
  refine .inr ⟨_, _, _, _, rfl, rfl, rfl, rfl, rfl, fun position item item' hitem hitem' => ?_⟩
  cases position with
  | zero => exact fun _ _ => trivial
  | succ position =>
      simp only [Nat.succ_ne_zero, ite_false]
      cases hitem.symm.trans hitem'
      exact fun _ _ => rfl

/-- One of the crew without a name, nobody in the place, and no crew at all make no difference
outside of the place and of the crew: to the mate, to the name of the type, and to the error of the
last field. -/
theorem crew_isolation :
    ∃ depth response,
      crewRequest.executeWithin depth (manned (listed nobody)) service () =
        some (.ok response, ()) ∧
      (∃ depth' response',
        crewRequest.executeWithin depth' (manned (listed .null)) service () =
          some (.ok response', ()) ∧
        response.data.toJson.hide [.key "crew", .index 0] =
          response'.data.toJson.hide [.key "crew", .index 0] ∧
        (∀ other, ¬ [.key "crew", .index 0] <+: other → ¬ other <+: [.key "crew", .index 0] →
          response.data.toJson.at? other = response'.data.toJson.at? other) ∧
        (response.errors.filter fun error => ¬ [.key "crew", .index 0] <+: error.path) =
          response'.errors.filter fun error => ¬ [.key "crew", .index 0] <+: error.path) ∧
      ∃ depth' response',
        crewRequest.executeWithin depth' (manned unknown) service () =
          some (.ok response', ()) ∧
        response.data.toJson.hide [.key "crew"] = response'.data.toJson.hide [.key "crew"] ∧
        (∀ other, ¬ [.key "crew"] <+: other → ¬ other <+: [.key "crew"] →
          response.data.toJson.at? other = response'.data.toJson.at? other) ∧
        (response.errors.filter fun error => ¬ [.key "crew"] <+: error.path) =
          response'.errors.filter fun error => ¬ [.key "crew"] <+: error.path := by
  obtain ⟨depth, response, h⟩ := crew_answer nobody_derivation
  obtain ⟨depthItem, responseItem, hitem⟩ := crew_answer vacant_derivation
  obtain ⟨depthField, responseField, hfield⟩ := crew_answer unknown_derivation
  refine ⟨depth, response, h, ⟨depthItem, responseItem, hitem, ?_⟩,
    ⟨depthField, responseField, hfield, ?_⟩⟩
  · obtain ⟨_, heq, hsame⟩ := Request.isolation (requestsAgree_crew (listed_differ nobody .null))
      (nullable_crew rfl) h hitem
    cases heq
    exact hsame
  · have only : DifferOnlyAt service service [] (listed nobody) unknown := trivial
    obtain ⟨_, heq, hsame⟩ :=
      Request.isolation (requestsAgree_crew only) (nullable_crew rfl) h hfield
    cases heq
    exact hsame

end Sample

end GraphQL
