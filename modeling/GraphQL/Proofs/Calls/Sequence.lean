import GraphQL.Proofs.Calls.Notes
import GraphQL.Proofs.Execution.Order

/-! # The sequence of calls

The resolvers of a run are called in the order of its places. What is called for one place and for
those below it stands together in the sequence of calls, and nothing else stands between. -/

namespace GraphQL

variable {State Object Item : Type}

/-- The run executes selections on an object of a type at `path`. -/
inductive Executes (env : Environment State Object Item) (type : ObjectType) (state : State) :
    Path → ObjectType → Resolved Object Item → List Selection → Prop
  | root : Executes env type state [] type env.request.root env.request.operation.selections
  | object {path pending resolved middle object source after}
      (asks : Asks env type state path pending resolved middle)
      (found : (Completion.examine env pending.info pending.type resolved).run middle =
        (.object object source, after)) :
      Executes env type state path object source pending.info.group.selections

/-- A call is for a field that is selected on an object of a recorded run, at a place for which the
run asks. -/
structure Sourced (env : Environment State Object Item) (type : ObjectType)
    (start : State × CallLog Object Item)
    (call : FieldCall Object Item (ResolveInfo Object Item)) : Prop where
  selected : ∃ path object source selections,
    Executes env.recorded type start path object source selections ∧
      ∃ field ∈ env.selectedFields object selections,
        call ∈ env.resolverCalls (env.infoOf path object field.2 field.1) source
  asked : ∃ pending resolved middle,
    Asks env.recorded type start call.info.path pending resolved middle

/-- Asking for the value of a pending place notes these calls of resolvers: one at most, and for
this place. -/
structure Pending.Notes (env : Environment State Object Item) (path : Path)
    (pending : Pending (State × CallLog Object Item) Object Item)
    (own : List (FieldCall Object Item (ResolveInfo Object Item))) : Prop where
  fields : ∀ state, (pending.resolve.run state).2.2.fields = state.2.fields ++ own
  length : own.length ≤ 1
  path : ∀ call ∈ own, call.info.path = path ++ [pending.segment]

/-- A place lies strictly below another one. -/
def Path.Below (path lower : Path) : Prop := ∃ segment, path ++ [segment] <+: lower

/-- A place is one of several that are pending below `path`, or lies below one of them. -/
def Pending.Cover (path : Path) (pendings : List (Pending State Object Item)) (lower : Path) :
    Prop :=
  ∃ pending ∈ pendings, path ++ [pending.segment] <+: lower

/-- Between two states of a recorded run these calls of resolvers are noted, depth first, and all of
them for places in some part of the response. -/
structure Adds (env : Environment State Object Item) (type : ObjectType)
    (start : State × CallLog Object Item) (part : Path → Prop)
    (before after : State × CallLog Object Item)
    (calls : List (FieldCall Object Item (ResolveInfo Object Item))) : Prop where
  fields : after.2.fields = before.2.fields ++ calls
  within : ∀ call ∈ calls, part call.info.path
  ordered : calls.Pairwise fun call later =>
    DepthFirst env.recorded type start call.info.path later.info.path ∧
      call.info.path ≠ later.info.path
  sourced : ∀ call ∈ calls, Sourced env type start call

theorem pairwise_of_length_le_one {α : Type} {related : α → α → Prop} {list : List α}
    (h : list.length ≤ 1) : list.Pairwise related := by
  cases list with
  | nil => exact .nil
  | cons x rest =>
      obtain rfl : rest = [] := by simpa using h
      exact List.pairwise_singleton _ _

section

variable {env : Environment State Object Item} {type : ObjectType}
  {start : State × CallLog Object Item}

/-! ## What is noted for one place -/

theorem Pending.notes_fields (path : Path) (object : ObjectType) (source : Resolved Object Item)
    (field : FieldGroup × FieldDefinition) :
    Pending.Notes env path
      { segment := .key field.1.key
        type := field.2.type
        info := env.recorded.infoOf path object field.2 field.1
        resolve :=
          env.recorded.resolution (env.recorded.infoOf path object field.2 field.1) source }
      (env.resolverCalls (env.infoOf path object field.2 field.1) source) where
  fields := env.fields_resolution _ _
  length := env.length_resolverCalls _ _
  path call hmem := by
    rw [(env.mem_resolverCalls hmem).1]
    rfl

theorem Pending.notes_item {path : Path} {info : ResolveInfo Object Item} {item : TypeRef}
    {items : List (StateM (State × CallLog Object Item) (ResolverResult Object Item))}
    (h : ∀ item ∈ items, Quiet item) {position : Nat}
    {pending : Pending (State × CallLog Object Item) Object Item}
    (hmem : pending ∈ Completion.itemsOf info item position items) :
    pending.Notes env path [] := by
  induction items generalizing position with
  | nil => cases hmem
  | cons first rest ih =>
      obtain ⟨hfirst, hrest⟩ := List.forall_mem_cons.mp h
      rcases List.mem_cons.mp hmem with rfl | hmem
      · refine ⟨fun state => ?_, Nat.zero_le 1, by simp⟩
        rw [List.append_nil]
        exact hfirst.map (fun answer => answer.mapError Failure.resolver) state
      · exact ih hrest hmem

/-- Every place that is pending notes its calls, which come from a selected field. -/
theorem Reaches.notes {path : Path}
    {pendings : List (Pending (State × CallLog Object Item) Object Item)}
    {before : State × CallLog Object Item}
    (reached : Reaches env.recorded type start path pendings before) :
    ∀ pending ∈ pendings, ∃ own, pending.Notes env path own ∧
      ∀ call ∈ own, ∃ path object source selections,
        Executes env.recorded type start path object source selections ∧
          ∃ field ∈ env.selectedFields object selections,
            call ∈ env.resolverCalls (env.infoOf path object field.2 field.1) source := by
  have hfields {path object source selections}
      (executes : Executes env.recorded type start path object source selections) :
      ∀ pending ∈ env.recorded.fieldsOf path object source
          (env.recorded.selectedFields object selections),
        ∃ own, pending.Notes env path own ∧
          ∀ call ∈ own, ∃ path object source selections,
            Executes env.recorded type start path object source selections ∧
              ∃ field ∈ env.selectedFields object selections,
                call ∈ env.resolverCalls (env.infoOf path object field.2 field.1) source := by
    intro pending hmem
    obtain ⟨field, hfield, rfl⟩ := List.mem_map.mp hmem
    exact ⟨_, Pending.notes_fields path object source field, fun call hcall =>
      ⟨path, object, source, selections, executes, field, hfield, hcall⟩⟩
  induction reached with
  | root => exact hfields .root
  | next _ _ _ _ ih => exact fun pending hmem => ih pending (List.mem_cons_of_mem _ hmem)
  | items _ _ found =>
      obtain ⟨value, hitems⟩ := Completion.items_of_examine found
      exact fun pending hmem =>
        ⟨[], Pending.notes_item (fun item hitem => Quiet.item hitems hitem) hmem, by simp⟩
  | fields reached call found => exact hfields (.object (.intro reached call) found)

/-! ## What is noted for a place and those below it -/

namespace Adds

variable {path : Path} {pending : Pending (State × CallLog Object Item) Object Item}
  {rest : List (Pending (State × CallLog Object Item) Object Item)}
  {before middle after : State × CallLog Object Item}
  {calls later : List (FieldCall Object Item (ResolveInfo Object Item))}

theorem nothing (part : Path → Prop) (h : after.2.fields = before.2.fields) :
    Adds env type start part before after [] :=
  ⟨by simpa using h, by simp, .nil, by simp⟩

/-- The call for a place comes before the calls below it. -/
theorem own {resolved : Except Failure (Resolved Object Item)}
    (reached : Reaches env.recorded type start path (pending :: rest) before)
    (call : pending.resolve.run before = (resolved, middle))
    (below : Adds env type start (path ++ [pending.segment]).Below middle after calls) :
    ∃ own, pending.Notes env path own ∧
      Adds env type start (path ++ [pending.segment] <+: ·) before after (own ++ calls) := by
  obtain ⟨own, notes, hselected⟩ := reached.notes pending List.mem_cons_self
  refine ⟨own, notes, ?_, ?_, ?_, ?_⟩
  · have hown := notes.fields before
    rw [call] at hown
    rw [below.fields, hown, List.append_assoc]
  · intro call hmem
    rcases List.mem_append.mp hmem with hmem | hmem
    · exact (notes.path call hmem) ▸ List.prefix_rfl
    · obtain ⟨segment, hsegment⟩ := below.within call hmem
      exact (List.prefix_append _ _).trans hsegment
  · refine List.pairwise_append.mpr ⟨?_, below.ordered, ?_⟩
    · exact pairwise_of_length_le_one notes.length
    · intro call hmem lower hlower
      obtain ⟨segment, hsegment⟩ := below.within lower hlower
      rw [notes.path call hmem]
      refine ⟨.inl ((List.prefix_append _ _).trans hsegment), ?_⟩
      intro heq
      simpa [← heq] using hsegment.length_le
  · intro call' hmem
    rcases List.mem_append.mp hmem with hmem | hmem
    · refine ⟨hselected call' hmem, ?_⟩
      rw [notes.path call' hmem]
      exact ⟨pending, resolved, middle, .intro reached call⟩
    · exact below.sourced call' hmem

/-- The calls for a place, and those below it, come before the calls for later places. -/
theorem append
    (reached : Reaches env.recorded type start path (pending :: rest) before)
    (first : Adds env type start (path ++ [pending.segment] <+: ·) before middle calls)
    (second : Adds env type start (Pending.Cover path rest) middle after later) :
    Adds env type start (Pending.Cover path (pending :: rest)) before after (calls ++ later) := by
  refine ⟨?_, ?_, ?_, ?_⟩
  · rw [second.fields, first.fields, List.append_assoc]
  · intro call hmem
    rcases List.mem_append.mp hmem with hmem | hmem
    · exact ⟨pending, List.mem_cons_self, first.within call hmem⟩
    · obtain ⟨other, hother, habove⟩ := second.within call hmem
      exact ⟨other, List.mem_cons_of_mem _ hother, habove⟩
  · refine List.pairwise_append.mpr ⟨first.ordered, second.ordered, ?_⟩
    intro call hmem call' hmem'
    obtain ⟨lower, hlower⟩ := first.within call hmem
    obtain ⟨other, hother, lower', hlower'⟩ := second.within call' hmem'
    have hbefore : RunsBefore env.recorded type start call.info.path call'.info.path := by
      refine ⟨path, pending.segment, other.segment, lower, lower', pending :: rest, before, ?_, ?_,
        reached, ?_⟩
      · simpa using hlower.symm
      · simpa using hlower'.symm
      · exact List.cons_sublist_cons.mpr
          (List.singleton_sublist.mpr (List.mem_map.mpr ⟨other, hother, rfl⟩))
    exact ⟨.inr hbefore, fun heq => hbefore.apart.1 (heq ▸ List.prefix_rfl)⟩
  · intro call hmem
    rcases List.mem_append.mp hmem with hmem | hmem
    · exact first.sourced call hmem
    · exact second.sourced call hmem

/-- The same calls for a place are calls for one of several. -/
theorem head (h : Adds env type start (path ++ [pending.segment] <+: ·) before after calls) :
    Adds env type start (Pending.Cover path (pending :: rest)) before after calls :=
  { h with within := fun call hmem => ⟨pending, List.mem_cons_self, h.within call hmem⟩ }

/-- Calls for several places below another one are calls below it. -/
theorem below {pendings : List (Pending (State × CallLog Object Item) Object Item)}
    (h : Adds env type start (Pending.Cover path pendings) middle after calls)
    (quiet : middle.2.fields = before.2.fields) :
    Adds env type start path.Below before after calls := by
  refine { h with fields := quiet ▸ h.fields, within := ?_ }
  intro call hmem
  obtain ⟨other, -, hother⟩ := h.within call hmem
  exact ⟨other.segment, hother⟩

end Adds

mutual

/-- Completing a place notes calls for the places below it. -/
theorem PlaceDerivation.adds {path : Path}
    {pending : Pending (State × CallLog Object Item) Object Item} {place : Place}
    {resolved : Except Failure (Resolved Object Item)}
    {middle after : State × CallLog Object Item}
    (h : PlaceDerivation env.recorded pending.info path pending.type resolved middle place after)
    (asks : Asks env.recorded type start path pending resolved middle) :
    ∃ calls, Adds env type start path.Below middle after calls := by
  cases h with
  | failed found | null found | leaf found => exact ⟨[], .nothing _ (Quiet.found found)⟩
  | list found below =>
      obtain ⟨reached, call⟩ := asks
      obtain ⟨calls, hcalls⟩ := below.adds (.items reached call found)
      exact ⟨calls, hcalls.below (Quiet.found found)⟩
  | object found below =>
      obtain ⟨reached, call⟩ := asks
      obtain ⟨calls, hcalls⟩ := below.adds (.fields reached call found)
      exact ⟨calls, hcalls.below (Quiet.found found)⟩

/-- Filling pending places notes calls for them and for the places below them. -/
theorem ChildrenDerivation.adds {path : Path}
    {pendings : List (Pending (State × CallLog Object Item) Object Item)}
    {before after : State × CallLog Object Item} {children : List (PathSegment × Slot)}
    (h : ChildrenDerivation env.recorded path pendings before children after)
    (reached : Reaches env.recorded type start path pendings before) :
    ∃ calls, Adds env type start (Pending.Cover path pendings) before after calls := by
  cases h with
  | nil => exact ⟨[], .nothing _ rfl⟩
  | stop call head nulled =>
      obtain ⟨below, hbelow⟩ := head.adds (.intro reached call)
      obtain ⟨own, -, hown⟩ := hbelow.own reached call
      exact ⟨own ++ below, hown.head⟩
  | cons call head settled tail =>
      obtain ⟨below, hbelow⟩ := head.adds (.intro reached call)
      obtain ⟨own, -, hown⟩ := hbelow.own reached call
      obtain ⟨later, hlater⟩ := tail.adds (.next reached call head (by simp [settled]))
      exact ⟨own ++ below ++ later, hown.append reached hlater⟩

end

/-- Filling the first of several pending places notes calls for it and for the places below it. -/
theorem PlaceDerivation.adds_own {path : Path}
    {pending : Pending (State × CallLog Object Item) Object Item}
    {rest : List (Pending (State × CallLog Object Item) Object Item)} {place : Place}
    {resolved : Except Failure (Resolved Object Item)}
    {before middle after : State × CallLog Object Item}
    (h : PlaceDerivation env.recorded pending.info (path ++ [pending.segment]) pending.type resolved
      middle place after)
    (reached : Reaches env.recorded type start path (pending :: rest) before)
    (call : pending.resolve.run before = (resolved, middle)) :
    ∃ calls, Adds env type start (path ++ [pending.segment] <+: ·) before after calls := by
  obtain ⟨below, hbelow⟩ := h.adds (.intro reached call)
  obtain ⟨own, -, hown⟩ := hbelow.own reached call
  exact ⟨own ++ below, hown⟩

end

end GraphQL
