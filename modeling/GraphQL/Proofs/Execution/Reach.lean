import GraphQL.Proofs.Execution.Validity

/-! # What a run reaches

A run reaches places in order, each in the state that the places before it have left behind. The
places it asks for a value are those of its record. -/

namespace GraphQL

variable {State Object Item : Type}

/-! ## One record for each run -/

/-- The first of several pending places is completed. The others after it are completed too, or
left out if it sends a null upwards. -/
theorem ChildrenDerivation.head {env : Environment State Object Item} {path : Path}
    {pending : Pending State Object Item} {rest : List (Pending State Object Item)}
    {before middle next : State} {resolved : Except Failure (Resolved Object Item)}
    {children : List (PathSegment × Slot)}
    (h : ChildrenDerivation env path (pending :: rest) before children next)
    (call : pending.resolve.run before = (resolved, middle)) :
    ∃ place after others, children = (pending.segment, pending.type, place) :: others ∧
      PlaceDerivation env pending.info (path ++ [pending.segment]) pending.type resolved middle
        place after ∧
      ((Slot.value? (pending.type, place)).isSome = true →
        ChildrenDerivation env path rest after others next) ∧
      ((Slot.value? (pending.type, place)).isSome = false → others = [] ∧ next = after) := by
  cases h with
  | stop call' head nulled =>
      cases call'.symm.trans call
      exact ⟨_, _, [], rfl, head, by simp [nulled], fun _ => ⟨rfl, rfl⟩⟩
  | cons call' head settled tail =>
      cases call'.symm.trans call
      exact ⟨_, _, _, rfl, head, fun _ => tail, by simp [settled]⟩

mutual

theorem PlaceDerivation.deterministic {env : Environment State Object Item}
    {info : ResolveInfo Object Item} {path : Path} {type : TypeRef}
    {resolved : Except Failure (Resolved Object Item)} {state next next' : State}
    {place place' : Place} (h : PlaceDerivation env info path type resolved state place next)
    (h' : PlaceDerivation env info path type resolved state place' next') :
    place' = place ∧ next' = next := by
  cases h with
  | failed found | null found | leaf found => exact h'.concludes found
  | list found below | object found below =>
      obtain ⟨children', rfl, below'⟩ := h'.concludes found
      obtain ⟨rfl, rfl⟩ := below.deterministic below'
      exact ⟨rfl, rfl⟩

theorem ChildrenDerivation.deterministic {env : Environment State Object Item} {path : Path}
    {pendings : List (Pending State Object Item)} {state next next' : State}
    {children children' : List (PathSegment × Slot)}
    (h : ChildrenDerivation env path pendings state children next)
    (h' : ChildrenDerivation env path pendings state children' next') :
    children' = children ∧ next' = next := by
  cases h with
  | nil =>
      cases h'
      exact ⟨rfl, rfl⟩
  | stop call head nulled =>
      obtain ⟨place', after', others', rfl, head', -, hothers⟩ := h'.head call
      obtain ⟨rfl, rfl⟩ := head.deterministic head'
      obtain ⟨rfl, rfl⟩ := hothers (by simp [nulled])
      exact ⟨rfl, rfl⟩
  | cons call head settled tail =>
      obtain ⟨place', after', others', rfl, head', hothers, -⟩ := h'.head call
      obtain ⟨rfl, rfl⟩ := head.deterministic head'
      have tail' := hothers (by simp [settled])
      obtain ⟨rfl, rfl⟩ := tail.deterministic tail'
      exact ⟨rfl, rfl⟩

end

theorem RunDerivation.deterministic {env : Environment State Object Item} {type : ObjectType}
    {state next next' : State} {record record' : Slot}
    (h : RunDerivation env type state record next)
    (h' : RunDerivation env type state record' next') : record' = record ∧ next' = next := by
  obtain ⟨below⟩ := h
  obtain ⟨below'⟩ := h'
  obtain ⟨rfl, rfl⟩ := below.deterministic below'
  exact ⟨rfl, rfl⟩

/-! ## Places in the order of the run -/

/-- The run comes to the places that are pending below `path`, in this state. -/
inductive Reaches (env : Environment State Object Item) (type : ObjectType) (state : State) :
    Path → List (Pending State Object Item) → State → Prop
  | root :
      Reaches env type state []
        (env.fieldsOf [] type env.request.root
          (env.selectedFields type env.request.operation.selections)) state
  | next {path pending rest before resolved middle place after}
      (reached : Reaches env type state path (pending :: rest) before)
      (call : pending.resolve.run before = (resolved, middle))
      (head : PlaceDerivation env pending.info (path ++ [pending.segment]) pending.type resolved
        middle place after)
      (settled : (Slot.value? (pending.type, place)).isSome) :
      Reaches env type state path rest after
  | items {path pending rest before resolved middle item items after}
      (reached : Reaches env type state path (pending :: rest) before)
      (call : pending.resolve.run before = (resolved, middle))
      (found : (Completion.examine env pending.info pending.type resolved).run middle =
        (.list item items, after)) :
      Reaches env type state (path ++ [pending.segment])
        (Completion.itemsOf pending.info item 0 items) after
  | fields {path pending rest before resolved middle object source after}
      (reached : Reaches env type state path (pending :: rest) before)
      (call : pending.resolve.run before = (resolved, middle))
      (found : (Completion.examine env pending.info pending.type resolved).run middle =
        (.object object source, after)) :
      Reaches env type state (path ++ [pending.segment])
        (env.fieldsOf (path ++ [pending.segment]) object source
          (env.selectedFields object pending.info.group.selections)) after

/-- The run asks for the value of a place and goes on with this answer and state. -/
inductive Asks (env : Environment State Object Item) (type : ObjectType) (state : State) :
    Path → Pending State Object Item → Except Failure (Resolved Object Item) → State → Prop
  | intro {path pending rest before resolved middle}
      (reached : Reaches env type state path (pending :: rest) before)
      (call : pending.resolve.run before = (resolved, middle)) :
      Asks env type state (path ++ [pending.segment]) pending resolved middle

/-- The run fills a place with what comes of the answer. -/
inductive Fills (env : Environment State Object Item) (type : ObjectType) (state : State) :
    Path → Slot → Prop
  | intro {path pending resolved middle place next}
      (asks : Asks env type state path pending resolved middle)
      (derivation : PlaceDerivation env pending.info path pending.type resolved middle place
        next) :
      Fills env type state path (pending.type, place)

section

variable {env : Environment State Object Item} {type : ObjectType} {state : State}

theorem ChildrenDerivation.fills {path : Path} :
    ∀ {pendings : List (Pending State Object Item)} {before next : State}
      {children : List (PathSegment × Slot)},
      ChildrenDerivation env path pendings before children next →
        Reaches env type state path pendings before →
          ∀ child ∈ children, Fills env type state (path ++ [child.1]) child.2
  | _, _, _, _, .nil _ _, _ => by simp
  | _, _, _, _, .stop call head _, reached => by
      simpa using Fills.intro (.intro reached call) head
  | _, _, _, _, .cons call head settled tail, reached => by
      intro child hmem
      rcases List.mem_cons.mp hmem with rfl | hmem
      · exact .intro (.intro reached call) head
      · exact tail.fills (.next reached call head (by simp [settled])) child hmem

theorem Fills.child {path : Path} {slot : Slot} (h : Fills env type state path slot)
    {child : PathSegment × Slot} (hmem : child ∈ slot.2.children) :
    Fills env type state (path ++ [child.1]) child.2 := by
  obtain ⟨asks, derivation⟩ := h
  obtain ⟨reached, call⟩ := asks
  cases derivation with
  | failed | null | leaf => cases hmem
  | list found below => exact below.fills (.items reached call found) child hmem
  | object found below => exact below.fills (.fields reached call found) child hmem

theorem Fills.find? {path rest : Path} {slot lower : Slot} (h : Fills env type state path slot)
    (hfind : slot.find? rest = some lower) : Fills env type state (path ++ rest) lower := by
  induction rest generalizing path slot with
  | nil =>
      obtain rfl := Option.some.inj hfind
      simpa using h
  | cons segment rest ih =>
      obtain ⟨next, hnext, hlower⟩ := Option.bind_eq_some_iff.mp hfind
      simpa using ih (h.child (Entries.mem_of_get? hnext)) hlower

variable {record : Slot} {last : State}

/-- Every place of the record below the root was filled by the run. -/
theorem RunDerivation.fills (h : RunDerivation env type state record last) {segment : PathSegment}
    {rest : Path} {slot : Slot} (hfind : record.find? (segment :: rest) = some slot) :
    Fills env type state (segment :: rest) slot := by
  obtain ⟨below⟩ := h
  obtain ⟨child, hchild, hslot⟩ := Option.bind_eq_some_iff.mp hfind
  simpa using (below.fills .root _ (Entries.mem_of_get? hchild)).find? hslot

/-- What is pending at some point of the run becomes the later part of a list or an object of the
record. -/
theorem Reaches.children (h : RunDerivation env type state record last) {path : Path}
    {pendings : List (Pending State Object Item)} {before : State}
    (reached : Reaches env type state path pendings before) :
    ∃ parent earlier children next, record.find? path = some parent ∧
      parent.2.children = earlier ++ children ∧
      ChildrenDerivation env path pendings before children next := by
  have hvalid := h.valid
  induction reached with
  | root =>
      obtain ⟨below⟩ := h
      exact ⟨_, [], _, _, rfl, rfl, below⟩
  | next _ call head settled ih =>
      obtain ⟨parent, earlier, children, next, hparent, hchildren, hderivation⟩ := ih
      obtain ⟨place, after, others, rfl, hplace, hothers, -⟩ := hderivation.head call
      obtain ⟨rfl, rfl⟩ := head.deterministic hplace
      exact ⟨parent, earlier ++ [_], others, next, hparent, by simpa using hchildren,
        hothers settled⟩
  | items _ call found ih | fields _ call found ih =>
      obtain ⟨parent, earlier, children, next, hparent, hchildren, hderivation⟩ := ih
      obtain ⟨place, after, others, rfl, hplace, -⟩ := hderivation.head call
      have hfind := hvalid.find?_later hparent hchildren
      obtain ⟨children, rfl, below⟩ := hplace.concludes found
      exact ⟨_, [], children, _, hfind, rfl, below⟩

/-- Wherever the run asks for a value, its record has what comes of the answer. -/
theorem Asks.derivation (h : RunDerivation env type state record last) {path : Path}
    {pending : Pending State Object Item} {resolved : Except Failure (Resolved Object Item)}
    {middle : State} (asks : Asks env type state path pending resolved middle) :
    ∃ place next, record.find? path = some (pending.type, place) ∧
      PlaceDerivation env pending.info path pending.type resolved middle place next := by
  obtain ⟨reached, call⟩ := asks
  obtain ⟨parent, earlier, children, _, hparent, hchildren, hderivation⟩ := reached.children h
  obtain ⟨place, after, others, rfl, hplace, -⟩ := hderivation.head call
  exact ⟨place, after, h.valid.find?_later hparent hchildren, hplace⟩

theorem Fills.recorded (h : RunDerivation env type state record last) {path : Path} {slot : Slot}
    (fills : Fills env type state path slot) : record.find? path = some slot := by
  obtain ⟨asks, derivation⟩ := fills
  obtain ⟨place, next, hfind, hplace⟩ := asks.derivation h
  obtain ⟨rfl, -⟩ := hplace.deterministic derivation
  exact hfind

/-- The places of a record below the root are those that the run fills. -/
theorem RunDerivation.fills_iff (h : RunDerivation env type state record last) {path : Path}
    (hpath : path ≠ []) (slot : Slot) :
    record.find? path = some slot ↔ Fills env type state path slot := by
  cases path with
  | nil => contradiction
  | cons segment rest => exact ⟨h.fills, Fills.recorded h⟩

end

end GraphQL
