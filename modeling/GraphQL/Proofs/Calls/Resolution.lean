import GraphQL.Proofs.Calls.Sequence

/-! # Fields are resolved once, depth first

The fields of an object are resolved in the order in which they are collected, up to the first that
sends a null upwards: once each, whatever number of field nodes asks for them. -/

namespace GraphQL

variable {State Object Item : Type}

/-! ## The calls before and after -/

section

variable {env : Environment State Object Item} {type : ObjectType} {state : State}
  {path : Path} {pending : Pending (State × CallLog Object Item) Object Item}
  {rest pendings : List (Pending (State × CallLog Object Item) Object Item)}
  {record : Slot} {before middle after last : State × CallLog Object Item}

theorem Pending.not_cover_of_head {lower : Path}
    (distinct : ((pending :: rest).map Pending.segment).Nodup)
    (h : path ++ [pending.segment] <+: lower) : ¬ Pending.Cover path rest lower := by
  rintro ⟨other, hmem, hother⟩
  have hlength : (path ++ [pending.segment]).length = (path ++ [other.segment]).length := by simp
  have heq := (List.prefix_of_prefix_length_le h hother (Nat.le_of_eq hlength)).eq_of_length hlength
  have hsegment : pending.segment = other.segment := by simpa using heq
  exact (List.nodup_cons.mp distinct).1 (hsegment ▸ List.mem_map_of_mem hmem)

theorem Pending.Cover.cons {lower : Path} (h : Pending.Cover path rest lower) :
    Pending.Cover path (pending :: rest) lower := by
  obtain ⟨other, hmem, hother⟩ := h
  exact ⟨other, List.mem_cons_of_mem _ hmem, hother⟩

/-- After the first of several pending places, calls are noted for the others only. -/
theorem ChildrenDerivation.head_adds {start : State × CallLog Object Item}
    {resolved : Except Failure (Resolved Object Item)} {children : List (PathSegment × Slot)}
    (h : ChildrenDerivation env.recorded path (pending :: rest) before children after)
    (reached : Reaches env.recorded type start path (pending :: rest) before)
    (call : pending.resolve.run before = (resolved, middle)) :
    ∃ place next more,
      PlaceDerivation env.recorded pending.info (path ++ [pending.segment]) pending.type resolved
        middle place next ∧
      Adds env type start (Pending.Cover path rest) next after more := by
  obtain ⟨place, next, others, -, hplace, hsettled, hnulled⟩ := h.head call
  cases hvalue : (Slot.value? (pending.type, place)).isSome with
  | true =>
      obtain ⟨more, hmore⟩ := (hsettled hvalue).adds (.next reached call hplace hvalue)
      exact ⟨place, next, more, hplace, hmore⟩
  | false =>
      obtain ⟨-, rfl⟩ := hnulled hvalue
      exact ⟨place, after, [], hplace, .nothing _ rfl⟩

/-- Calls that are noted neither for pending places nor below them. -/
def Outside (path : Path) (pendings : List (Pending (State × CallLog Object Item) Object Item))
    (calls : List (FieldCall Object Item (ResolveInfo Object Item))) : Prop :=
  ∀ call ∈ calls, ¬ Pending.Cover path pendings call.info.path

/-- Once the first of several pending places has been filled, its calls lie outside the others. -/
theorem Outside.after_first {start : State × CallLog Object Item}
    {calls later : List (FieldCall Object Item (ResolveInfo Object Item))}
    (outside : Outside path (pending :: rest) (before.2.fields ++ later))
    (distinct : ((pending :: rest).map Pending.segment).Nodup)
    (first : Adds env type start (path ++ [pending.segment] <+: ·) before after calls) :
    Outside path rest (after.2.fields ++ later) := by
  intro call hmem hcover
  rw [first.fields, List.append_assoc, List.mem_append, List.mem_append] at hmem
  rcases hmem with hmem | hmem | hmem
  · exact outside call (List.mem_append_left _ hmem) hcover.cons
  · exact Pending.not_cover_of_head distinct (first.within call hmem) hcover
  · exact outside call (List.mem_append_right _ hmem) hcover.cons

/-- The calls for the first of several pending places, and for those below it, stand together. -/
theorem ChildrenDerivation.head_interval {start : State × CallLog Object Item}
    {resolved : Except Failure (Resolved Object Item)} {children : List (PathSegment × Slot)}
    {later : List (FieldCall Object Item (ResolveInfo Object Item))}
    (h : ChildrenDerivation env.recorded path (pending :: rest) before children after)
    (reached : Reaches env.recorded type start path (pending :: rest) before)
    (call : pending.resolve.run before = (resolved, middle))
    (hlast : last.2.fields = after.2.fields ++ later)
    (outside : Outside path (pending :: rest) (before.2.fields ++ later)) :
    ∃ place next others,
      PlaceDerivation env.recorded pending.info (path ++ [pending.segment]) pending.type resolved
        middle place next ∧
      last.2.fields = next.2.fields ++ others ∧
      ∀ call ∈ before.2.fields ++ others, ¬ path ++ [pending.segment] <+: call.info.path := by
  obtain ⟨place, next, more, hplace, hmore⟩ := h.head_adds reached call
  refine ⟨place, next, more ++ later, hplace, ?_, ?_⟩
  · rw [hlast, hmore.fields, List.append_assoc]
  · intro call hmem habove
    rw [List.mem_append, List.mem_append] at hmem
    rcases hmem with hmem | hmem | hmem
    · exact outside call (List.mem_append_left _ hmem) ⟨pending, List.mem_cons_self, habove⟩
    · exact Pending.not_cover_of_head reached.nodup habove (hmore.within call hmem)
    · exact outside call (List.mem_append_right _ hmem) ⟨pending, List.mem_cons_self, habove⟩

/-- The call for a place itself is not one for the places below it. -/
theorem Reaches.outside_below {start : State × CallLog Object Item}
    {resolved : Except Failure (Resolved Object Item)}
    {inner : List (Pending (State × CallLog Object Item) Object Item)}
    {others : List (FieldCall Object Item (ResolveInfo Object Item))}
    (reached : Reaches env.recorded type start path (pending :: rest) before)
    (call : pending.resolve.run before = (resolved, middle))
    (quiet : after.2.fields = middle.2.fields)
    (apart : ∀ call ∈ before.2.fields ++ others,
      ¬ path ++ [pending.segment] <+: call.info.path) :
    Outside (path ++ [pending.segment]) inner (after.2.fields ++ others) := by
  obtain ⟨own, notes, -⟩ := reached.notes pending List.mem_cons_self
  have hown := notes.fields before
  rw [call] at hown
  rintro call hmem ⟨other, -, hother⟩
  rw [quiet, hown, List.append_assoc, List.mem_append, List.mem_append] at hmem
  have habove := (List.prefix_append (path ++ [pending.segment]) [other.segment]).trans hother
  rcases hmem with hmem | hmem | hmem
  · exact apart call (List.mem_append_left _ hmem) habove
  · simpa [notes.path call hmem] using hother.length_le
  · exact apart call (List.mem_append_right _ hmem) habove

/-- The calls for places that are pending at some point of the run, and for those below them, stand
between those noted before that point and some later ones. -/
theorem Reaches.interval (h : RunDerivation env.recorded type (state, []) record last)
    (reached : Reaches env.recorded type (state, []) path pendings before) :
    ∃ children after later,
      ChildrenDerivation env.recorded path pendings before children after ∧
      last.2.fields = after.2.fields ++ later ∧
      Outside path pendings (before.2.fields ++ later) := by
  induction reached with
  | root =>
      obtain ⟨below⟩ := h
      exact ⟨_, _, [], below, (List.append_nil _).symm, by simp [Outside, CallLog.fields]⟩
  | next reached call head settled ih =>
      obtain ⟨children, after, later, hchildren, hlast, outside⟩ := ih
      obtain ⟨place, next, others, -, hplace, htail, -⟩ := hchildren.head call
      obtain ⟨rfl, rfl⟩ := head.deterministic hplace
      obtain ⟨calls, hcalls⟩ := head.adds_own reached call
      exact ⟨others, after, later, htail settled, hlast, outside.after_first reached.nodup hcalls⟩
  | items reached call found ih | fields reached call found ih =>
      obtain ⟨children, after, later, hchildren, hlast, outside⟩ := ih
      obtain ⟨place, next, others, hplace, hlast, apart⟩ :=
        hchildren.head_interval reached call hlast outside
      obtain ⟨children, rfl, below⟩ := hplace.concludes found
      exact ⟨children, next, others, below, hlast,
        reached.outside_below call (Quiet.found found) apart⟩

/-- All calls of a run for one place are those that asking for its value notes. -/
theorem Reaches.filter_calls (h : RunDerivation env.recorded type (state, []) record last)
    (reached : Reaches env.recorded type (state, []) path (pending :: rest) before)
    {own : List (FieldCall Object Item (ResolveInfo Object Item))}
    (notes : pending.Notes env path own) :
    last.2.fields.filter (fun call => call.info.path = path ++ [pending.segment]) = own := by
  obtain ⟨children, after, later, hchildren, hlast, outside⟩ := reached.interval h
  obtain ⟨place, next, others, hplace, hlast, apart⟩ :=
    hchildren.head_interval reached rfl hlast outside
  obtain ⟨below, hbelow⟩ := hplace.adds (.intro reached rfl)
  have hfields : last.2.fields = before.2.fields ++ own ++ below ++ others := by
    rw [hlast, hbelow.fields, ← notes.fields before]
    rfl
  have hnone (calls : List (FieldCall Object Item (ResolveInfo Object Item)))
      (hne : ∀ call ∈ calls, call.info.path ≠ path ++ [pending.segment]) :
      calls.filter (fun call => call.info.path = path ++ [pending.segment]) = [] := by
    simpa using hne
  -- All other calls are for places elsewhere, or for longer paths.
  have hbefore := hnone before.2.fields fun call hmem heq =>
    apart call (List.mem_append_left _ hmem) (heq ▸ List.prefix_rfl)
  have hothers := hnone others fun call hmem heq =>
    apart call (List.mem_append_right _ hmem) (heq ▸ List.prefix_rfl)
  have hlower := hnone below fun call hmem heq => by
    obtain ⟨segment, hsegment⟩ := hbelow.within call hmem
    simpa [heq] using hsegment.length_le
  have hown : own.filter (fun call => call.info.path = path ++ [pending.segment]) = own :=
    List.filter_eq_self.mpr fun call hmem => by simpa using notes.path call hmem
  simp only [hfields, List.filter_append, hbefore, hown, hlower, hothers, List.nil_append,
    List.append_nil]

end

/-! ## The fields of an object -/

/-- The fields of an object are processed in order, up to and including the first that sends a null
upwards. For each of them the resolvers called in the whole run are those that its first node calls
for; for the fields after it, and for what lies below them, none is called. -/
inductive ResolvesFields (env : Environment State Object Item) (type : ObjectType)
    (start : State × CallLog Object Item)
    (calls : List (FieldCall Object Item (ResolveInfo Object Item))) (path : Path)
    (object : ObjectType) (source : Resolved Object Item) :
    List (FieldGroup × FieldDefinition) → Prop
  | nil : ResolvesFields env type start calls path object source []
  | stop {group definition rest slot}
      (fills : Fills env.recorded type start (path ++ [.key group.key]) slot)
      (resolved : calls.filter (fun call => call.info.path = path ++ [.key group.key]) =
        env.resolverCalls (env.infoOf path object definition group) source)
      (nulled : slot.value? = none)
      (others : ∀ other ∈ rest, ∀ call ∈ calls, ¬ path ++ [.key other.1.key] <+: call.info.path) :
      ResolvesFields env type start calls path object source ((group, definition) :: rest)
  | next {group definition rest slot}
      (fills : Fills env.recorded type start (path ++ [.key group.key]) slot)
      (resolved : calls.filter (fun call => call.info.path = path ++ [.key group.key]) =
        env.resolverCalls (env.infoOf path object definition group) source)
      (settled : slot.value?.isSome)
      (tail : ResolvesFields env type start calls path object source rest) :
      ResolvesFields env type start calls path object source ((group, definition) :: rest)

/-- A call of a resolver belongs to a field that is selected on an object of the run. It is told of
all nodes that ask for the field, which share its response key, and gets the arguments of the first
one. -/
structure Coherent (env : Environment State Object Item) (type : ObjectType)
    (start : State × CallLog Object Item)
    (call : FieldCall Object Item (ResolveInfo Object Item)) : Prop where
  selected : ∃ path selections,
    Executes env.recorded type start path call.info.parent call.source selections ∧
      (call.info.group, call.info.definition) ∈
        env.selectedFields call.info.parent selections ∧
      call.info.path = path ++ [.key call.info.group.key]
  request : call.info.request = env.request
  keys : ∀ node ∈ call.info.group.nodes, node.key = call.info.group.key
  definition : env.schema.field? call.info.parent.name call.info.fieldName =
    some call.info.definition
  arguments : env.schema.coerceArguments call.info.definition.arguments
    call.info.group.first.arguments env.request.variableValues = .ok call.arguments

/-- The calls of resolvers in a run: one at most for each place, depth first, each told what fits,
and for the fields of each object those that there have to be. -/
structure ResolvesInOrder (env : Environment State Object Item) (type : ObjectType) (state : State)
    (calls : List (FieldCall Object Item (ResolveInfo Object Item))) : Prop where
  distinct : (calls.map fun call => call.info.path).Nodup
  depthFirst : calls.Pairwise fun call later =>
    DepthFirst env.recorded type (state, []) call.info.path later.info.path ∧
      ¬ DepthFirst env.recorded type (state, []) later.info.path call.info.path
  coherent : ∀ call ∈ calls, Coherent env type (state, []) call
  fields : ∀ path object source selections,
    Executes env.recorded type (state, []) path object source selections →
      ResolvesFields env type (state, []) calls path object source
        (env.selectedFields object selections)

section

variable {env : Environment State Object Item} {type : ObjectType} {state : State}
  {record : Slot} {last : State × CallLog Object Item}

theorem Executes.reaches {start : State × CallLog Object Item} {path : Path} {object : ObjectType}
    {source : Resolved Object Item} {selections : List Selection}
    (h : Executes env.recorded type start path object source selections) :
    ∃ before, Reaches env.recorded type start path
      (env.recorded.fieldsOf path object source (env.selectedFields object selections)) before := by
  cases h with
  | root => exact ⟨_, .root⟩
  | object asks found =>
      obtain ⟨reached, call⟩ := asks
      exact ⟨_, .fields reached call found⟩

theorem Sourced.coherent {start : State × CallLog Object Item}
    {call : FieldCall Object Item (ResolveInfo Object Item)}
    (h : Sourced env type start call) : Coherent env type start call := by
  obtain ⟨path, object, source, selections, executes, ⟨group, definition⟩, hfield, hcall⟩ :=
    h.selected
  obtain ⟨hinfo, rfl, harguments⟩ := env.mem_resolverCalls hcall
  obtain ⟨hgroup, hdefinition⟩ := Environment.mem_selectedFields hfield
  obtain ⟨source, arguments, info⟩ := call
  obtain rfl : info = env.infoOf path object definition group := hinfo
  exact ⟨⟨path, selections, executes, hfield, rfl⟩, rfl,
    (env.scope object).keyed_collectFields selections group hgroup, hdefinition, harguments⟩

theorem Reaches.resolvesFields (h : RunDerivation env.recorded type (state, []) record last)
    {path : Path} {object : ObjectType} {source : Resolved Object Item}
    {fields : List (FieldGroup × FieldDefinition)} {before : State × CallLog Object Item}
    (reached : Reaches env.recorded type (state, []) path
      (env.recorded.fieldsOf path object source fields) before) :
    ResolvesFields env type (state, []) last.2.fields path object source fields := by
  induction fields generalizing before with
  | nil => exact .nil
  | cons field rest ih =>
      obtain ⟨group, definition⟩ := field
      have hfilter := reached.filter_calls h
        (Pending.notes_fields path object source (group, definition))
      obtain ⟨children, after, later, hchildren, hlast, outside⟩ := reached.interval h
      cases hchildren with
      | cons call head settled tail =>
          have hsome := Option.isSome_of_eq_some settled
          exact .next (.intro (.intro reached call) head) hfilter hsome
            (ih (.next reached call head hsome))
      | stop call head nulled =>
          obtain ⟨calls, hcalls⟩ := head.adds_own reached call
          have hrest := outside.after_first reached.nodup hcalls
          refine .stop (.intro (.intro reached call) head) hfilter nulled ?_
          -- The run ends the object here, so what is noted later lies outside of it.
          intro other hother call hmem habove
          rw [hlast] at hmem
          exact hrest call hmem ⟨_, List.mem_map_of_mem hother, habove⟩

theorem RunDerivation.resolvesInOrder
    (h : RunDerivation env.recorded type (state, []) record last) :
    ResolvesInOrder env type state last.2.fields := by
  have hadds : ∃ calls, Adds env type (state, []) (fun _ => True) (state, []) last calls := by
    obtain ⟨below⟩ := h
    obtain ⟨calls, hcalls⟩ := below.adds .root
    exact ⟨calls, { hcalls with within := fun _ _ => trivial }⟩
  obtain ⟨calls, hcalls⟩ := hadds
  obtain rfl : last.2.fields = calls := hcalls.fields
  refine ⟨?_, ?_, fun call hmem => (hcalls.sourced call hmem).coherent, ?_⟩
  · exact List.pairwise_map.mpr (hcalls.ordered.imp fun hordered => hordered.2)
  · refine hcalls.ordered.imp_of_mem ?_
    rintro call later hmem hmem' ⟨hfirst, hne⟩
    obtain ⟨pending, resolved, middle, hasks⟩ := (hcalls.sourced call hmem).asked
    obtain ⟨pending', resolved', middle', hasks'⟩ := (hcalls.sourced later hmem').asked
    obtain ⟨place, next, hplace, -⟩ := hasks.derivation h
    obtain ⟨place', next', hplace', -⟩ := hasks'.derivation h
    exact ⟨hfirst, hfirst.asymm h hplace hplace' hne⟩
  · intro path object source selections executes
    obtain ⟨before, reached⟩ := executes.reaches
    exact reached.resolvesFields h

end

/-- Whenever a request is answered, its fields are resolved once and depth first: the calls of
resolvers that it makes are in order. -/
theorem Request.resolves_in_order {executable : ExecutableSchema State Object Item}
    {service : Service State Object Item} {request : Request State Object Item} {depth : Nat}
    {state next : State} {response : Response}
    (h : request.executeWithin depth executable service state = some (.ok response, next)) :
    ∃ env type, ∃ calls : CallLog Object Item,
      request.prepare executable service = .ok (env, type) ∧
      request.recordWithin depth executable service state = some (.ok response, next, calls) ∧
      ResolvesInOrder env type state calls.fields := by
  have hforget := request.recordWithin_forget depth executable service state
  rw [h, Option.map_eq_some_iff] at hforget
  obtain ⟨⟨answer, last⟩, hrecord, heq⟩ := hforget
  obtain ⟨rfl, rfl⟩ := Prod.mk.inj heq
  have hrun := hrecord
  rw [recordWithin] at hrun
  cases hprepare : request.prepare executable service with
  | error error => simp [hprepare] at hrun
  | ok prepared =>
      obtain ⟨env, type⟩ := prepared
      simp only [hprepare] at hrun
      obtain ⟨step, hstep, hanswer⟩ := Option.map_eq_some_iff.mp hrun
      obtain ⟨-, rfl⟩ := Prod.mk.inj hanswer
      obtain ⟨record, hderivation, -⟩ := Environment.run_derivation hstep
      exact ⟨env, type, step.state.2, rfl, hrecord, hderivation.resolvesInOrder⟩

theorem Sample.nameless_resolves_in_order :
    ∃ depth response,
      request.executeWithin depth (executable nameless) service () = some (.ok response, ()) ∧
      ∃ env type, ∃ calls : CallLog Empty Empty,
        request.prepare (executable nameless) service = .ok (env, type) ∧
        request.recordWithin depth (executable nameless) service () =
          some (.ok response, (), calls) ∧
        ResolvesInOrder env type () calls.fields := by
  obtain ⟨depth, h⟩ := nameless_answer
  exact ⟨depth, _, h, Request.resolves_in_order h⟩

end GraphQL
