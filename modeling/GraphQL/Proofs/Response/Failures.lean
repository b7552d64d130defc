import GraphQL.Proofs.Execution.Reach

/-! # Failures and errors

Each place that fails gives one error, in the order in which the run comes to the places. A place
above another one that fails does not fail itself, whatever becomes of its value. -/

namespace GraphQL

variable {State Object Item : Type}

/-! ## The errors of a record -/

namespace Slot

/-- One place comes before another: where their paths part, its segment is the earlier one. -/
def Precedes (slot : Slot) (path later : Path) : Prop :=
  ∃ common first second rest rest' parent, path = common ++ first :: rest ∧
    later = common ++ second :: rest' ∧ slot.find? common = some parent ∧
    [first, second].Sublist (Entries.keys parent.2.children)

theorem Precedes.cons {slot lower : Slot} {path later : Path} {segment : PathSegment}
    (hfind : Entries.get? segment slot.2.children = some lower) (h : lower.Precedes path later) :
    slot.Precedes (segment :: path) (segment :: later) := by
  obtain ⟨common, first, second, rest, rest', parent, rfl, rfl, hparent, hsublist⟩ := h
  refine ⟨segment :: common, first, second, rest, rest', parent, rfl, rfl, ?_, hsublist⟩
  rw [find?_cons, hfind, Option.bind_some, hparent]

theorem Precedes.of_children {slot : Slot} {child later : PathSegment × Slot}
    (h : [child, later].Sublist slot.2.children) (rest rest' : Path) :
    slot.Precedes (child.1 :: rest) (later.1 :: rest') :=
  ⟨[], child.1, later.1, rest, rest', slot, rfl, rfl, rfl, h.map Prod.fst⟩

/-- Places of which one comes before the other do not lie one below the other. -/
theorem Precedes.apart {slot : Slot} (hvalid : slot.Valid) {path later : Path}
    (h : slot.Precedes path later) : ¬ path <+: later ∧ ¬ later <+: path := by
  obtain ⟨common, first, second, rest, rest', parent, rfl, rfl, hparent, hsublist⟩ := h
  have hnodup := hsublist.nodup (hvalid.find? hparent).nodup_keys
  have hne : first ≠ second := by simpa using hnodup
  simp [List.prefix_append_right_inj, List.cons_prefix_cons, hne, hne.symm]

end Slot

namespace Slot

/-- The slot has not failed itself. -/
def Holds (slot : Slot) : Prop := ∀ failure locations, slot.2 ≠ .failed failure locations

theorem Holds.errors_eq {slot : Slot} (h : slot.Holds) :
    slot.2.errors =
      slot.2.children.flatMap fun child => child.2.2.errors.map (.under [child.1]) := by
  obtain ⟨type, place⟩ := slot
  cases place with
  | failed failure locations => exact absurd rfl (h failure locations)
  | null | leaf => rfl
  | list items => exact Place.errors_list items
  | object fields => exact Place.errors_object fields

/-- The errors of a place that holds are those below it. -/
theorem Holds.mem_errors {slot : Slot} (h : slot.Holds) (error : FieldError) :
    error ∈ slot.2.errors ↔
      ∃ child ∈ slot.2.children, ∃ origin ∈ child.2.2.errors, origin.under [child.1] = error := by
  rw [h.errors_eq, List.mem_flatMap]
  simp only [List.mem_map]

namespace Valid

/-- For what is true of failed places and passes upwards, whatever kind of place is above. -/
theorem upwards {property : (slot : Slot) → slot.Valid → Prop}
    (failed : ∀ type failure locations,
      property (type, .failed failure locations) (.failed failure locations))
    (holds : ∀ (slot : Slot) (h : slot.Valid), slot.Holds →
      (∀ child (hmem : child ∈ slot.2.children), property child.2 (h.child hmem)) →
        property slot h)
    {slot : Slot} (h : slot.Valid) : property slot h := by
  induction h with
  | failed failure locations => exact failed _ failure locations
  | null h => exact holds _ (.null h) nofun nofun
  | leaf h => exact holds _ (.leaf h) nofun nofun
  | list numbered valid ih => exact holds _ (.list numbered valid) nofun ih
  | object named distinct valid ih => exact holds _ (.object named distinct valid) nofun ih

/-- Errors come in the order of their places. -/
theorem pairwise_errors {slot : Slot} (h : slot.Valid) :
    slot.2.errors.Pairwise fun error later => slot.Precedes error.path later.path := by
  induction h using upwards with
  | failed type failure locations => exact List.pairwise_singleton _ _
  | holds slot hvalid hholds ih =>
      rw [hholds.errors_eq, List.pairwise_flatMap]
      constructor
      · intro child hmem
        have hfind := Entries.get?_of_mem hvalid.nodup_keys hmem
        exact List.pairwise_map.mpr ((ih child hmem).imp fun hprecedes => hprecedes.cons hfind)
      · rw [List.pairwise_iff_forall_sublist]
        intro child later hsublist error herror error' herror'
        obtain ⟨below, -, rfl⟩ := List.mem_map.mp herror
        obtain ⟨below', -, rfl⟩ := List.mem_map.mp herror'
        exact .of_children hsublist below.path below'.path

/-- The errors are the failed places. -/
theorem mem_errors_iff {slot : Slot} (h : slot.Valid) (error : FieldError) :
    error ∈ slot.2.errors ↔
      ∃ type, slot.find? error.path = some (type, .failed error.failure error.locations) := by
  obtain ⟨failure, path, locations⟩ := error
  induction h using upwards generalizing path with
  | failed type failure' locations' =>
      cases path with
      | nil => simp [Place.errors, eq_comm]
      | cons segment rest => simp [Place.errors, find?_cons, Place.children, Entries.get?]
  | holds slot hvalid hholds ih =>
      rw [hholds.mem_errors]
      constructor
      · rintro ⟨child, hmem, ⟨_, rest, _⟩, hbelow, heq⟩
        cases heq
        obtain ⟨type, hfind⟩ := (ih child hmem rest).mp hbelow
        refine ⟨type, ?_⟩
        change slot.find? (child.1 :: rest) = _
        rw [find?_cons, Entries.get?_of_mem hvalid.nodup_keys hmem]
        exact hfind
      · rintro ⟨type, hfind⟩
        cases path with
        | nil => exact absurd (congrArg Prod.snd (Option.some.inj hfind)) (hholds _ _)
        | cons segment rest =>
            obtain ⟨lower, hlower, hrest⟩ := Option.bind_eq_some_iff.mp hfind
            have hmem := Entries.mem_of_get? hlower
            have herror := (ih _ hmem rest).mpr ⟨type, hrest⟩
            exact ⟨_, hmem, _, herror, rfl⟩

end Valid

end Slot

/-! ## The failures of a run -/

/-- The run meets a failure: when it looks at the answer for a place, something is wrong. -/
inductive Fails (env : Environment State Object Item) (type : ObjectType) (state : State) :
    FieldError → Prop
  | intro {path pending resolved middle failure next}
      (asks : Asks env type state path pending resolved middle)
      (found : (Completion.examine env pending.info pending.type resolved).run middle =
        (.failed failure, next)) :
      Fails env type state ⟨failure, path, pending.info.locations⟩

/-- One place comes before another in the run: where their paths part, its segment is pending
before the other one. -/
def RunsBefore (env : Environment State Object Item) (type : ObjectType) (state : State)
    (path later : Path) : Prop :=
  ∃ common first second rest rest' pendings before, path = common ++ first :: rest ∧
    later = common ++ second :: rest' ∧ Reaches env type state common pendings before ∧
    [first, second].Sublist (pendings.map Pending.segment)

section

variable {env : Environment State Object Item} {type : ObjectType} {state last : State}
  {record : Slot}

theorem Fills.reaches {path : Path} {slot : Slot} (h : Fills env type state path slot)
    {child : PathSegment × Slot} (hmem : child ∈ slot.2.children) :
    ∃ pendings before, Reaches env type state path pendings before ∧
      Entries.keys slot.2.children <+: pendings.map Pending.segment := by
  obtain ⟨asks, derivation⟩ := h
  obtain ⟨reached, call⟩ := asks
  cases derivation with
  | failed | null | leaf => cases hmem
  | list found below => exact ⟨_, _, .items reached call found, below.keys_initial⟩
  | object found below => exact ⟨_, _, .fields reached call found, below.keys_initial⟩

theorem RunDerivation.runsBefore (h : RunDerivation env type state record last)
    {path later : Path} (hprecedes : record.Precedes path later) :
    RunsBefore env type state path later := by
  obtain ⟨common, first, second, rest, rest', parent, rfl, rfl, hparent, hsublist⟩ := hprecedes
  have hreaches : ∃ pendings before, Reaches env type state common pendings before ∧
      Entries.keys parent.2.children <+: pendings.map Pending.segment := by
    cases common with
    | nil =>
        obtain rfl := Option.some.inj hparent
        obtain ⟨below⟩ := h
        exact ⟨_, _, .root, below.keys_initial⟩
    | cons segment common =>
        obtain ⟨child, hmem, -⟩ := List.mem_map.mp (hsublist.subset List.mem_cons_self)
        exact (h.fills hparent).reaches hmem
  obtain ⟨pendings, before, hreached, hinitial⟩ := hreaches
  exact ⟨common, first, second, rest, rest', pendings, before, rfl, rfl, hreached,
    hsublist.trans hinitial.sublist⟩

/-- The errors of a run are its failures. -/
theorem RunDerivation.mem_errors_iff (h : RunDerivation env type state record last)
    (error : FieldError) : error ∈ record.2.errors ↔ Fails env type state error := by
  rw [h.valid.mem_errors_iff]
  constructor
  · rintro ⟨type', hfind⟩
    obtain ⟨failure, path, locations⟩ := error
    cases path with
    | nil =>
        obtain ⟨below⟩ := h
        cases hfind
    | cons segment rest =>
        cases h.fills hfind with
        | intro asks derivation =>
            cases derivation with
            | failed found => exact .intro asks found
  · rintro ⟨asks, found⟩
    obtain ⟨place, next, hfind, hderivation⟩ := asks.derivation h
    obtain ⟨rfl, -⟩ := hderivation.concludes found
    exact ⟨_, hfind⟩

theorem RunDerivation.pairwise_errors (h : RunDerivation env type state record last) :
    record.2.errors.Pairwise fun error later =>
      RunsBefore env type state error.path later.path ∧
        ¬ error.path <+: later.path ∧ ¬ later.path <+: error.path :=
  h.valid.pairwise_errors.imp fun hprecedes =>
    ⟨h.runsBefore hprecedes, hprecedes.apart h.valid⟩

end

/-- What a resolver reports fails at its place. -/
theorem Asks.fails {env : Environment State Object Item} {type : ObjectType} {state middle : State}
    {path : Path} {pending : Pending State Object Item} {failure : Failure}
    (h : Asks env type state path pending (.error failure) middle) :
    Fails env type state ⟨failure, path, pending.info.locations⟩ := .intro h rfl

/-- The errors of a response are the failures of its run, in the order in which they are met. None
lies below another. -/
theorem Request.errors_failures {executable : ExecutableSchema State Object Item}
    {service : Service State Object Item} {request : Request State Object Item} {depth : Nat}
    {state next : State} {response : Response}
    (h : request.executeWithin depth executable service state = some (.ok response, next)) :
    ∃ env type, ∃ errors : List FieldError,
      request.prepare executable service = .ok (env, type) ∧
      response.errors = errors.map FieldError.toResponseError ∧
      (∀ error, error ∈ errors ↔ Fails env type state error) ∧
      (errors.Pairwise fun error later =>
        RunsBefore env type state error.path later.path ∧
          ¬ error.path <+: later.path ∧ ¬ later.path <+: error.path) ∧
      ∀ path pending error middle,
        Asks env type state path pending (.error (.resolver error)) middle →
          ⟨error.message, pending.info.locations, path, error.extensions⟩ ∈ response.errors := by
  obtain ⟨env, type, record, hprepare, hrecord, rfl⟩ := executeWithin_derivation h
  refine ⟨env, type, record.2.errors, hprepare, rfl, hrecord.mem_errors_iff,
    hrecord.pairwise_errors, ?_⟩
  intro path pending error middle hasks
  exact List.mem_map.mpr ⟨_, (hrecord.mem_errors_iff _).mpr hasks.fails, rfl⟩

theorem Sample.nameless_failures :
    ∃ depth response,
      request.executeWithin depth (executable nameless) service () = some (.ok response, ()) ∧
      ∃ env type, ∃ errors : List FieldError,
        request.prepare (executable nameless) service = .ok (env, type) ∧
        response.errors = errors.map FieldError.toResponseError ∧
        (∀ error, error ∈ errors ↔ Fails env type () error) ∧
        (errors.Pairwise fun error later =>
          RunsBefore env type () error.path later.path ∧
            ¬ error.path <+: later.path ∧ ¬ later.path <+: error.path) ∧
        ∀ path pending error middle,
          Asks env type () path pending (.error (.resolver error)) middle →
            ⟨error.message, pending.info.locations, path, error.extensions⟩ ∈
              response.errors := by
  obtain ⟨depth, h⟩ := nameless_answer
  exact ⟨depth, _, h, Request.errors_failures h⟩

end GraphQL
