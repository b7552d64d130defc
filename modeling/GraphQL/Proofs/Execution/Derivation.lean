import GraphQL.Proofs.Execution.Filling

/-! # Derivations of runs

The rules say how the record of a run comes about, place by place, without a bound on how deep
selection sets nest. An execution that comes to an end is exactly a run that the rules derive, and
its data and errors are those of the record. -/

namespace GraphQL

variable {State Object Item α β : Type}

/-- Where the fields are in the document that share the response key of a field. -/
def ResolveInfo.locations (info : ResolveInfo Object Item) : List Location :=
  info.group.nodes.map fun node => node.location

mutual

/-- What a resolved value becomes at a place of a type. -/
inductive PlaceDerivation (env : Environment State Object Item) :
    ResolveInfo Object Item → Path → TypeRef → Except Failure (Resolved Object Item) → State →
      Place → State → Prop
  | failed {info path type resolved state failure next}
      (found : (Completion.examine env info type resolved).run state = (.failed failure, next)) :
      PlaceDerivation env info path type resolved state (.failed failure info.locations) next
  | null {info path type resolved state next}
      (found : (Completion.examine env info type resolved).run state = (.null, next)) :
      PlaceDerivation env info path type resolved state .null next
  | leaf {info path type resolved state value next}
      (found : (Completion.examine env info type resolved).run state = (.leaf value, next)) :
      PlaceDerivation env info path type resolved state (.leaf value) next
  | list {info path type resolved state item items middle children next}
      (found : (Completion.examine env info type resolved).run state = (.list item items, middle))
      (below : ChildrenDerivation env path (Completion.itemsOf info item 0 items) middle
        children next) :
      PlaceDerivation env info path type resolved state (.list children) next
  | object {info path type resolved state object source middle children next}
      (found : (Completion.examine env info type resolved).run state =
        (.object object source, middle))
      (below : ChildrenDerivation env path
        (env.fieldsOf path object source (env.selectedFields object info.group.selections)) middle
        children next) :
      PlaceDerivation env info path type resolved state (.object children) next

/-- What pending places below `path` become: all of them up to the first that sends a null
upwards. -/
inductive ChildrenDerivation (env : Environment State Object Item) :
    Path → List (Pending State Object Item) → State → List (PathSegment × Slot) → State → Prop
  | nil (path state) : ChildrenDerivation env path [] state [] state
  | stop {path pending rest state resolved middle place next}
      (call : pending.resolve.run state = (resolved, middle))
      (head : PlaceDerivation env pending.info (path ++ [pending.segment]) pending.type resolved
        middle place next)
      (nulled : Slot.value? (pending.type, place) = none) :
      ChildrenDerivation env path (pending :: rest) state
        [(pending.segment, pending.type, place)] next
  | cons {path pending rest state resolved middle place next value children last}
      (call : pending.resolve.run state = (resolved, middle))
      (head : PlaceDerivation env pending.info (path ++ [pending.segment]) pending.type resolved
        middle place next)
      (settled : Slot.value? (pending.type, place) = some value)
      (tail : ChildrenDerivation env path rest next children last) :
      ChildrenDerivation env path (pending :: rest) state
        ((pending.segment, pending.type, place) :: children) last

end

/-- What comes of a finding at a place. -/
def Concludes (env : Environment State Object Item) (info : ResolveInfo Object Item) (path : Path)
    (middle : State) (place : Place) (next : State) : Finding State Object Item → Prop
  | .failed failure => place = .failed failure info.locations ∧ next = middle
  | .null => place = .null ∧ next = middle
  | .leaf value => place = .leaf value ∧ next = middle
  | .list item items =>
    ∃ children, place = .list children ∧
      ChildrenDerivation env path (Completion.itemsOf info item 0 items) middle children next
  | .object type source =>
    ∃ children, place = .object children ∧
      ChildrenDerivation env path
        (env.fieldsOf path type source (env.selectedFields type info.group.selections)) middle
        children next

/-- The rule that derives a place is the one for what is found there. -/
theorem PlaceDerivation.concludes {env : Environment State Object Item}
    {info : ResolveInfo Object Item} {path : Path} {type : TypeRef}
    {resolved : Except Failure (Resolved Object Item)} {state middle next : State} {place : Place}
    {finding : Finding State Object Item}
    (h : PlaceDerivation env info path type resolved state place next)
    (found : (Completion.examine env info type resolved).run state = (finding, middle)) :
    Concludes env info path middle place next finding := by
  cases h with
  | failed found' | null found' | leaf found' =>
      cases found'.symm.trans found
      exact ⟨rfl, rfl⟩
  | list found' below | object found' below =>
      cases found'.symm.trans found
      exact ⟨_, rfl, below⟩

theorem PlaceDerivation.of_concludes {env : Environment State Object Item}
    {info : ResolveInfo Object Item} {path : Path} {type : TypeRef}
    {resolved : Except Failure (Resolved Object Item)} {state middle next : State} {place : Place}
    {finding : Finding State Object Item}
    (found : (Completion.examine env info type resolved).run state = (finding, middle))
    (h : Concludes env info path middle place next finding) :
    PlaceDerivation env info path type resolved state place next := by
  cases finding with
  | failed failure =>
      obtain ⟨rfl, rfl⟩ := h
      exact .failed found
  | null =>
      obtain ⟨rfl, rfl⟩ := h
      exact .null found
  | leaf value =>
      obtain ⟨rfl, rfl⟩ := h
      exact .leaf found
  | list item items =>
      obtain ⟨children, rfl, below⟩ := h
      exact .list found below
  | object type source =>
      obtain ⟨children, rfl, below⟩ := h
      exact .object found below

/-! ## Steps of records -/

/-- How a part of a request ends whose data is this. -/
def Outcome.ofOption : Option α → Outcome α
  | some result => .value result
  | none => .nulled

namespace Place

/-- The step that completes a place at `path`. -/
def step (place : Place) (path : Path) (next : State) : Step State Json :=
  ⟨.ofOption place.data?, place.errors.map (.under path), next⟩

/-- The step that fills the places below `path`. -/
def stepBelow (children : List (PathSegment × Slot)) (path : Path) (next : State) :
    Step State (List (PathSegment × Json)) :=
  ⟨.ofOption (values? children), (errorsBelow children).map (.under path), next⟩

end Place

namespace Exec

variable {first : Exec State α} {next : α → Exec State β} {state middle : State}
  {errors : List FieldError}

theorem bind_of_tooDeep (h : first state = none) : (first >>= next) state = none := by
  change Exec.bind first next state = none
  simp only [Exec.bind, h]

theorem bind_of_nulled (h : first state = some ⟨.nulled, errors, middle⟩) :
    (first >>= next) state = some ⟨.nulled, errors, middle⟩ := by
  change Exec.bind first next state = _
  simp only [Exec.bind, h]

theorem bind_of_value {value : α} (h : first state = some ⟨.value value, errors, middle⟩) :
    (first >>= next) state =
      (next value middle).map fun step => ⟨step.outcome, errors ++ step.errors, step.state⟩ := by
  change Exec.bind first next state = _
  simp only [Exec.bind, h]

theorem map_apply (f : α → β) (computation : Exec State α) (state : State) :
    (f <$> computation) state = (computation state).map fun step =>
      ⟨match step.outcome with
        | .value value => .value (f value)
        | .nulled => .nulled, step.errors, step.state⟩ := by
  rw [← bind_pure_comp]
  cases h : computation state with
  | none => exact bind_of_tooDeep h
  | some step =>
      obtain ⟨outcome, errors, last⟩ := step
      cases outcome with
      | nulled => exact bind_of_nulled h
      | value value =>
          rw [bind_of_value h]
          change some _ = some _
          simp

/-- A sequence ends with a value if both its parts do. -/
theorem bind_eq_value_iff {first : Exec State α} {next : α → Exec State β} {result : β}
    {errors : List FieldError} {state last : State} :
    (first >>= next) state = some ⟨.value result, errors, last⟩ ↔
      ∃ value earlier middle later, first state = some ⟨.value value, earlier, middle⟩ ∧
        next value middle = some ⟨.value result, later, last⟩ ∧ errors = earlier ++ later := by
  cases hfirst : first state with
  | none => simp [bind_of_tooDeep hfirst]
  | some step =>
      obtain ⟨outcome, earlier, middle⟩ := step
      cases outcome with
      | nulled => simp [bind_of_nulled hfirst]
      | value value =>
          rw [bind_of_value hfirst, Option.map_eq_some_iff]
          constructor
          · rintro ⟨⟨outcome, later, last⟩, hnext, heq⟩
            cases heq
            exact ⟨value, earlier, middle, later, rfl, hnext, rfl⟩
          · rintro ⟨_, _, _, later, heq, hnext, rfl⟩
            cases heq
            exact ⟨_, hnext, rfl⟩

theorem map_eq_value_iff {f : α → β} {computation : Exec State α} {result : β}
    {errors : List FieldError} {state last : State} :
    (f <$> computation) state = some ⟨.value result, errors, last⟩ ↔
      ∃ value, computation state = some ⟨.value value, errors, last⟩ ∧ f value = result := by
  rw [map_apply, Option.map_eq_some_iff]
  constructor
  · rintro ⟨⟨outcome, errors, last⟩, hstep, heq⟩
    cases outcome with
    | nulled => cases heq
    | value value =>
        cases heq
        exact ⟨value, hstep, rfl⟩
  · rintro ⟨value, hstep, rfl⟩
    exact ⟨_, hstep, rfl⟩

end Exec

/-- Holding a null settles what a computation ends with. -/
theorem Exec.nullify_of_data (type : TypeRef) {computation : Exec State Json} {state next : State}
    {data? : Option Json} {errors : List FieldError}
    (h : computation state = some ⟨.ofOption data?, errors, next⟩) :
    Exec.nullify type computation state = some ⟨.ofOption (type.settle data?), errors, next⟩ := by
  simp only [Exec.nullify, h, Option.map_some]
  cases data? with
  | some value => rfl
  | none => cases hnull : type.nonNull <;> simp [TypeRef.settle, Outcome.ofOption, hnull]

/-- Holding a null turns the step of a place into the step of its slot. -/
theorem Exec.nullify_step (type : TypeRef) {computation : Exec State Json} {state next : State}
    {place : Place} {path : Path} (h : computation state = some (place.step path next)) :
    Exec.nullify type computation state =
      some ⟨.ofOption (Slot.value? (type, place)), place.errors.map (.under path), next⟩ :=
  Exec.nullify_of_data type h

namespace Place

theorem stepBelow_stop {segment : PathSegment} {slot : Slot} (path : Path) (next : State)
    (h : slot.value? = none) :
    stepBelow [(segment, slot)] path next =
      ⟨.nulled, slot.2.errors.map (.under (path ++ [segment])), next⟩ := by
  simp [stepBelow, values?_cons, h, Outcome.ofOption, errorsBelow_eq, FieldError.under_under,
    Function.comp_def]

theorem stepBelow_cons {segment : PathSegment} {slot : Slot} {value : Json}
    (children : List (PathSegment × Slot)) (path : Path) (next : State)
    (h : slot.value? = some value) :
    stepBelow ((segment, slot) :: children) path next =
      ⟨.ofOption ((values? children).map fun values => (segment, value) :: values),
        slot.2.errors.map (.under (path ++ [segment])) ++
          (errorsBelow children).map (.under path), next⟩ := by
  simp [stepBelow, values?_cons, h, errorsBelow_eq, FieldError.under_under, Function.comp_def,
    List.map_flatMap]

end Place

namespace Completion

variable (env : Environment State Object Item) (execute : ObjectExecutor State Object Item)
  (path : Path)

theorem fill_cons_apply (pending : Pending State Object Item)
    (rest : List (Pending State Object Item)) (state : State) :
    fill env execute path (pending :: rest) state =
      (do
        let value ← Exec.nullify pending.type
          (complete env execute pending.info pending.type (path ++ [pending.segment])
            (pending.resolve.run state).1)
        let values ← fill env execute path rest
        pure ((pending.segment, value) :: values) : Exec State (List (PathSegment × Json)))
        (pending.resolve.run state).2 := by
  rw [fill, Exec.nullify_call_bind, bind_assoc, Exec.call_bind_apply]

variable {env execute path} {pending : Pending State Object Item}
  {rest : List (Pending State Object Item)} {place : Place} {state next : State}

theorem fill_stop
    (h : complete env execute pending.info pending.type (path ++ [pending.segment])
      (pending.resolve.run state).1 (pending.resolve.run state).2 =
        some (place.step (path ++ [pending.segment]) next))
    (hnulled : Slot.value? (pending.type, place) = none) :
    fill env execute path (pending :: rest) state =
      some (Place.stepBelow [(pending.segment, pending.type, place)] path next) := by
  have hslot := Exec.nullify_step pending.type h
  rw [hnulled] at hslot
  rw [fill_cons_apply, Exec.bind_of_nulled hslot, Place.stepBelow_stop path next hnulled]

theorem fill_settled
    (h : complete env execute pending.info pending.type (path ++ [pending.segment])
      (pending.resolve.run state).1 (pending.resolve.run state).2 =
        some (place.step (path ++ [pending.segment]) next))
    {value : Json} (hsettled : Slot.value? (pending.type, place) = some value) :
    fill env execute path (pending :: rest) state =
      (((fun values => (pending.segment, value) :: values) <$> fill env execute path rest) next).map
        fun step => ⟨step.outcome,
          place.errors.map (.under (path ++ [pending.segment])) ++ step.errors, step.state⟩ := by
  have hslot := Exec.nullify_step pending.type h
  rw [hsettled] at hslot
  rw [fill_cons_apply, Exec.bind_of_value hslot]
  simp

theorem fill_cons
    (h : complete env execute pending.info pending.type (path ++ [pending.segment])
      (pending.resolve.run state).1 (pending.resolve.run state).2 =
        some (place.step (path ++ [pending.segment]) next))
    {value : Json} (hsettled : Slot.value? (pending.type, place) = some value)
    {children : List (PathSegment × Slot)} {last : State}
    (hrest : fill env execute path rest next = some (Place.stepBelow children path last)) :
    fill env execute path (pending :: rest) state =
      some (Place.stepBelow ((pending.segment, pending.type, place) :: children) path last) := by
  rw [fill_settled h hsettled, Exec.map_apply, hrest,
    Place.stepBelow_cons children path last hsettled]
  cases hvalues : Place.values? children <;> simp [Place.stepBelow, hvalues, Outcome.ofOption]

theorem fill_tooDeep
    (h : complete env execute pending.info pending.type (path ++ [pending.segment])
      (pending.resolve.run state).1 (pending.resolve.run state).2 = none) :
    fill env execute path (pending :: rest) state = none := by
  rw [fill_cons_apply, Exec.bind_of_tooDeep (by simp [Exec.nullify, h])]

theorem fill_settled_tooDeep
    (h : complete env execute pending.info pending.type (path ++ [pending.segment])
      (pending.resolve.run state).1 (pending.resolve.run state).2 =
        some (place.step (path ++ [pending.segment]) next))
    {value : Json} (hsettled : Slot.value? (pending.type, place) = some value)
    (hrest : fill env execute path rest next = none) :
    fill env execute path (pending :: rest) state = none := by
  rw [fill_settled h hsettled, Exec.map_apply, hrest]
  rfl

variable (env execute path)

/-- The rules derive every way in which completion at this place comes to an end. -/
def Derives (info : ResolveInfo Object Item) (type : TypeRef) : Prop :=
  ∀ resolved state step, complete env execute info type path resolved state = some step →
    ∃ place next, PlaceDerivation env info path type resolved state place next ∧
      step = place.step path next

theorem fill_derivation (pendings : List (Pending State Object Item))
    (hcomplete : ∀ pending ∈ pendings,
      Derives env execute (path ++ [pending.segment]) pending.info pending.type)
    (state : State) (step : Step State (List (PathSegment × Json)))
    (h : fill env execute path pendings state = some step) :
    ∃ children next, ChildrenDerivation env path pendings state children next ∧
      step = Place.stepBelow children path next := by
  induction pendings generalizing state step with
  | nil =>
      obtain rfl := Option.some.inj h
      exact ⟨[], state, .nil path state, rfl⟩
  | cons pending rest ih =>
      obtain ⟨hhead, htail⟩ := List.forall_mem_cons.mp hcomplete
      cases hstep : complete env execute pending.info pending.type (path ++ [pending.segment])
          (pending.resolve.run state).1 (pending.resolve.run state).2 with
      | none =>
          rw [fill_tooDeep hstep] at h
          cases h
      | some inner =>
          obtain ⟨place, next, hplace, rfl⟩ := hhead _ _ _ hstep
          cases hvalue : Slot.value? (pending.type, place) with
          | none =>
              rw [fill_stop hstep hvalue] at h
              exact ⟨_, next, .stop rfl hplace hvalue, (Option.some.inj h).symm⟩
          | some value =>
              cases hrest : fill env execute path rest next with
              | none =>
                  rw [fill_settled_tooDeep hstep hvalue hrest] at h
                  cases h
              | some tail =>
                  obtain ⟨children, last, hchildren, rfl⟩ := ih htail next tail hrest
                  rw [fill_cons hstep hvalue hrest] at h
                  exact ⟨_, last, .cons rfl hplace hvalue hchildren, (Option.some.inj h).symm⟩

end Completion

/-! ## Executions are the runs that the rules derive -/

namespace Completion

variable (env : Environment State Object Item) (execute : ObjectExecutor State Object Item)
  (info : ResolveInfo Object Item) (path : Path)

theorem complete_apply (type : TypeRef) (resolved : Except Failure (Resolved Object Item))
    (state : State) :
    complete env execute info type path resolved state =
      conclude env info execute path ((examine env info type resolved).run state).1
        ((examine env info type resolved).run state).2 := by
  rw [complete_eq, Exec.call_bind_apply]

theorem conclude_failed (failure : Failure) (state : State) :
    conclude env info execute path (.failed failure) state =
      some ((Place.failed failure info.locations).step path state) := by
  simp [conclude, failAt, Exec.fail, Place.step, Place.data?, Place.errors, FieldError.under,
    Outcome.ofOption, ResolveInfo.locations]

theorem conclude_list (item : TypeRef) (items : List (StateM State (ResolverResult Object Item))) :
    conclude env info execute path (.list item items) =
      (fun values => .array (values.map Prod.snd)) <$>
        fill env execute path (itemsOf info item 0 items) := by
  simp [conclude, completeItems_eq_fill]

theorem conclude_object (depth : Nat) (type : ObjectType) (source : Resolved Object Item) :
    conclude env info (env.executeSelections (depth + 1)) path (.object type source) =
      (fun values => .object (membersOf values)) <$>
        fill env (env.executeSelections depth) path
          (env.fieldsOf path type source (env.selectedFields type info.group.selections)) := by
  simp [conclude, Environment.executeSelections_succ]

end Completion

namespace Place

variable {computation : Exec State (List (PathSegment × Json))} {state next : State}
  {children : List (PathSegment × Slot)} {path : Path}

theorem step_list (h : computation state = some (stepBelow children path next)) :
    ((fun values => .array (values.map Prod.snd)) <$> computation) state =
      some ((Place.list children).step path next) := by
  rw [Exec.map_apply, h]
  cases hvalues : values? children <;>
    simp [stepBelow, step, data?, errors, hvalues, Outcome.ofOption]

theorem step_object (h : computation state = some (stepBelow children path next)) :
    ((fun values => .object (membersOf values)) <$> computation) state =
      some ((Place.object children).step path next) := by
  rw [Exec.map_apply, h]
  cases hvalues : values? children <;>
    simp [stepBelow, step, data?, errors, hvalues, Outcome.ofOption]

end Place

namespace Completion

theorem mem_itemsOf {info : ResolveInfo Object Item} {type : TypeRef} {position : Nat}
    {items : List (StateM State (ResolverResult Object Item))}
    {pending : Pending State Object Item} (h : pending ∈ itemsOf info type position items) :
    pending.info = info ∧ pending.type = type := by
  induction items generalizing position with
  | nil => cases h
  | cons item rest ih =>
      rcases List.mem_cons.mp h with rfl | h
      · exact ⟨rfl, rfl⟩
      · exact ih h

variable {env : Environment State Object Item} {execute : ObjectExecutor State Object Item}
  {info : ResolveInfo Object Item}

variable (env execute info path) in
/-- The rules derive every way in which the selections on objects at a place come to an end. -/
def DerivesObjects : Prop :=
  ∀ object source state step,
    conclude env info execute path (.object object source) state = some step →
      ∃ children next,
        ChildrenDerivation env path
          (env.fieldsOf path object source (env.selectedFields object info.group.selections))
          state children next ∧
        step = (Place.object children).step path next

/-- What remains to be derived once a value has been examined: the items of a list and the fields
of an object. -/
theorem derives_of_below {type : TypeRef}
    (hitem : ∀ item nonNull, type = .list item nonNull →
      ∀ segment, Derives env execute (path ++ [segment]) info item)
    (hobject : DerivesObjects env execute info path) :
    Derives env execute path info type := by
  intro resolved state step h
  rw [complete_apply] at h
  have hfits := gives_examine env info type resolved state
  cases hfound : (examine env info type resolved).run state with
  | mk finding middle =>
      simp only [hfound] at h hfits
      cases hfits with
      | failed failure =>
          rw [conclude_failed] at h
          exact ⟨.failed failure info.locations, middle, .failed hfound, (Option.some.inj h).symm⟩
      | null => exact ⟨.null, middle, .null hfound, (Option.some.inj h).symm⟩
      | leaf => exact ⟨.leaf _, middle, .leaf hfound, (Option.some.inj h).symm⟩
      | @list item nonNull _ items =>
          rw [conclude_list] at h
          cases hfill : fill env execute path (itemsOf info item 0 items) middle with
          | none => simp [Exec.map_apply, hfill] at h
          | some below =>
              obtain ⟨children, next, hchildren, rfl⟩ :=
                fill_derivation env execute path (itemsOf info item 0 items)
                  (fun pending hmem => by
                    obtain ⟨hinfo, htype⟩ := mem_itemsOf hmem
                    rw [hinfo, htype]
                    exact hitem item nonNull rfl pending.segment)
                  middle below hfill
              rw [Place.step_list hfill] at h
              exact ⟨.list children, next, .list hfound hchildren, (Option.some.inj h).symm⟩
      | object source _ =>
          obtain ⟨children, next, hbelow, rfl⟩ := hobject _ _ _ _ h
          exact ⟨.object children, next, .object hfound hbelow, rfl⟩

theorem derives_of_objects (hobject : ∀ path, DerivesObjects env execute info path)
    (type : TypeRef) (path : Path) : Derives env execute path info type := by
  induction type generalizing path with
  | named name nonNull => exact derives_of_below (by simp) (hobject path)
  | list item nonNull ih =>
      refine derives_of_below ?_ (hobject path)
      rintro _ _ ⟨⟩ segment
      exact ih (path ++ [segment])

end Completion

namespace Environment

variable (env : Environment State Object Item)

/-- Completion within any depth goes by the rules: induction on the depth. -/
theorem complete_derivation (depth : Nat) (info : ResolveInfo Object Item) (type : TypeRef)
    (path : Path) :
    Completion.Derives env (env.executeSelections depth) path info type := by
  induction depth generalizing info type path with
  | zero =>
      refine Completion.derives_of_objects ?_ type path
      intro path object source state step h
      cases h
  | succ depth ih =>
      refine Completion.derives_of_objects ?_ type path
      intro path object source state step h
      rw [Completion.conclude_object] at h
      cases hfill : Completion.fill env (env.executeSelections depth) path
          (env.fieldsOf path object source (env.selectedFields object info.group.selections))
          state with
      | none => simp [Exec.map_apply, hfill] at h
      | some below =>
          obtain ⟨children, next, hchildren, rfl⟩ :=
            Completion.fill_derivation env _ path _ (fun pending _ => ih _ _ _) state below hfill
          rw [Place.step_object hfill] at h
          exact ⟨children, next, hchildren, (Option.some.inj h).symm⟩

end Environment

/-! The other way round, what is derived is executed within every depth that is great enough. -/

mutual

theorem PlaceDerivation.execution {env : Environment State Object Item}
    {info : ResolveInfo Object Item} {path : Path} {type : TypeRef}
    {resolved : Except Failure (Resolved Object Item)} {state next : State} {place : Place} :
    PlaceDerivation env info path type resolved state place next →
      ∃ bound, ∀ depth ≥ bound,
        Completion.complete env (env.executeSelections depth) info type path resolved state =
          some (place.step path next)
  | .failed found => ⟨0, fun depth _ => by
      rw [Completion.complete_apply, found, Completion.conclude_failed]⟩
  | .null found => ⟨0, fun depth _ => by rw [Completion.complete_apply, found]; rfl⟩
  | .leaf found => ⟨0, fun depth _ => by rw [Completion.complete_apply, found]; rfl⟩
  | .list found below => by
      obtain ⟨bound, hbelow⟩ := below.execution
      refine ⟨bound, ?_⟩
      intro depth hdepth
      rw [Completion.complete_apply, found, Completion.conclude_list]
      exact Place.step_list (hbelow depth hdepth)
  | .object found below => by
      obtain ⟨bound, hbelow⟩ := below.execution
      refine ⟨bound + 1, ?_⟩
      intro depth hdepth
      obtain ⟨depth, rfl⟩ := Nat.exists_eq_add_of_le' (Nat.le_of_add_left_le hdepth)
      rw [Completion.complete_apply, found, Completion.conclude_object]
      exact Place.step_object (hbelow depth (by omega))

theorem ChildrenDerivation.execution {env : Environment State Object Item} {path : Path}
    {pendings : List (Pending State Object Item)} {state next : State}
    {children : List (PathSegment × Slot)} :
    ChildrenDerivation env path pendings state children next →
      ∃ bound, ∀ depth ≥ bound,
        Completion.fill env (env.executeSelections depth) path pendings state =
          some (Place.stepBelow children path next)
  | .nil path state => ⟨0, fun _ _ => rfl⟩
  | .stop call head nulled => by
      obtain ⟨bound, hhead⟩ := head.execution
      refine ⟨bound, fun depth hdepth => Completion.fill_stop ?_ nulled⟩
      rw [call]
      exact hhead depth hdepth
  | .cons call head settled tail => by
      obtain ⟨bound, hhead⟩ := head.execution
      obtain ⟨bound', htail⟩ := tail.execution
      refine ⟨max bound bound', fun depth hdepth =>
        Completion.fill_cons ?_ settled (htail depth (by omega))⟩
      rw [call]
      exact hhead depth (by omega)

end

end GraphQL
