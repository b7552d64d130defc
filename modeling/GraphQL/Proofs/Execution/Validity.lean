import GraphQL.Proofs.Execution.Run
import GraphQL.Proofs.Selection.Grouping

/-! # Validity of derived records

The places of a derived record stand in the order in which they were pending, and each has come
about by the rules. So items are numbered from zero, fields have distinct keys, and null is found
only where the type allows it. -/

namespace GraphQL

variable {State Object Item : Type}

/-! ## Places that are pending -/

theorem Completion.map_segment_itemsOf (info : ResolveInfo Object Item) (type : TypeRef)
    (position : Nat) (items : List (StateM State (ResolverResult Object Item))) :
    (itemsOf info type position items).map Pending.segment =
      (List.range' position items.length).map PathSegment.index := by
  induction items generalizing position with
  | nil => rfl
  | cons item rest ih => simp [itemsOf, ih, List.range'_succ]

theorem Completion.nodup_itemsOf (info : ResolveInfo Object Item) (type : TypeRef)
    (items : List (StateM State (ResolverResult Object Item))) :
    ((itemsOf info type 0 items).map Pending.segment).Nodup := by
  rw [map_segment_itemsOf, ← List.range_eq_range']
  exact PathSegment.nodup_indices items.length

namespace Environment

variable (env : Environment State Object Item)

theorem map_segment_fieldsOf (path : Path) (type : ObjectType) (source : Resolved Object Item)
    (fields : List (FieldGroup × FieldDefinition)) :
    (env.fieldsOf path type source fields).map Pending.segment =
      fields.map fun field => .key field.1.key := by
  simp [fieldsOf, Function.comp_def]

theorem map_fst_defined (type : ObjectType) (groups : List FieldGroup) :
    (env.defined type groups).map Prod.fst =
      groups.filter fun group => (env.schema.field? type.name group.first.name).isSome := by
  induction groups with
  | nil => rfl
  | cons group rest ih =>
      cases h : env.schema.field? type.name group.first.name <;>
        simp [defined, h, ← ih]

/-- The fields selected on an object have distinct response keys. -/
theorem nodup_keys_selectedFields (type : ObjectType) (selections : List Selection) :
    ((env.selectedFields type selections).map fun field => field.1.key).Nodup := by
  have hfields : (env.selectedFields type selections).map (fun field => field.1.key) =
      ((env.selectedFields type selections).map Prod.fst).map FieldGroup.key := by simp
  rw [hfields, selectedFields, map_fst_defined]
  exact (List.filter_sublist.map FieldGroup.key).nodup
    ((env.scope type).nodup_keys_collectFields selections)

theorem nodup_fieldsOf (path : Path) (type : ObjectType) (source : Resolved Object Item)
    (selections : List Selection) :
    ((env.fieldsOf path type source (env.selectedFields type selections)).map
      Pending.segment).Nodup := by
  have hkey : ∀ a b, a ≠ b → PathSegment.key a ≠ .key b :=
    fun a b hne h => hne (PathSegment.key.inj h)
  have hnodup := List.Pairwise.map PathSegment.key hkey
    (env.nodup_keys_selectedFields type selections)
  rw [List.map_map] at hnodup
  rw [map_segment_fieldsOf]
  exact hnodup

end Environment

/-! ## Places that were filled -/

theorem Completion.keys_fill {env : Environment State Object Item}
    {execute : ObjectExecutor State Object Item} {path : Path}
    {pendings : List (Pending State Object Item)} {state next : State}
    {values : List (PathSegment × Json)} {errors : List FieldError}
    (h : fill env execute path pendings state = some ⟨.value values, errors, next⟩) :
    Entries.keys values = pendings.map Pending.segment := by
  induction pendings generalizing state values errors with
  | nil =>
      cases h
      rfl
  | cons pending rest ih =>
      rw [fill, Exec.bind_eq_value_iff] at h
      obtain ⟨value, _, _, _, -, hrest, -⟩ := h
      rw [bind_pure_comp, Exec.map_eq_value_iff] at hrest
      obtain ⟨values, hvalues, rfl⟩ := hrest
      exact congrArg _ (ih hvalues)

theorem keys_membersOf {values : List (PathSegment × Json)} {names : List String}
    (h : Entries.keys values = names.map .key) : Entries.keys (membersOf values) = names := by
  induction names generalizing values with
  | nil =>
      obtain rfl := List.map_eq_nil_iff.mp h
      rfl
  | cons name names ih =>
      obtain ⟨⟨_, value⟩, rest, rfl, rfl, hrest⟩ := List.map_eq_cons_iff.mp h
      exact congrArg _ (ih hrest)

namespace Environment

variable {env : Environment State Object Item}

/-- An object has a member for each of the fields selected on it, in their order. -/
theorem keys_executeSelections {depth : Nat} {path : Path} {type : ObjectType}
    {source : Resolved Object Item} {selections : List Selection} {state next : State}
    {members : Members} {errors : List FieldError}
    (h : env.executeSelections depth path type source selections state =
      some ⟨.value members, errors, next⟩) :
    Entries.keys members =
      (env.selectedFields type selections).map fun field => field.1.key := by
  cases depth with
  | zero => cases h
  | succ depth =>
      rw [executeSelections_succ, Exec.map_eq_value_iff] at h
      obtain ⟨values, hvalues, rfl⟩ := h
      apply keys_membersOf
      rw [Completion.keys_fill hvalues, map_segment_fieldsOf, List.map_map]
      rfl

theorem nodup_keys_executeSelections {depth : Nat} {path : Path} {type : ObjectType}
    {source : Resolved Object Item} {selections : List Selection} {state next : State}
    {members : Members} {errors : List FieldError}
    (h : env.executeSelections depth path type source selections state =
      some ⟨.value members, errors, next⟩) : (Entries.keys members).Nodup := by
  rw [keys_executeSelections h]
  exact env.nodup_keys_selectedFields type selections

end Environment

/-! ## Places that were completed -/

namespace ChildrenDerivation

variable {env : Environment State Object Item} {path : Path}

/-- Completed places are an initial part of the pending ones. -/
theorem slots_initial :
    ∀ {pendings : List (Pending State Object Item)} {state next : State}
      {children : List (PathSegment × Slot)},
      ChildrenDerivation env path pendings state children next →
        (children.map fun child => (child.1, child.2.1)) <+:
          pendings.map fun pending => (pending.segment, pending.type)
  | _, _, _, _, .nil _ _ => List.prefix_rfl
  | _, _, _, _, .stop _ _ _ => by simp
  | _, _, _, _, .cons _ _ _ tail => by simpa using tail.slots_initial

theorem keys_initial {pendings : List (Pending State Object Item)} {state next : State}
    {children : List (PathSegment × Slot)}
    (h : ChildrenDerivation env path pendings state children next) :
    Entries.keys children <+: pendings.map Pending.segment := by
  simpa [Entries.keys, Function.comp_def] using h.slots_initial.map Prod.fst

/-- Every item completed has its own number. -/
theorem keys_items {info : ResolveInfo Object Item} {item : TypeRef}
    {items : List (StateM State (ResolverResult Object Item))} {state next : State}
    {children : List (PathSegment × Slot)}
    (h : ChildrenDerivation env path (Completion.itemsOf info item 0 items) state children next) :
    Entries.keys children = (List.range children.length).map PathSegment.index := by
  have hinitial := h.keys_initial
  rw [Completion.map_segment_itemsOf, ← List.range_eq_range'] at hinitial
  have hle := hinitial.length_le
  simp only [Entries.keys, List.length_map, List.length_range] at hle
  have htake := List.prefix_iff_eq_take.mp hinitial
  rw [← List.map_take, List.take_range] at htake
  rw [htake, Entries.keys, List.length_map, Nat.min_eq_left hle]

/-- Fields completed have distinct keys. -/
theorem keys_fields {type : ObjectType} {source : Resolved Object Item}
    {selections : List Selection} {state next : State} {children : List (PathSegment × Slot)}
    (h : ChildrenDerivation env path
      (env.fieldsOf path type source (env.selectedFields type selections)) state children next) :
    (∀ segment ∈ Entries.keys children, segment.key?.isSome) ∧ (Entries.keys children).Nodup := by
  constructor
  · have hinitial := h.keys_initial
    rw [env.map_segment_fieldsOf] at hinitial
    intro segment hmem
    obtain ⟨field, -, rfl⟩ := List.mem_map.mp (hinitial.subset hmem)
    rfl
  · exact h.keys_initial.sublist.nodup (env.nodup_fieldsOf path type source selections)

end ChildrenDerivation

/-- Null is found where it was returned and may stand. -/
theorem PlaceDerivation.returned {env : Environment State Object Item}
    {info : ResolveInfo Object Item} {path : Path} {type : TypeRef}
    {resolved : Except Failure (Resolved Object Item)} {state next : State}
    (h : PlaceDerivation env info path type resolved state .null next) :
    ∃ value, resolved = .ok value ∧ value.isNull = true ∧ type.nonNull = false := by
  cases h with
  | null found =>
      have hfits := Completion.gives_examine env info type resolved state
      rw [found] at hfits
      cases hfits with
      | null nullable null => exact ⟨_, rfl, null, nullable⟩

mutual

/-- Derived places are valid at their types. -/
theorem PlaceDerivation.valid {env : Environment State Object Item}
    {info : ResolveInfo Object Item} {path : Path} {type : TypeRef}
    {resolved : Except Failure (Resolved Object Item)} {state next : State} {place : Place} :
    PlaceDerivation env info path type resolved state place next → Slot.Valid (type, place)
  | .failed _ => .failed _ _
  | .null found => by
      have hplace : PlaceDerivation env info path type resolved state .null next := .null found
      obtain ⟨_, _, _, nullable⟩ := hplace.returned
      exact .null nullable
  | .leaf found => by
      have hfits := Completion.gives_examine env info type resolved state
      rw [found] at hfits
      cases hfits with
      | leaf _ form => exact .leaf form.isNull_eq_false
  | .list _ below => .list below.keys_items below.valid
  | .object _ below => .object below.keys_fields.1 below.keys_fields.2 below.valid

theorem ChildrenDerivation.valid {env : Environment State Object Item} {path : Path}
    {pendings : List (Pending State Object Item)} {state next : State}
    {children : List (PathSegment × Slot)} :
    ChildrenDerivation env path pendings state children next →
      ∀ child ∈ children, Slot.Valid child.2
  | .nil _ _ => by simp
  | .stop _ head _ => by simpa using head.valid
  | .cons _ head _ tail => by
      rintro child hmem
      rcases List.mem_cons.mp hmem with rfl | hmem
      · exact head.valid
      · exact tail.valid child hmem

end

theorem RunDerivation.valid {env : Environment State Object Item} {type : ObjectType}
    {state next : State} {record : Slot} (h : RunDerivation env type state record next) :
    record.Valid := by
  obtain ⟨below⟩ := h
  exact .object below.keys_fields.1 below.keys_fields.2 below.valid

end GraphQL
