import GraphQL.Proofs.Response.Data

/-! # Records that differ at one place

Two records that differ only at a nullable place settle on the same data around it, and have the
same errors outside of it. -/

namespace GraphQL

/-- JSON data with null in place of what stands at `path`. -/
def Json.hide : Path → Json → Json
  | [], _ => .null
  | .index position :: rest, .array items => .array (items.modify position (hide rest))
  | .key name :: rest, .object members => .object (Entries.update name (hide rest) members)
  | _ :: _, value => value

/-- Two slots have the same type, and the same is recorded in them but at one nullable place. -/
inductive Slot.DifferAt : Path → Slot → Slot → Prop
  | here {type : TypeRef} {place place' : Place} (nullable : type.nonNull = false) :
      DifferAt [] (type, place) (type, place')
  | item {type : TypeRef} {rest : Path} {child child' : Slot}
      {earlier later : List (PathSegment × Slot)} (below : DifferAt rest child child') :
      DifferAt (.index earlier.length :: rest)
        (type, .list (earlier ++ (.index earlier.length, child) :: later))
        (type, .list (earlier ++ (.index earlier.length, child') :: later))
  | field {type : TypeRef} {name : String} {rest : Path} {child child' : Slot}
      {earlier later : List (PathSegment × Slot)} (below : DifferAt rest child child')
      (new : .key name ∉ Entries.keys earlier) :
      DifferAt (.key name :: rest)
        (type, .object (earlier ++ (.key name, child) :: later))
        (type, .object (earlier ++ (.key name, child') :: later))

namespace Json

theorem hide_index {before after : List Json} (value : Json) (rest : Path) :
    (Json.array (before ++ value :: after)).hide (.index before.length :: rest) =
      .array (before ++ value.hide rest :: after) := by
  rw [hide, List.modify_eq_take_cons_drop (by simp)]
  simp

theorem hide_key {name : String} {before after : Members} (value : Json) (rest : Path)
    (new : name ∉ Entries.keys before) :
    (Json.object (before ++ (name, value) :: after)).hide (.key name :: rest) =
      .object (before ++ (name, value.hide rest) :: after) := by
  rw [hide, Entries.update_of_notMem new]

theorem hide_null (path : Path) : Json.null.hide path = .null := by
  cases path with
  | nil => rfl
  | cons segment rest => cases segment <;> rfl

theorem at?_hide_same (value : Json) (segment : PathSegment) (rest : Path) :
    (value.hide (segment :: rest)).at? [segment] = (value.at? [segment]).map (hide rest) := by
  cases value with
  | null | bool | number | string => cases segment <;> rfl
  | array items =>
      cases segment with
      | key name => rfl
      | index position => cases hitem : items[position]? <;> simp [hide, at?, hitem]
  | object members =>
      cases segment with
      | index position => rfl
      | key name =>
          cases hmember : Entries.get? name members <;>
            simp [hide, at?, Entries.get?_update, hmember]

theorem at?_hide_other {segment other : PathSegment} (h : segment ≠ other) (value : Json)
    (rest : Path) : (value.hide (segment :: rest)).at? [other] = value.at? [other] := by
  cases value with
  | null | bool | number | string => cases segment <;> rfl
  | array items =>
      cases segment with
      | key name => rfl
      | index position =>
          cases other with
          | key name => rfl
          | index number =>
              have hne : position ≠ number := fun heq => h (congrArg _ heq)
              simp [hide, at?, hne]
  | object members =>
      cases segment with
      | index position => rfl
      | key name =>
          cases other with
          | index number => rfl
          | key another =>
              have hne : name ≠ another := fun heq => h (congrArg _ heq)
              simp [hide, at?, Entries.get?_update, hne]

/-- Places that are neither around the hidden place nor in it stay as they are. -/
theorem at?_hide {path other : Path} (h : ¬ path <+: other) (h' : ¬ other <+: path)
    (value : Json) : (value.hide path).at? other = value.at? other := by
  induction path generalizing other value with
  | nil => exact absurd List.nil_prefix h
  | cons segment rest ih =>
      cases other with
      | nil => exact absurd List.nil_prefix h'
      | cons first others =>
          rw [at?_cons, at?_cons value]
          by_cases hfirst : segment = first
          · subst hfirst
            have hbelow : ∀ lower : Json, (lower.hide rest).at? others = lower.at? others := by
              intro lower
              refine ih (fun hbefore => h ?_) (fun hafter => h' ?_) lower
              · exact List.cons_prefix_cons.mpr ⟨rfl, hbefore⟩
              · exact List.cons_prefix_cons.mpr ⟨rfl, hafter⟩
            rw [at?_hide_same]
            cases value.at? [segment] with
            | none => rfl
            | some lower => exact hbelow lower
          · rw [at?_hide_other hfirst]

end Json

/-! ## Data around the place -/

theorem TypeRef.map_settle (type : TypeRef) (path : Path) (data? : Option Json) :
    (type.settle data?).map (Json.hide path) = type.settle (data?.map (Json.hide path)) := by
  cases data? with
  | some value => rfl
  | none => cases h : type.nonNull <;> simp [settle, h, Json.hide_null]

namespace Place

theorem values?_append (earlier later : List (PathSegment × Slot)) :
    values? (earlier ++ later) =
      (values? earlier).bind fun before => (values? later).map fun after => before ++ after := by
  induction earlier with
  | nil => simp [values?]
  | cons child rest ih =>
      obtain ⟨segment, slot⟩ := child
      simp only [List.cons_append, values?_cons, ih]
      cases slot.value? with
      | none => rfl
      | some value => cases values? rest <;> cases values? later <;> rfl

theorem membersOf_append (before after : List (PathSegment × Json)) :
    membersOf (before ++ after) = membersOf before ++ membersOf after := by
  simp [membersOf]

theorem notMem_keys_membersOf {name : String} {values : List (PathSegment × Json)}
    (h : .key name ∉ Entries.keys values) : name ∉ Entries.keys (membersOf values) := by
  intro hmem
  obtain ⟨⟨_, value⟩, hentry, rfl⟩ := List.mem_map.mp hmem
  obtain ⟨⟨segment, _⟩, hvalue, hkey⟩ := List.mem_filterMap.mp hentry
  cases segment with
  | index position => cases hkey
  | key other =>
      cases hkey
      exact h (List.mem_map.mpr ⟨_, hvalue, rfl⟩)

/-- Values collected from places of which one differs, with that place hidden. -/
theorem hide_collected {collect : List (PathSegment × Json) → Json} {segment : PathSegment}
    {rest : Path} {child child' : Slot} {earlier later : List (PathSegment × Slot)}
    (h : child.value?.map (Json.hide rest) = child'.value?.map (Json.hide rest))
    (hcollect : ∀ before value after, SettleOn earlier before →
      (collect (before ++ (segment, value) :: after)).hide (segment :: rest) =
        collect (before ++ (segment, value.hide rest) :: after)) :
    ((values? (earlier ++ (segment, child) :: later)).map collect).map
        (Json.hide (segment :: rest)) =
      ((values? (earlier ++ (segment, child') :: later)).map collect).map
        (Json.hide (segment :: rest)) := by
  simp only [values?_append, values?_cons]
  cases hbefore : values? earlier with
  | none => rfl
  | some before =>
      cases hvalue : child.value? <;> cases hvalue' : child'.value? <;>
        simp only [hvalue, hvalue', Option.map_none, Option.map_some, reduceCtorEq,
          Option.some.injEq] at h
      · rfl
      · cases values? later with
        | none => rfl
        | some after =>
            have hcollect' := fun value => hcollect before value after (settleOn hbefore)
            simp only [Option.bind_some, Option.map_some, hcollect', h]

end Place

/-- The data is the same but at the place where the records differ. -/
theorem Slot.DifferAt.hide_value {path : Path} {slot slot' : Slot} (h : slot.DifferAt path slot') :
    slot.value?.map (Json.hide path) = slot'.value?.map (Json.hide path) := by
  induction h with
  | @here type place place' nullable =>
      have hsettled : ∀ data? : Option Json,
          (type.settle data?).map (Json.hide []) = some .null := by
        intro data?
        cases data? <;> simp [TypeRef.settle, nullable, Json.hide]
      simp only [value?, hsettled]
  | item below ih =>
      simp only [value?, TypeRef.map_settle]
      apply congrArg
      apply Place.hide_collected ih
      intro before value after hbefore
      have hlength : (before.map Prod.snd).length = _ :=
        (List.length_map Prod.snd).trans hbefore.length_eq
      simp only [List.map_append, List.map_cons, ← hlength]
      exact Json.hide_index value _
  | field below new ih =>
      simp only [value?, TypeRef.map_settle]
      apply congrArg
      apply Place.hide_collected ih
      intro before value after hbefore
      rw [Place.membersOf_append, Place.membersOf_append]
      refine Json.hide_key value _ (Place.notMem_keys_membersOf ?_)
      rwa [hbefore.keys_eq]

/-! ## Errors outside the place -/

/-- The errors that are neither at the place nor below it. -/
def FieldError.outside (path : Path) (errors : List FieldError) : List FieldError :=
  errors.filter fun error => ¬ path <+: error.path

namespace FieldError

theorem outside_nil (errors : List FieldError) : outside [] errors = [] := by
  simp [outside]

theorem outside_append (path : Path) (first second : List FieldError) :
    outside path (first ++ second) = outside path first ++ outside path second :=
  List.filter_append ..

theorem outside_under (segment : PathSegment) (rest : Path) (errors : List FieldError) :
    outside (segment :: rest) (errors.map (.under [segment])) =
      (outside rest errors).map (.under [segment]) := by
  rw [outside, outside, List.filter_map]
  congr 2
  funext error
  simp [under, List.cons_prefix_cons]

theorem filter_toResponseError (path : Path) (errors : List FieldError) :
    (errors.map toResponseError).filter (fun error => ¬ path <+: error.path) =
      (outside path errors).map toResponseError := by
  rw [List.filter_map]
  rfl

end FieldError

/-- The errors are the same but at the place where the records differ, and below it. -/
theorem Slot.DifferAt.errors_outside {path : Path} {slot slot' : Slot}
    (h : slot.DifferAt path slot') :
    FieldError.outside path slot.2.errors = FieldError.outside path slot'.2.errors := by
  induction h with
  | here => rw [FieldError.outside_nil, FieldError.outside_nil]
  | item below ih =>
      simp only [Place.errors_list, List.flatMap_append, List.flatMap_cons,
        FieldError.outside_append, FieldError.outside_under, ih]
  | field below new ih =>
      simp only [Place.errors_object, List.flatMap_append, List.flatMap_cons,
        FieldError.outside_append, FieldError.outside_under, ih]

end GraphQL
