import GraphQL.Execution.Exec

/-! # Records of places

A record tells what became of every place of a response that was reached: it failed there, or null,
a leaf, a list or an object was found, with a record for each place below. The data of the response
and its errors are functions of the record. -/

namespace GraphQL

/-- What became of one place. Below a list or an object stand the places that were completed, in
order, each with its segment and its declared type. -/
inductive Place where
  | failed (failure : Failure) (locations : List Location)
  | null
  | leaf (value : Json)
  | list (items : List (PathSegment × TypeRef × Place))
  | object (fields : List (PathSegment × TypeRef × Place))

/-- A place together with its declared type. -/
abbrev Slot := TypeRef × Place

/-- What stands at a place of this type in the end: a null on its way stays if it may. -/
def TypeRef.settle (type : TypeRef) : Option Json → Option Json
  | some value => some value
  | none => if type.nonNull then none else some .null

def PathSegment.key? : PathSegment → Option String
  | .key name => some name
  | .index _ => none

/-- The members of a JSON object, given the values of its fields. -/
def membersOf (values : List (PathSegment × Json)) : Members :=
  values.filterMap fun (segment, value) => segment.key?.map fun name => (name, value)

/-- The same error, seen from a place that lies `path` above. -/
def FieldError.under (path : Path) (error : FieldError) : FieldError :=
  { error with path := path ++ error.path }

namespace Place

mutual

/-- The data of a place, or `none` if it sends a null upwards. -/
def data? : Place → Option Json
  | .failed _ _ => none
  | .null => some .null
  | .leaf value => some value
  | .list items => (values? items).map fun values => .array (values.map Prod.snd)
  | .object fields => (values? fields).map fun values => .object (membersOf values)

/-- What stands at the places below, unless one of them sends a null upwards. -/
def values? : List (PathSegment × TypeRef × Place) → Option (List (PathSegment × Json))
  | [] => some []
  | (segment, type, place) :: rest =>
    match type.settle place.data? with
    | some value => (values? rest).map fun values => (segment, value) :: values
    | none => none

end

mutual

/-- The failures at a place and below it, their paths starting from there. -/
def errors : Place → List FieldError
  | .failed failure locations => [⟨failure, [], locations⟩]
  | .null => []
  | .leaf _ => []
  | .list items => errorsBelow items
  | .object fields => errorsBelow fields

def errorsBelow : List (PathSegment × TypeRef × Place) → List FieldError
  | [] => []
  | (segment, _, place) :: rest => place.errors.map (.under [segment]) ++ errorsBelow rest

end

def children : Place → List (PathSegment × Slot)
  | .list items => items
  | .object fields => fields
  | _ => []

end Place

namespace Slot

/-- What stands in the slot in the end, or `none` if a null goes further up. -/
def value? (slot : Slot) : Option Json := slot.1.settle slot.2.data?

/-- The slot that lies `path` below, if it was reached. -/
def find? : Slot → Path → Option Slot
  | slot, [] => some slot
  | slot, segment :: rest =>
    (Entries.get? segment slot.2.children).bind fun child => find? child rest

end Slot

/-- The value that lies `path` below in JSON data. -/
def Json.at? : Json → Path → Option Json
  | value, [] => some value
  | .array items, .index position :: rest => (items[position]?).bind fun item => item.at? rest
  | .object members, .key name :: rest =>
    (Entries.get? name members).bind fun value => value.at? rest
  | _, _ :: _ => none

/-- Records as they come out of an execution: null stands only where the type allows it, no leaf is
null, items are numbered from zero and fields have distinct keys. -/
inductive Slot.Valid : Slot → Prop
  | failed {type : TypeRef} (failure : Failure) (locations : List Location) :
      Valid (type, .failed failure locations)
  | null {type : TypeRef} (h : type.nonNull = false) : Valid (type, .null)
  | leaf {type : TypeRef} {value : Json} (h : value.isNull = false) : Valid (type, .leaf value)
  | list {type : TypeRef} {items : List (PathSegment × Slot)}
      (numbered : Entries.keys items = (List.range items.length).map PathSegment.index)
      (valid : ∀ child ∈ items, Valid child.2) : Valid (type, .list items)
  | object {type : TypeRef} {fields : List (PathSegment × Slot)}
      (named : ∀ segment ∈ Entries.keys fields, segment.key?.isSome)
      (distinct : (Entries.keys fields).Nodup)
      (valid : ∀ child ∈ fields, Valid child.2) : Valid (type, .object fields)

/-! ## Settled values -/

@[simp] theorem TypeRef.settle_some (type : TypeRef) (value : Json) :
    type.settle (some value) = some value := rfl

theorem TypeRef.settle_eq_none {type : TypeRef} {data? : Option Json} :
    type.settle data? = none ↔ data? = none ∧ type.nonNull = true := by
  cases data? <;> simp [settle]

/-- A slot has the value of its place, or null for none. -/
theorem Slot.value?_eq_some {slot : Slot} {value : Json} :
    slot.value? = some value ↔
      slot.2.data? = some value ∨
        slot.2.data? = none ∧ value = .null ∧ slot.1.nonNull = false := by
  rw [value?]
  cases slot.2.data? with
  | some data => simp
  | none => cases hnull : slot.1.nonNull <;> simp [TypeRef.settle, hnull, eq_comm]

theorem Slot.value?_eq_none {slot : Slot} :
    slot.value? = none ↔ slot.2.data? = none ∧ slot.1.nonNull = true :=
  TypeRef.settle_eq_none

theorem Slot.isSome_value? (slot : Slot) :
    slot.value?.isSome = (slot.2.data?.isSome || !slot.1.nonNull) := by
  rw [value?]
  cases slot.2.data? with
  | some data => rfl
  | none => cases hnull : slot.1.nonNull <;> simp [TypeRef.settle, hnull]

/-- No null goes further up from a slot that may be null. -/
theorem Slot.exists_value? {slot : Slot} (nullable : slot.1.nonNull = false) :
    ∃ value, slot.value? = some value :=
  Option.isSome_iff_exists.mp (by simp [isSome_value?, nullable])

@[simp] theorem FieldError.under_nil (error : FieldError) : error.under [] = error := rfl

@[simp] theorem FieldError.map_under_nil (errors : List FieldError) :
    errors.map (.under []) = errors :=
  List.map_id errors

theorem FieldError.under_under (path rest : Path) (error : FieldError) :
    (error.under rest).under path = error.under (path ++ rest) := by
  simp [under, List.append_assoc]

namespace Place

theorem values?_cons (segment : PathSegment) (slot : Slot) (rest : List (PathSegment × Slot)) :
    values? ((segment, slot) :: rest) =
      slot.value?.bind fun value =>
        (values? rest).map fun values => (segment, value) :: values := by
  obtain ⟨type, place⟩ := slot
  simp only [values?, Slot.value?]
  cases type.settle place.data? <;> rfl

theorem isSome_values?_cons (segment : PathSegment) (slot : Slot)
    (rest : List (PathSegment × Slot)) :
    (values? ((segment, slot) :: rest)).isSome = (slot.value?.isSome && (values? rest).isSome) := by
  rw [values?_cons]
  cases slot.value? with
  | none => rfl
  | some value => simp

theorem errorsBelow_eq (children : List (PathSegment × Slot)) :
    errorsBelow children =
      children.flatMap fun child => child.2.2.errors.map (.under [child.1]) := by
  induction children with
  | nil => rfl
  | cons child rest ih =>
      obtain ⟨segment, type, place⟩ := child
      simp [errorsBelow, ih]

theorem errors_list (items : List (PathSegment × Slot)) :
    (Place.list items).errors =
      items.flatMap fun child => child.2.2.errors.map (.under [child.1]) := by
  rw [errors, errorsBelow_eq]

theorem errors_object (fields : List (PathSegment × Slot)) :
    (Place.object fields).errors =
      fields.flatMap fun child => child.2.2.errors.map (.under [child.1]) := by
  rw [errors, errorsBelow_eq]

end Place

/-! ## Places below -/

theorem PathSegment.nodup_indices (count : Nat) :
    ((List.range count).map PathSegment.index).Nodup := by
  have hindex : ∀ a b, a ≠ b → PathSegment.index a ≠ .index b :=
    fun a b hne h => hne (PathSegment.index.inj h)
  exact List.Pairwise.map PathSegment.index hindex List.nodup_range

namespace Slot

@[simp] theorem find?_nil (slot : Slot) : slot.find? [] = some slot := rfl

theorem find?_cons (slot : Slot) (segment : PathSegment) (rest : Path) :
    slot.find? (segment :: rest) =
      (Entries.get? segment slot.2.children).bind fun lower => lower.find? rest := rfl

theorem find?_append (slot : Slot) (path rest : Path) :
    slot.find? (path ++ rest) = (slot.find? path).bind fun lower => lower.find? rest := by
  induction path generalizing slot with
  | nil => rfl
  | cons segment path ih =>
      simp only [List.cons_append, find?_cons, Option.bind_assoc]
      exact congrArg _ (funext ih)

theorem find?_singleton (slot : Slot) (segment : PathSegment) :
    slot.find? [segment] = Entries.get? segment slot.2.children := by
  simp [find?_cons]

namespace Valid

variable {slot : Slot}

theorem nodup_keys (h : slot.Valid) : (Entries.keys slot.2.children).Nodup := by
  cases h with
  | failed | null | leaf => exact List.nodup_nil
  | @list _ items numbered =>
      have hnodup := PathSegment.nodup_indices items.length
      rw [← numbered] at hnodup
      exact hnodup
  | object named distinct => exact distinct

theorem child (h : slot.Valid) {child : PathSegment × Slot} (hmem : child ∈ slot.2.children) :
    child.2.Valid := by
  cases h with
  | failed | null | leaf => cases hmem
  | list numbered valid => exact valid child hmem
  | object named distinct valid => exact valid child hmem

theorem find? (h : slot.Valid) {path : Path} {lower : Slot} (hfind : slot.find? path = some lower) :
    lower.Valid := by
  induction path generalizing slot with
  | nil =>
      obtain rfl := Option.some.inj hfind
      exact h
  | cons segment path ih =>
      obtain ⟨next, hnext, hlower⟩ := Option.bind_eq_some_iff.mp hfind
      exact ih (h.child (Entries.mem_of_get? hnext)) hlower

theorem find?_child (h : slot.Valid) {path : Path} {parent : Slot}
    (hfind : slot.find? path = some parent) {child : PathSegment × Slot}
    (hmem : child ∈ parent.2.children) : slot.find? (path ++ [child.1]) = some child.2 := by
  rw [find?_append, hfind, Option.bind_some, find?_singleton]
  exact Entries.get?_of_mem (h.find? hfind).nodup_keys hmem

theorem find?_later (h : slot.Valid) {path : Path} {parent : Slot}
    (hfind : slot.find? path = some parent) {child : PathSegment × Slot}
    {earlier later : List (PathSegment × Slot)}
    (hchildren : parent.2.children = earlier ++ child :: later) :
    slot.find? (path ++ [child.1]) = some child.2 := by
  refine h.find?_child hfind ?_
  rw [hchildren]
  exact List.mem_append_right earlier List.mem_cons_self

end Valid

end Slot

end GraphQL
