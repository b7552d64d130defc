import GraphQL.Proofs.Execution.Place

/-! # Data of a record

What stands below a place of the data is what the places below it in the record settle on. -/

namespace GraphQL

namespace Json

@[simp] theorem at?_nil (value : Json) : value.at? [] = some value := by
  cases value <;> rfl

/-- What lies below is found step by step. -/
theorem at?_cons (value : Json) (segment : PathSegment) (rest : Path) :
    value.at? (segment :: rest) = (value.at? [segment]).bind fun lower => lower.at? rest := by
  cases value with
  | null | bool | number | string => cases segment <;> rfl
  | array items => cases segment <;> simp [at?]
  | object members => cases segment <;> simp [at?]

theorem at?_null_cons (segment : PathSegment) (rest : Path) :
    Json.null.at? (segment :: rest) = none := by
  cases segment <;> rfl

end Json

/-! ## Values of places below -/

/-- Places settle on these values one by one, each at its own segment. -/
inductive SettleOn : List (PathSegment × Slot) → List (PathSegment × Json) → Prop
  | nil : SettleOn [] []
  | cons {segment slot value children values} (head : Slot.value? slot = some value)
      (tail : SettleOn children values) :
      SettleOn ((segment, slot) :: children) ((segment, value) :: values)

theorem Place.settleOn {children : List (PathSegment × Slot)}
    {values : List (PathSegment × Json)} (h : values? children = some values) :
    SettleOn children values := by
  induction children generalizing values with
  | nil =>
      obtain rfl := Option.some.inj h
      exact .nil
  | cons child rest ih =>
      obtain ⟨segment, slot⟩ := child
      rw [values?_cons] at h
      obtain ⟨value, hvalue, hrest⟩ := Option.bind_eq_some_iff.mp h
      obtain ⟨values, hvalues, rfl⟩ := Option.map_eq_some_iff.mp hrest
      exact .cons hvalue (ih hvalues)

namespace SettleOn

variable {children : List (PathSegment × Slot)} {values : List (PathSegment × Json)}

theorem get?_eq (h : SettleOn children values) (segment : PathSegment) :
    Entries.get? segment values = (Entries.get? segment children).bind Slot.value? := by
  induction h with
  | nil => rfl
  | @cons key slot value children values head tail ih =>
      by_cases hkey : key = segment
      · simp [Entries.get?, hkey, head]
      · simp [Entries.get?, hkey, ih]

theorem exists_value (h : SettleOn children values) {child : PathSegment × Slot}
    (hmem : child ∈ children) : ∃ value, child.2.value? = some value := by
  induction h with
  | nil => cases hmem
  | cons head tail ih =>
      rcases List.mem_cons.mp hmem with rfl | hmem
      · exact ⟨_, head⟩
      · exact ih hmem

theorem keys_eq (h : SettleOn children values) : Entries.keys values = Entries.keys children := by
  induction h with
  | nil => rfl
  | @cons segment _ _ _ _ head tail ih => exact congrArg (segment :: ·) ih

theorem length_eq (h : SettleOn children values) : values.length = children.length := by
  induction h with
  | nil => rfl
  | cons head tail ih => simp [ih]

end SettleOn

namespace Place

theorem values?_eq_none {children : List (PathSegment × Slot)} (h : values? children = none) :
    ∃ child ∈ children, child.2.value? = none := by
  induction children with
  | nil => cases h
  | cons child rest ih =>
      obtain ⟨key, slot⟩ := child
      rw [values?_cons] at h
      cases hvalue : slot.value? with
      | none => exact ⟨_, List.mem_cons_self, hvalue⟩
      | some value =>
          simp only [hvalue, Option.bind_some, Option.map_eq_none_iff] at h
          obtain ⟨child, hmem, hchild⟩ := ih h
          exact ⟨child, List.mem_cons_of_mem _ hmem, hchild⟩

/-- Among numbered values the number is the position. -/
theorem get?_index {values : List (PathSegment × Json)} {start : Nat}
    (h : Entries.keys values = (List.range' start values.length).map PathSegment.index)
    (position : Nat) :
    Entries.get? (.index (start + position)) values = (values.map Prod.snd)[position]? := by
  induction values generalizing start position with
  | nil => rfl
  | cons entry rest ih =>
      obtain ⟨key, value⟩ := entry
      simp only [Entries.keys, List.map_cons, List.length_cons, List.range'_succ,
        List.cons.injEq] at h
      obtain ⟨rfl, hrest⟩ := h
      cases position with
      | zero => simp [Entries.get?]
      | succ position =>
          have hne : ¬ start = start + (position + 1) := by omega
          have hnumber : start + (position + 1) = start + 1 + position := by omega
          simp only [Entries.get?, PathSegment.index.injEq, hne, ite_false, List.map_cons,
            List.getElem?_cons_succ]
          rw [hnumber]
          exact ih hrest position

/-- Among members the key of a field is its name. -/
theorem get?_key (values : List (PathSegment × Json)) (name : String) :
    Entries.get? name (membersOf values) = Entries.get? (.key name) values := by
  induction values with
  | nil => rfl
  | cons entry rest ih =>
      obtain ⟨key, value⟩ := entry
      cases key with
      | key other =>
          by_cases h : other = name
          · simp [membersOf, PathSegment.key?, Entries.get?, h]
          · simpa [membersOf, PathSegment.key?, Entries.get?, h] using ih
      | index position => simpa [membersOf, PathSegment.key?, Entries.get?] using ih

end Place

namespace Slot.Valid

/-- Below a place that holds data stands what the places below settle on. -/
theorem at?_child {slot : Slot} (h : slot.Valid) {value : Json} (hdata : slot.2.data? = some value)
    {segment : PathSegment} {child : Slot}
    (hchild : Entries.get? segment slot.2.children = some child) :
    ∃ lower, child.value? = some lower ∧
      ∀ rest, value.at? (segment :: rest) = lower.at? rest := by
  have hmem := Entries.mem_of_get? hchild
  have hkey : segment ∈ Entries.keys slot.2.children := List.mem_map.mpr ⟨_, hmem, rfl⟩
  cases h with
  | failed | null | leaf => cases hmem
  | @list _ items numbered valid =>
      obtain ⟨values, hvalues, rfl⟩ := Option.map_eq_some_iff.mp hdata
      have hsettle := Place.settleOn hvalues
      obtain ⟨lower, hlower⟩ := hsettle.exists_value hmem
      have hkeys : Entries.keys values =
          (List.range' 0 values.length).map PathSegment.index := by
        rw [hsettle.keys_eq, numbered, hsettle.length_eq, List.range_eq_range']
      change segment ∈ Entries.keys items at hkey
      rw [numbered] at hkey
      obtain ⟨position, -, rfl⟩ := List.mem_map.mp hkey
      have hfound := Place.get?_index hkeys position
      change Entries.get? (.index position) items = some child at hchild
      rw [Nat.zero_add, hsettle.get?_eq, hchild, Option.bind_some, hlower] at hfound
      refine ⟨lower, hlower, ?_⟩
      intro rest
      change ((values.map Prod.snd)[position]?).bind _ = _
      rw [← hfound, Option.bind_some]
  | @object _ fields named distinct valid =>
      obtain ⟨values, hvalues, rfl⟩ := Option.map_eq_some_iff.mp hdata
      have hsettle := Place.settleOn hvalues
      obtain ⟨lower, hlower⟩ := hsettle.exists_value hmem
      cases segment with
      | index position => cases named _ hkey
      | key name =>
          have hfound := Place.get?_key values name
          change Entries.get? (.key name) fields = some child at hchild
          rw [hsettle.get?_eq, hchild, Option.bind_some, hlower] at hfound
          refine ⟨lower, hlower, ?_⟩
          intro rest
          change (Entries.get? name (membersOf values)).bind _ = _
          rw [hfound, Option.bind_some]

end Slot.Valid

end GraphQL
