import GraphQL.Schema.Executable

/-! # The form of leaf values

What the response holds at a scalar or enum type: the canonical form of the type, or whatever the
type's own serializer gives. It is never null. -/

namespace GraphQL

/-- The canonical form of the values of a built-in scalar. -/
def BuiltInScalar.Canonical : BuiltInScalar → Json → Prop
  | int, .number (.integer n) => FitsInt n
  | float, .number _ => True
  | string, .string _ => True
  | boolean, .bool _ => True
  | id, .string _ => True
  | _, _ => False

namespace BuiltInScalar

theorem canonical_intResult? {n : Int} {value : Json} (h : intResult? n = some value) :
    int.Canonical value := by
  unfold intResult? at h
  split at h
  · rename_i hfits
    obtain rfl := Option.some.inj h
    exact hfits
  · simp at h

theorem canonical_serialize? {scalar : BuiltInScalar} {raw value : Json}
    (h : scalar.serialize? raw = some value) : scalar.Canonical value := by
  cases scalar with
  | int =>
      obtain ⟨whole, -, hresult⟩ := Option.bind_eq_some_iff.mp h
      exact canonical_intResult? hresult
  | float =>
      cases raw <;> simp only [serialize?, serializeFloat?, reduceCtorEq] at h
      case string s =>
        obtain ⟨x, -, rfl⟩ := Option.map_eq_some_iff.mp h
        trivial
      all_goals obtain rfl := Option.some.inj h; trivial
  | string =>
      cases raw <;> simp only [serialize?, serializeString?, reduceCtorEq] at h
      all_goals obtain rfl := Option.some.inj h; trivial
  | boolean =>
      cases raw <;> simp only [serialize?, serializeBoolean?, reduceCtorEq] at h
      all_goals obtain rfl := Option.some.inj h; trivial
  | id =>
      cases raw <;> simp only [serialize?, serializeId?, reduceCtorEq] at h
      case number n =>
        cases n with
        | integer n => obtain rfl := Option.some.inj h; trivial
        | float x => cases h
      case string s => obtain rfl := Option.some.inj h; trivial

/-- A value in canonical form is serialized as it is. -/
theorem Canonical.serialize? {scalar : BuiltInScalar} {value : Json} (h : scalar.Canonical value) :
    scalar.serialize? value = some value := by
  cases scalar with
  | int =>
      cases value with
      | number n =>
          cases n with
          | integer n =>
              have hfits : FitsInt n := h
              simp only [BuiltInScalar.serialize?, serializeInt?, wholeNumber?, hfits.int64?_eq]
              exact if_pos hfits
          | float x => exact h.elim
      | _ => exact h.elim
  | _ => cases value <;> first | rfl | exact h.elim

theorem Canonical.isNull_eq_false {scalar : BuiltInScalar} {value : Json}
    (h : scalar.Canonical value) : value.isNull = false := by
  cases value <;> first | rfl | (cases scalar <;> exact h.elim)

end BuiltInScalar

variable {State Object Item : Type}

namespace ExecutableSchema

/-- What the response may hold at a leaf type. Where a serializer is registered nothing else is
known of its results; scalars that are not built in take every value. -/
inductive LeafForm (executable : ExecutableSchema State Object Item) : TypeDefinition → Json → Prop
  | serialized {definition : TypeDefinition} {value : Json} (leaf : definition.isLeaf)
      (registered : (executable.serializer? definition.name).isSome)
      (present : value.isNull = false) : LeafForm executable definition value
  | builtIn {name : String} {scalar : BuiltInScalar} {value : Json}
      (unregistered : executable.serializer? name = none)
      (named : BuiltInScalar.ofName? name = some scalar)
      (canonical : scalar.Canonical value) : LeafForm executable (.scalar name) value
  | custom {name : String} {value : Json}
      (unregistered : executable.serializer? name = none)
      (named : BuiltInScalar.ofName? name = none)
      (present : value.isNull = false) : LeafForm executable (.scalar name) value
  | enum {type : EnumType} {text : String}
      (unregistered : executable.serializer? type.name = none)
      (member : type.values.contains text) : LeafForm executable (.enum type) (.string text)

variable {executable : ExecutableSchema State Object Item}

theorem LeafForm.isNull_eq_false {definition : TypeDefinition} {value : Json}
    (h : executable.LeafForm definition value) : value.isNull = false := by
  cases h with
  | serialized _ _ present => exact present
  | builtIn _ _ canonical => exact canonical.isNull_eq_false
  | custom _ _ present => exact present
  | enum => rfl

/-- Serialization at a leaf type gives values of the type's form, or null. -/
theorem leafForm_serialize? {definition : TypeDefinition} {raw value : Json} {state : State}
    (leaf : definition.isLeaf)
    (h : ((executable.serialize? definition raw).run state).1 = some value)
    (present : value.isNull = false) : executable.LeafForm definition value := by
  cases hserializer : executable.serializer? definition.name with
  | some run => exact .serialized leaf (by simp [hserializer]) present
  | none =>
      cases definition with
      | scalar name =>
          have hnone : executable.serializer? name = none := hserializer
          cases hscalar : BuiltInScalar.ofName? name with
          | none => exact .custom hnone hscalar present
          | some scalar =>
              have hresult : scalar.serialize? raw = some value := by
                simp only [serialize?, TypeDefinition.name, hnone, hscalar] at h
                exact h
              exact .builtIn hnone hscalar (BuiltInScalar.canonical_serialize? hresult)
      | enum type =>
          cases raw <;> simp only [serialize?, hserializer] at h
          case string text =>
            by_cases hmember : type.values.contains text
            · simp only [hmember, ite_true] at h
              obtain rfl := Option.some.inj h
              exact .enum hserializer hmember
            · simp [hmember] at h
          all_goals cases h
      | _ => simp [serialize?, hserializer] at h

end ExecutableSchema

/-! ## Serialization without hooks -/

/-- The response form of a value of a leaf type by the rules of built-in scalars and enums. Other
scalars take every value as it is. -/
def TypeDefinition.serialize? : TypeDefinition → Json → Option Json
  | .scalar name, value =>
    match BuiltInScalar.ofName? name with
    | some builtIn => builtIn.serialize? value
    | none => some value
  | .enum type, .string text => if type.values.contains text then some (.string text) else none
  | _, _ => none

theorem ExecutableSchema.serialize?_of_unregistered
    {executable : ExecutableSchema State Object Item} {definition : TypeDefinition}
    (unregistered : executable.serializer? definition.name = none) (value : Json) :
    executable.serialize? definition value = pure (definition.serialize? value) := by
  cases definition with
  | scalar name =>
      simp only [serialize?, unregistered, TypeDefinition.serialize?]
      cases BuiltInScalar.ofName? name <;> rfl
  | enum type => cases value <;> simp only [serialize?, unregistered] <;> rfl
  | _ => simp only [serialize?, unregistered, TypeDefinition.serialize?]

/-- Serialization does not turn a value into null. -/
theorem TypeDefinition.isNull_of_serialize? {definition : TypeDefinition} {raw value : Json}
    (h : definition.serialize? raw = some value) (present : raw.isNull = false) :
    value.isNull = false := by
  cases definition with
  | scalar name =>
      simp only [serialize?] at h
      cases hscalar : BuiltInScalar.ofName? name with
      | none =>
          simp only [hscalar, Option.some.injEq] at h
          exact h ▸ present
      | some builtIn =>
          simp only [hscalar] at h
          exact (BuiltInScalar.canonical_serialize? h).isNull_eq_false
  | enum type =>
      cases raw with
      | string text =>
          obtain ⟨-, heq⟩ := Option.ite_none_right_eq_some.mp h
          exact Option.some.inj heq ▸ present
      | _ => cases h
  | _ => cases h

/-- Serializing a value once more does not change it. -/
theorem TypeDefinition.serialize?_of_serialize? {definition : TypeDefinition} {raw value : Json}
    (h : definition.serialize? raw = some value) : definition.serialize? value = some value := by
  cases definition with
  | scalar name =>
      simp only [serialize?] at h ⊢
      cases hscalar : BuiltInScalar.ofName? name with
      | none => rfl
      | some builtIn =>
          simp only [hscalar] at h
          exact (BuiltInScalar.canonical_serialize? h).serialize?
  | enum type =>
      cases raw with
      | string text =>
          obtain ⟨hmember, heq⟩ := Option.ite_none_right_eq_some.mp h
          obtain rfl := Option.some.inj heq
          exact if_pos hmember
      | _ => cases h
  | _ => cases h

end GraphQL
