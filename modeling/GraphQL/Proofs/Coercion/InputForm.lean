import GraphQL.Proofs.Coercion.Forms
import GraphQL.Proofs.Schema.LeafForm

/-! # The form of coerced values

Whatever JSON value or literal is coerced to an input type, the result has the form of the type:
null is found at nullable types only, built-in scalars are in their canonical form, and input
objects have their fields in order, none of the required ones missing. -/

namespace GraphQL

/-- A value has the form of an input type. Scalars that are not built in take every value. -/
inductive Schema.InputConforms (schema : Schema) : TypeRef → Json → Prop
  | null {type} (nullable : TypeRef.nonNull type = false) : InputConforms schema type .null
  | list {item nonNull values} (each : ∀ value ∈ values, InputConforms schema item value) :
      InputConforms schema (.list item nonNull) (.array values)
  | builtIn {name nonNull declared scalar value}
      (found : schema.type? name = some (.scalar declared))
      (named : BuiltInScalar.ofName? name = some scalar) (canonical : scalar.Canonical value) :
      InputConforms schema (.named name nonNull) value
  | custom {name nonNull declared} (value : Json)
      (found : schema.type? name = some (.scalar declared))
      (named : BuiltInScalar.ofName? name = none) :
      InputConforms schema (.named name nonNull) value
  | enum {name nonNull type text} (found : schema.type? name = some (.enum type))
      (member : type.values.contains text) :
      InputConforms schema (.named name nonNull) (.string text)
  | object {name nonNull type members} (found : schema.type? name = some (.inputObject type))
      (ordered : (Entries.keys members).Sublist (type.fields.entries.map InputValue.name))
      (present : ∀ field ∈ type.fields.entries,
        field.type.nonNull = true ∨ field.default?.isSome → field.name ∈ Entries.keys members)
      (each : ∀ field ∈ type.fields.entries, ∀ value, (field.name, value) ∈ members →
        InputConforms schema field.type value) :
      InputConforms schema (.named name nonNull) (.object members)

variable {schema : Schema}

theorem Schema.form_inputConforms (schema : Schema) : schema.Form schema.InputConforms :=
  ⟨.null, .list, .object⟩

/-- What coerces a literal to a type gives values of that form. -/
def Schema.DefaultsConform (schema : Schema) (default : TypeRef → Literal → Except Reason Json) :
    Prop :=
  ∀ type literal value, default type literal = .ok value → schema.InputConforms type value

/-- What a leaf becomes: a scalar that is not built in takes the whole value, other scalars and
enums have their canonical forms. -/
inductive Schema.GivesLeaf (schema : Schema) (name : String) (whole : Json) : Json → Prop
  | custom {declared} (found : schema.type? name = some (.scalar declared))
      (named : BuiltInScalar.ofName? name = none) : GivesLeaf schema name whole whole
  | builtIn {declared scalar value} (found : schema.type? name = some (.scalar declared))
      (named : BuiltInScalar.ofName? name = some scalar) (canonical : scalar.Canonical value) :
      GivesLeaf schema name whole value
  | enum {type text} (found : schema.type? name = some (.enum type))
      (member : type.values.contains text) : GivesLeaf schema name whole (.string text)

theorem Schema.GivesLeaf.conforms {name : String} {whole value : Json}
    (h : schema.GivesLeaf name whole value) (nonNull : Bool) :
    schema.InputConforms (.named name nonNull) value := by
  cases h with
  | custom found named => exact .custom whole found named
  | builtIn found named canonical => exact .builtIn found named canonical
  | enum found member => exact .enum found member

/-! ## JSON values -/

namespace Coercion

theorem canonical_intInput {raw value : Json} (h : intInput raw = .ok value) :
    BuiltInScalar.int.Canonical value := by
  cases raw with
  | number number =>
      rw [intInput] at h
      split at h
      · rename_i hwhole
        split at h
        · rename_i hfits
          cases h
          rw [Number.eq_of_int64? hwhole]
          exact hfits
        · cases h
      · split at h
        · split at h
          · rename_i hfits
            cases h
            exact hfits.2
          · cases h
        · cases h
  | _ => cases h

theorem canonical_scalarInput? {scalar : BuiltInScalar} {raw value : Json}
    (h : scalarInput? scalar raw = some value) : scalar.Canonical value := by
  unfold scalarInput? at h
  split at h <;> cases h <;> trivial

theorem scalarInput_cases {name : String} {raw value : Json}
    (h : scalarInput name raw = .ok value) :
    (BuiltInScalar.ofName? name = none ∧ value = raw) ∨
      ∃ scalar, BuiltInScalar.ofName? name = some scalar ∧ scalar.Canonical value := by
  unfold scalarInput at h
  split at h
  · rename_i hnamed
    cases h
    exact .inl ⟨hnamed, rfl⟩
  · rename_i hnamed
    exact .inr ⟨.int, hnamed, canonical_intInput h⟩
  · rename_i scalar _ hnamed
    split at h
    · rename_i hscalar
      cases h
      exact .inr ⟨scalar, hnamed, canonical_scalarInput? hscalar⟩
    · cases h

theorem givesLeaf_leafInput {raw : Json} {name : String} {value : Json}
    (h : leafInput schema raw name = .ok value) : schema.GivesLeaf name raw value := by
  unfold leafInput at h
  split at h
  · rename_i hfound
    rcases scalarInput_cases h with ⟨hnamed, rfl⟩ | ⟨scalar, hnamed, hcanonical⟩
    · exact .custom hfound hnamed
    · exact .builtIn hfound hnamed hcanonical
  · rename_i type hfound
    unfold enumInput at h
    split at h
    · split at h
      · rename_i hmember
        cases h
        exact .enum hfound hmember
      · cases h
    · cases h
  · cases h
  · cases h

end Coercion

/-! ## Literals -/

/-- Where a literal is coerced to a type, the value of a variable is expected to be of a type. What
stands below a scalar that takes every value is not expected to be of any type. -/
inductive Schema.Expects (schema : Schema) : Literal → TypeRef → String → TypeRef → Prop
  | var (name : String) (type : TypeRef) : Expects schema (.var name) type name type
  | item {items literal item nonNull name expected} (hmem : literal ∈ items)
      (below : Expects schema literal item name expected) :
      Expects schema (.list items) (.list item nonNull) name expected
  | field {fields literal type object field name expected}
      (found : schema.type? (TypeRef.innerName type) = some (.inputObject object))
      (declared : field ∈ object.fields.entries) (hmem : (field.name, literal) ∈ fields)
      (below : Expects schema literal field.type name expected) :
      Expects schema (.object fields) type name expected

/-- The values of variables have the forms that are expected of them, or are null. -/
def Schema.Suits (schema : Schema) (bindings : Members) (literal : Literal) (type : TypeRef) :
    Prop :=
  ∀ name expected value, schema.Expects literal type name expected →
    Entries.get? name bindings = some value →
    value.isNull = true ∨ schema.InputConforms expected value

theorem Schema.suits_nil (literal : Literal) (type : TypeRef) : schema.Suits [] literal type :=
  nofun

namespace Coercion

variable {bindings : Members}

theorem canonical_toScalar? {scalar : BuiltInScalar} {literal : Literal} {value : Json}
    (h : literal.toScalar? scalar = some value) : scalar.Canonical value := by
  unfold Literal.toScalar? at h
  split at h
  · obtain ⟨x, -, rfl⟩ := Option.map_eq_some_iff.mp h
    trivial
  · obtain ⟨x, -, rfl⟩ := Option.map_eq_some_iff.mp h
    trivial
  all_goals cases h
  all_goals trivial

theorem givesLeaf_leafLiteral {literal : Literal} {name : String} {nonNull : Bool} {value : Json}
    (h : leafLiteral schema bindings literal name nonNull = .ok value) :
    schema.GivesLeaf name (literal.toJson bindings) value := by
  unfold leafLiteral at h
  split at h
  · rename_i declared hfound
    unfold scalarLiteral at h
    split at h
    · rename_i hnamed
      cases h
      exact .custom hfound hnamed
    · rename_i hnamed
      split at h
      · rename_i hresult
        cases h
        obtain ⟨n, -, hresult⟩ := Option.bind_eq_some_iff.mp hresult
        exact .builtIn hfound hnamed (BuiltInScalar.canonical_intResult? hresult)
      · cases h
    · rename_i hnamed _
      split at h
      · rename_i hscalar
        cases h
        exact .builtIn hfound hnamed (canonical_toScalar? hscalar)
      · cases h
  · rename_i hfound
    split at h
    · rename_i hmember
      cases h
      exact .enum hfound hmember
    · cases h
  · cases h

/-- Coerced literals have the form of their type, if the values of their variables do. -/
theorem literalsHave_suits (schema : Schema) (bindings : Members) :
    schema.LiteralsHave bindings (schema.Suits bindings) schema.InputConforms where
  item whole hmem := fun name expected value hexpects =>
    whole name expected value (.item hmem hexpects)
  field whole found declared hmem := fun name expected value hexpects =>
    whole name expected value (.field found declared hmem hexpects)
  var {name type _} whole :=
    schema.form_inputConforms.of_variableValue fun value =>
      whole name type value (.var name type)
  leaf _ _ coerced := (givesLeaf_leafLiteral coerced).conforms _

theorem conforms_literalWith {default : TypeRef → Literal → Except Reason Json}
    (hdefault : schema.DefaultsConform default) (literal : Literal) {type : TypeRef}
    (hsuits : schema.Suits bindings literal type) {value : Json}
    (h : literalWith schema default bindings literal type = .ok value) :
    schema.InputConforms type value :=
  schema.form_inputConforms.of_literalWith (literalsHave_suits schema bindings)
    (fun _ _ _ field _ literal _ => hdefault field.type literal) literal hsuits h

theorem defaultsConform_defaultValue (depth : Nat) :
    schema.DefaultsConform (Coercion.defaultValue schema depth) := by
  induction depth with
  | zero => nofun
  | succ depth ih =>
      intro type literal value h
      exact conforms_literalWith ih literal (Schema.suits_nil literal type) h

end Coercion

namespace Schema

theorem conforms_coerceInput {raw value : Json} {type : TypeRef}
    (h : schema.coerceInput raw type = .ok value) : schema.InputConforms type value :=
  schema.form_inputConforms.of_inputWith
    (fun _ _ nonNull _ _ coerced => (Coercion.givesLeaf_leafInput coerced).conforms nonNull)
    (fun _ _ _ field _ literal _ =>
      Coercion.defaultsConform_defaultValue _ field.type literal) raw h

theorem conforms_coerceLiteral {bindings : Members} {literal : Literal} {type : TypeRef}
    (hsuits : schema.Suits bindings literal type) {value : Json}
    (h : schema.coerceLiteral bindings literal type = .ok value) :
    schema.InputConforms type value :=
  Coercion.conforms_literalWith (Coercion.defaultsConform_defaultValue _) literal hsuits h

end Schema

end GraphQL
