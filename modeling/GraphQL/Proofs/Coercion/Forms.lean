import GraphQL.Coercion.Input
import GraphQL.Proofs.Coercion.Shape
import Mathlib.Data.List.Nodup

/-! # Forms of coerced values

A form is what may be said of a value and its type. If lists have a form whenever their items do,
and input objects whenever their fields do, then coercion gives values of that form as soon as it
does so for leaves, for variables and for defaults. -/

namespace GraphQL

/-- A literal that stands for a value by itself: neither null nor a variable. -/
def Literal.IsValue (literal : Literal) : Prop := literal ≠ .null ∧ ∀ name, literal ≠ .var name

/-- What is said of a value and its type is kept by lists and input objects, and holds of null where
null is allowed. -/
structure Schema.Form (schema : Schema) (holds : TypeRef → Json → Prop) : Prop where
  null {type} (nullable : TypeRef.nonNull type = false) : holds type .null
  list {item nonNull values} (each : ∀ value ∈ values, holds item value) :
    holds (.list item nonNull) (.array values)
  object {name nonNull type members} (found : schema.type? name = some (.inputObject type))
    (ordered : (Entries.keys members).Sublist (type.fields.entries.map InputValue.name))
    (present : ∀ field ∈ type.fields.entries,
      field.type.nonNull = true ∨ field.default?.isSome → field.name ∈ Entries.keys members)
    (each : ∀ field ∈ type.fields.entries, ∀ value, (field.name, value) ∈ members →
      holds field.type value) :
    holds (.named name nonNull) (.object members)

/-- The defaults of input fields are coerced to values of a form. -/
def Schema.DefaultsHave (schema : Schema) (holds : TypeRef → Json → Prop)
    (default : TypeRef → Literal → Except Reason Json) : Prop :=
  ∀ name type, schema.type? name = some (.inputObject type) → ∀ field ∈ type.fields.entries,
    ∀ literal, field.default? = some literal →
      ∀ value, default field.type literal = .ok value → holds field.type value

theorem Json.eq_null_of_isNull {value : Json} (h : value.isNull = true) : value = .null := by
  cases value <;> first | rfl | cases h

variable {schema : Schema} {holds : TypeRef → Json → Prop}
  {default : TypeRef → Literal → Except Reason Json}

namespace Schema.Form

theorem of_singleItem (form : schema.Form holds) {coerce : String → Bool → Except Reason Json}
    {type : TypeRef}
    (hcoerce : ∀ nonNull value, coerce type.innerName nonNull = .ok value →
      holds (.named type.innerName nonNull) value)
    {value : Json} (h : Coercion.singleItem coerce type = .ok value) : holds type value := by
  induction type generalizing value with
  | named name nonNull => exact hcoerce nonNull value h
  | list item nonNull ih =>
      obtain ⟨single, hsingle, rfl⟩ := map_eq_ok_iff.mp h
      exact form.list (List.forall_mem_singleton.mpr (ih hcoerce hsingle))

theorem of_fillObject (form : schema.Form holds) (hdefault : schema.DefaultsHave holds default)
    {name : String} {nonNull : Bool} {type : InputObjectType}
    (found : schema.type? name = some (.inputObject type)) {keys : List String}
    {provided? : InputValue → Option (Except Reason Json)}
    (hprovided : ∀ field ∈ type.fields.entries, ∀ value, provided? field = some (.ok value) →
      holds field.type value)
    {value : Json} (h : Coercion.fillObject type default keys provided? = .ok value) :
    holds (.named name nonNull) value := by
  rw [Coercion.fillObject] at h
  split at h
  · cases h
  · obtain ⟨members, hmembers, rfl⟩ := map_eq_ok_iff.mp h
    have hfills := Coercion.fillFields_eq_ok_iff.mp hmembers
    refine form.object found hfills.keys_sublist (fun field hmem => hfills.mem_keys hmem) ?_
    intro field hmem value hvalue
    obtain ⟨other, hother, hname, horigin⟩ := hfills.origin hvalue
    obtain rfl : other = field := List.inj_on_of_nodup_map type.fields.distinct hother hmem hname
    rcases horigin with hgiven | ⟨literal, hdeclared, hgiven⟩
    · exact hprovided other hother value hgiven
    · exact hdefault name type found other hother literal hdeclared value hgiven

end Schema.Form

/-! ## JSON values -/

/-- Leaves that are sent are coerced to values of a form. -/
def Schema.LeavesHave (schema : Schema) (holds : TypeRef → Json → Prop) : Prop :=
  ∀ raw name nonNull value, raw.isNull = false → Coercion.leafInput schema raw name = .ok value →
    holds (.named name nonNull) value

namespace Schema.Form

open Coercion

mutual

/-- Coercion of a JSON value keeps to a form: induction on the value. -/
theorem of_inputWith (form : schema.Form holds) (hleaves : schema.LeavesHave holds)
    (hdefault : schema.DefaultsHave holds default) (raw : Json) {type : TypeRef} {value : Json}
    (h : inputWith schema default raw type = .ok value) : holds type value := by
  have hleaf : ∀ raw : Json, raw.isNull = false →
      singleItem (fun name _ => leafInput schema raw name) type = .ok value → holds type value :=
    fun raw hraw => form.of_singleItem fun nonNull value => hleaves raw _ nonNull value hraw
  cases raw with
  | null =>
      rw [inputWith] at h
      split at h
      · cases h
      · rename_i hnullable
        cases h
        exact form.null (Bool.eq_false_iff.mpr hnullable)
  | array items =>
      cases type with
      | named name nonNull => exact hleaf (.array items) rfl h
      | list item nonNull =>
          rw [inputWith] at h
          obtain ⟨values, hvalues, rfl⟩ := map_eq_ok_iff.mp h
          exact form.list (of_inputItemsWith form hleaves hdefault items hvalues)
  | object members =>
      rw [inputWith] at h
      refine form.of_singleItem (fun nonNull value hvalue => ?_) h
      split at hvalue
      · rename_i object hfound
        refine form.of_fillObject hdefault hfound (fun field _ value hprovided => ?_) hvalue
        obtain ⟨provide, hget, hgiven⟩ := Option.map_eq_some_iff.mp hprovided
        exact of_inputMembersWith form hleaves hdefault members (Entries.mem_of_get? hget)
          (mapError_eq_ok_iff.mp hgiven)
      · exact hleaves _ _ nonNull value rfl hvalue
  | bool b => exact hleaf (.bool b) rfl h
  | number n => exact hleaf (.number n) rfl h
  | string text => exact hleaf (.string text) rfl h

theorem of_inputItemsWith (form : schema.Form holds) (hleaves : schema.LeavesHave holds)
    (hdefault : schema.DefaultsHave holds default) (items : List Json) {type : TypeRef}
    {values : List Json} (h : inputItemsWith schema default items type = .ok values) :
    ∀ value ∈ values, holds type value := by
  cases items with
  | nil =>
      cases h
      exact List.forall_mem_nil _
  | cons item rest =>
      rw [inputItemsWith, bind_eq_ok_iff] at h
      obtain ⟨value, hvalue, h⟩ := h
      obtain ⟨others, hothers, heq⟩ := bind_eq_ok_iff.mp h
      cases heq
      exact List.forall_mem_cons.mpr
        ⟨of_inputWith form hleaves hdefault item hvalue,
          of_inputItemsWith form hleaves hdefault rest hothers⟩

theorem of_inputMembersWith (form : schema.Form holds) (hleaves : schema.LeavesHave holds)
    (hdefault : schema.DefaultsHave holds default) (members : Members) {name : String}
    {provide : TypeRef → Except Reason Json}
    (hmem : (name, provide) ∈ inputMembersWith schema default members) {type : TypeRef}
    {value : Json} (h : provide type = .ok value) : holds type value := by
  cases members with
  | nil => cases hmem
  | cons member rest =>
      obtain ⟨key, raw⟩ := member
      rw [inputMembersWith] at hmem
      rcases List.mem_cons.mp hmem with heq | hmem
      · cases heq
        exact of_inputWith form hleaves hdefault raw h
      · exact of_inputMembersWith form hleaves hdefault rest hmem h

end

end Schema.Form

/-! ## Literals -/

/-- What is given of a literal at a type is passed on to its items and fields, and makes variables
and leaves have a form. -/
structure Schema.LiteralsHave (schema : Schema) (bindings : Members)
    (given : Literal → TypeRef → Prop) (holds : TypeRef → Json → Prop) : Prop where
  item {items literal item nonNull} (whole : given (.list items) (.list item nonNull))
    (hmem : literal ∈ items) : given literal item
  field {fields literal type object field} (whole : given (.object fields) type)
    (found : schema.type? (TypeRef.innerName type) = some (.inputObject object))
    (declared : field ∈ object.fields.entries) (hmem : (field.name, literal) ∈ fields) :
    given literal field.type
  var {name type value} (whole : given (.var name) type)
    (coerced : Coercion.variableValue bindings name type = .ok value) : holds type value
  leaf {literal type nonNull value} (whole : given literal type) (written : literal.IsValue)
    (coerced : Coercion.leafLiteral schema bindings literal (TypeRef.innerName type) nonNull =
      .ok value) :
    holds (.named type.innerName nonNull) value

variable {bindings : Members} {given : Literal → TypeRef → Prop}

/-- A variable gives its own value or, where that is allowed, null. -/
theorem Coercion.variableValue_cases {name : String} {type : TypeRef} {value : Json}
    (h : variableValue bindings name type = .ok value) :
    (value = .null ∧ type.nonNull = false) ∨
      (Entries.get? name bindings = some value ∧ value.isNull = false) := by
  unfold variableValue at h
  split at h
  · rename_i bound hbound
    split at h
    · cases h
    · rename_i hallowed
      cases h
      cases hnull : value.isNull with
      | false => exact .inr ⟨hbound, rfl⟩
      | true => exact .inl ⟨Json.eq_null_of_isNull hnull, by simpa [hnull] using hallowed⟩
  · split at h
    · cases h
    · rename_i hnullable
      cases h
      exact .inl ⟨rfl, Bool.eq_false_iff.mpr hnullable⟩

namespace Schema.Form

open Coercion

/-- A variable whose value is null or has a form gives a value of that form. -/
theorem of_variableValue (form : schema.Form holds) {name : String} {type : TypeRef}
    (hbound : ∀ value, Entries.get? name bindings = some value →
      value.isNull = true ∨ holds type value)
    {value : Json} (h : variableValue bindings name type = .ok value) : holds type value := by
  rcases variableValue_cases h with ⟨rfl, hnullable⟩ | ⟨hvalue, hpresent⟩
  · exact form.null hnullable
  · exact (hbound value hvalue).resolve_left (by simp [hpresent])

mutual

/-- Coercion of a literal keeps to a form: induction on the literal. -/
theorem of_literalWith (form : schema.Form holds)
    (literals : schema.LiteralsHave bindings given holds)
    (hdefault : schema.DefaultsHave holds default) (literal : Literal) {type : TypeRef}
    (hgiven : given literal type) {value : Json}
    (h : literalWith schema default bindings literal type = .ok value) : holds type value := by
  have hleaf : literal.IsValue →
      singleItem (leafLiteral schema bindings literal) type = .ok value → holds type value :=
    fun hwritten => form.of_singleItem fun _ _ => literals.leaf hgiven hwritten
  cases literal with
  | var name =>
      rw [literalWith] at h
      exact literals.var hgiven h
  | null =>
      rw [literalWith] at h
      split at h
      · cases h
      · rename_i hnullable
        cases h
        exact form.null (Bool.eq_false_iff.mpr hnullable)
  | list items =>
      cases type with
      | named name nonNull => exact hleaf ⟨nofun, nofun⟩ h
      | list item nonNull =>
          rw [literalWith] at h
          obtain ⟨values, hvalues, rfl⟩ := map_eq_ok_iff.mp h
          exact form.list (of_itemsWith form literals hdefault items
            (fun literal hmem => literals.item hgiven hmem) hvalues)
  | object fields =>
      rw [literalWith] at h
      refine form.of_singleItem (fun nonNull value hvalue => ?_) h
      split at hvalue
      · rename_i object hfound
        refine form.of_fillObject hdefault hfound (fun field hfield value hprovided => ?_) hvalue
        obtain ⟨provide?, hget, hprovided⟩ := Option.bind_eq_some_iff.mp hprovided
        obtain ⟨provide, rfl, hcoerced⟩ := Option.map_eq_some_iff.mp hprovided
        exact of_fieldsWith form literals hdefault fields
          (fun literal hmem => literals.field hgiven hfound hfield hmem)
          (Entries.mem_of_get? hget) hcoerced
      · exact literals.leaf hgiven ⟨nofun, nofun⟩ hvalue
  | bool b => exact hleaf ⟨nofun, nofun⟩ h
  | int text => exact hleaf ⟨nofun, nofun⟩ h
  | float text => exact hleaf ⟨nofun, nofun⟩ h
  | string text => exact hleaf ⟨nofun, nofun⟩ h
  | enum name => exact hleaf ⟨nofun, nofun⟩ h

theorem of_itemsWith (form : schema.Form holds)
    (literals : schema.LiteralsHave bindings given holds)
    (hdefault : schema.DefaultsHave holds default) (items : List Literal) {type : TypeRef}
    (hgiven : ∀ literal ∈ items, given literal type) {values : List Json}
    (h : itemsWith schema default bindings items type = .ok values) :
    ∀ value ∈ values, holds type value := by
  cases items with
  | nil =>
      cases h
      exact List.forall_mem_nil _
  | cons item rest =>
      obtain ⟨hitem, hrest⟩ := List.forall_mem_cons.mp hgiven
      rw [itemsWith, bind_eq_ok_iff] at h
      obtain ⟨value, hvalue, h⟩ := h
      obtain ⟨others, hothers, heq⟩ := bind_eq_ok_iff.mp h
      cases heq
      exact List.forall_mem_cons.mpr
        ⟨of_literalWith form literals hdefault item hitem hvalue,
          of_itemsWith form literals hdefault rest hrest hothers⟩

theorem of_fieldsWith (form : schema.Form holds)
    (literals : schema.LiteralsHave bindings given holds)
    (hdefault : schema.DefaultsHave holds default) (fields : List (String × Literal))
    {name : String} {type : TypeRef}
    (hgiven : ∀ literal, (name, literal) ∈ fields → given literal type)
    {provide : TypeRef → Except Reason Json}
    (hmem : (name, some provide) ∈ fieldsWith schema default bindings fields) {value : Json}
    (h : provide type = .ok value) : holds type value := by
  cases fields with
  | nil => cases hmem
  | cons field rest =>
      obtain ⟨key, literal⟩ := field
      rw [fieldsWith] at hmem
      rcases List.mem_cons.mp hmem with heq | hmem
      · obtain ⟨rfl, hprovide⟩ := Prod.mk.inj heq
        split at hprovide
        · cases hprovide
        · cases hprovide
          exact of_literalWith form literals hdefault literal (hgiven literal List.mem_cons_self) h
      · exact of_fieldsWith form literals hdefault rest
          (fun literal hrest => hgiven literal (List.mem_cons_of_mem _ hrest)) hmem h

end

end Schema.Form

end GraphQL
