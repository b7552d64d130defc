import GraphQL.Proofs.Coercion.Following
import Mathlib.Data.Fintype.EquivFin
import Mathlib.Data.Set.Finite.List
import Mathlib.Logic.Relation
import Mathlib.Order.WellFounded

/-! # Circles of defaults

An input object may hold objects of its own type, and an object that is left out may have a default
that leaves the same field out again. Coercion of such a default never comes to a value. Without
such circles, every coercion returns. -/

namespace GraphQL

open Coercion

namespace Schema

/-- To coerce the default of the first field takes the default of the second. -/
def DefaultNeeds (schema : Schema) (field other : InputValue) : Prop :=
  field ∈ schema.defaults ∧
    ∃ literal, field.default? = some literal ∧ schema.Lacks [] literal field.type other

theorem DefaultNeeds.mem_defaults {schema : Schema} {field other : InputValue}
    (h : schema.DefaultNeeds field other) : other ∈ schema.defaults := by
  obtain ⟨-, _, -, hlacks⟩ := h
  exact Lacks.mem_defaults hlacks

theorem isSome_default?_of_mem_defaults {schema : Schema} {field : InputValue}
    (h : field ∈ schema.defaults) : field.default?.isSome = true := by
  obtain ⟨definition, -, hmem⟩ := List.mem_flatMap.mp h
  cases definition with
  | inputObject type => exact (List.mem_filter.mp hmem).2
  | _ => cases hmem

/-- No default needs itself in the end. -/
def Noncircular (schema : Schema) : Prop :=
  ∀ field, ¬Relation.TransGen schema.DefaultNeeds field field

variable {schema : Schema}

/-- Without circles, defaults may be taken up one after the other, each after those that it
needs. -/
theorem Noncircular.induction (noncircular : schema.Noncircular) {property : InputValue → Prop}
    (step : ∀ field ∈ schema.defaults, (∀ other, schema.DefaultNeeds field other → property other) →
      property field) :
    ∀ field ∈ schema.defaults, property field := by
  let Declared := { field : InputValue // field ∈ schema.defaults }
  let needed (other field : Declared) : Prop := schema.DefaultNeeds field.1 other.1
  have : Finite Declared := (List.finite_toSet schema.defaults).to_subtype
  have : Std.Irrefl (Relation.TransGen needed) := by
    refine ⟨fun field hcircle => noncircular field.1 ?_⟩
    exact (Relation.transGen_swap.mp hcircle).lift Subtype.val fun _ _ hneeds => hneeds
  have hfounded : WellFounded (Relation.TransGen needed) := Finite.wellFounded_of_trans_of_irrefl _
  intro field hmem
  refine hfounded.induction (C := fun declared => property declared.1) ⟨field, hmem⟩ ?_
  rintro ⟨field, hmem⟩ ih
  refine step field hmem fun other hneeds => ?_
  exact ih ⟨other, hneeds.mem_defaults⟩ (.single hneeds)

/-- Without circles, every default is settled as soon as defaults are followed as deep as there are
defaults. -/
theorem Noncircular.settled (noncircular : schema.Noncircular) {depth : Nat}
    (hdepth : schema.defaults.length ≤ depth) :
    ∀ field ∈ schema.defaults, Settled schema depth field := by
  refine noncircular.induction fun field hmem ih => ?_
  have hnext : Settled schema (depth + 1) field := fun literal hliteral =>
    not_cutOff_literalWith fun other hlacks => ih other ⟨hmem, literal, hliteral, hlacks⟩
  exact settled_of_settled hdepth hmem hnext

/-! ## Values of defaults -/

theorem exists_ok_of_singleItem {coerce : String → Bool → Except Reason Json} {type : TypeRef}
    {value : Json} (h : singleItem coerce type = .ok value) :
    ∃ nonNull single, coerce type.innerName nonNull = .ok single := by
  induction type generalizing value with
  | named name nonNull => exact ⟨nonNull, value, h⟩
  | list item nonNull ih =>
      obtain ⟨single, hsingle, -⟩ := map_eq_ok_iff.mp h
      exact ih hsingle

theorem exists_ok_of_mem_items {default : TypeRef → Literal → Except Reason Json}
    {bindings : Members} {items : List Literal} {type : TypeRef} {values : List Json}
    (h : itemsWith schema default bindings items type = .ok values) :
    ∀ literal ∈ items, ∃ value, literalWith schema default bindings literal type = .ok value := by
  induction items generalizing values with
  | nil => exact List.forall_mem_nil _
  | cons item rest ih =>
      obtain ⟨value, hvalue, h⟩ := bind_eq_ok_iff.mp h
      obtain ⟨others, hothers, -⟩ := bind_eq_ok_iff.mp h
      exact List.forall_mem_cons.mpr ⟨⟨value, hvalue⟩, ih hothers⟩

/-- An object literal is coerced to a value by filling the fields of its type. -/
theorem exists_fills_of_object {default : TypeRef → Literal → Except Reason Json}
    {bindings : Members} {fields : List (String × Literal)} {type : TypeRef}
    {object : InputObjectType} (found : schema.type? type.innerName = some (.inputObject object))
    {value : Json} (h : literalWith schema default bindings (.object fields) type = .ok value) :
    ∃ members, Fills default (fun field =>
      (Entries.get? field.name fields).bind fun literal =>
        if isAbsentVariable bindings literal then none
        else some (literalWith schema default bindings literal field.type))
      object.fields.entries members := by
  rw [literalWith] at h
  obtain ⟨nonNull, single, hsingle⟩ := exists_ok_of_singleItem h
  simp only [found, fillObject] at hsingle
  split at hsingle
  · cases hsingle
  · obtain ⟨members, hmembers, -⟩ := map_eq_ok_iff.mp hsingle
    refine ⟨members, ?_⟩
    convert fillFields_eq_ok_iff.mp hmembers using 2 with field
    rw [get?_fieldsWith, Option.bind_map]
    congr 1
    funext literal
    simp only [Function.comp]
    split <;> rfl

theorem Lacks.present {bindings : Members} {literal : Literal} {type : TypeRef}
    {field : InputValue} (h : schema.Lacks bindings literal type field) :
    isAbsentVariable bindings literal = false := by
  cases h <;> rfl

/-- A literal is coerced to a value only if the defaults that it needs are: induction on the place
of the field that is left out. -/
theorem Lacks.exists_ok {default : TypeRef → Literal → Except Reason Json}
    {bindings : Members} {literal : Literal} {type : TypeRef} {field : InputValue}
    (hlacks : schema.Lacks bindings literal type field) {value : Json}
    (h : literalWith schema default bindings literal type = .ok value) {needed : Literal}
    (hneeded : field.default? = some needed) : ∃ value, default field.type needed = .ok value := by
  induction hlacks generalizing value with
  | item hmem _ ih =>
      rw [literalWith] at h
      obtain ⟨values, hvalues, -⟩ := map_eq_ok_iff.mp h
      obtain ⟨value, hvalue⟩ := exists_ok_of_mem_items hvalues _ hmem
      exact ih hvalue hneeded
  | missing found declared _ absent =>
      obtain ⟨members, hfills⟩ := exists_fills_of_object found h
      refine hfills.exists_ok_of_missing declared ?_ hneeded
      refine Option.bind_eq_none_iff.mpr fun literal hget => ?_
      rw [if_pos (absent literal hget)]
  | @within fields type object given literal field found declared provided below ih =>
      obtain ⟨members, hfills⟩ := exists_fills_of_object found h
      obtain ⟨value, hvalue⟩ := hfills.exists_ok_of_provided declared
        (by rw [provided, Option.bind_some, if_neg (by simp [Lacks.present below])])
      exact ih hvalue hneeded

/-- A default with a value needs only defaults with values, which are followed less deep. -/
theorem DefaultNeeds.exists_ok {field other : InputValue} (h : schema.DefaultNeeds field other)
    {depth : Nat} {literal : Literal} (hliteral : field.default? = some literal) {value : Json}
    (hvalue : Coercion.defaultValue schema (depth + 1) field.type literal = .ok value)
    {needed : Literal} (hneeded : other.default? = some needed) :
    ∃ value, Coercion.defaultValue schema depth other.type needed = .ok value := by
  obtain ⟨-, default, hdefault, hlacks⟩ := h
  cases hliteral.symm.trans hdefault
  exact Lacks.exists_ok hlacks hvalue hneeded

/-- Along the defaults that a default with a value needs, the depth goes down. -/
theorem DefaultNeeds.exists_ok_transGen {field other : InputValue}
    (h : Relation.TransGen schema.DefaultNeeds field other) {depth : Nat} {literal : Literal}
    (hliteral : field.default? = some literal) {value : Json}
    (hvalue : Coercion.defaultValue schema depth field.type literal = .ok value)
    {needed : Literal} (hneeded : other.default? = some needed) :
    ∃ depth' < depth, ∃ value,
      Coercion.defaultValue schema depth' other.type needed = .ok value := by
  induction h using Relation.TransGen.head_induction_on generalizing depth literal value with
  | single hneeds =>
      cases depth with
      | zero => cases hvalue
      | succ depth =>
          exact ⟨depth, Nat.lt_succ_self depth, hneeds.exists_ok hliteral hvalue hneeded⟩
  | head hneeds hbelow ih =>
      cases depth with
      | zero => cases hvalue
      | succ depth =>
          obtain ⟨middle, hmiddle⟩ : ∃ literal, _ = some literal :=
            Option.isSome_iff_exists.mp (isSome_default?_of_mem_defaults hneeds.mem_defaults)
          obtain ⟨value, hvalue⟩ := hneeds.exists_ok hliteral hvalue hmiddle
          obtain ⟨depth', hdepth, hother⟩ := ih hmiddle hvalue
          exact ⟨depth', Nat.lt_succ_of_lt hdepth, hother⟩

/-- A default that needs itself in the end never comes to a value: at each depth it would have had
to do so at a smaller one before. -/
theorem ne_ok_of_circular {field : InputValue}
    (circular : Relation.TransGen schema.DefaultNeeds field field) {literal : Literal}
    (hliteral : field.default? = some literal) (depth : Nat) (value : Json) :
    Coercion.defaultValue schema depth field.type literal ≠ .ok value := by
  intro hvalue
  induction depth using Nat.strong_induction_on generalizing value with
  | _ depth ih =>
      obtain ⟨depth', hdepth, value', hvalue'⟩ :=
        DefaultNeeds.exists_ok_transGen circular hliteral hvalue hliteral
      exact ih depth' hdepth value' hvalue'

/-- Without circles of defaults, coercion returns, whatever it is given, and the result is that of
the schema. A default on a circle never comes to a value. -/
theorem coercion_returns (schema : Schema) :
    (schema.Noncircular →
      (∀ value type, Returns (fun depth =>
          inputWith schema (Coercion.defaultValue schema depth) value type)
        (schema.coerceInput value type)) ∧
      ∀ bindings literal type, Returns (fun depth =>
          literalWith schema (Coercion.defaultValue schema depth) bindings literal type)
        (schema.coerceLiteral bindings literal type)) ∧
    ∀ field literal, Relation.TransGen schema.DefaultNeeds field field →
      field.default? = some literal → ∀ depth value,
        Coercion.defaultValue schema depth field.type literal ≠ .ok value := by
  refine ⟨fun noncircular => ?_, fun _ _ circular hliteral => ne_ok_of_circular circular hliteral⟩
  have hsettled := noncircular.settled schema.length_defaults_le_defaultDepth
  refine ⟨fun value type => ?_, fun bindings literal type => ?_⟩
  · rw [returns_inputWith_iff]
    exact ⟨rfl, not_cutOff_inputWith hsettled value type⟩
  · rw [returns_literalWith_iff]
    exact ⟨rfl, not_cutOff_literalWith fun field hlacks =>
      hsettled field (Lacks.mem_defaults hlacks)⟩

end Schema

namespace Sample

def size : InputValue :=
  { name := "size", type := .named "Int" false, default? := some (.int "20") }

def page : InputValue :=
  { name := "page", type := .named "Page" false, default? := some (.object []) }

/-- `input Filter { page: Page = {} } input Page { size: Int = 20 }` -/
def paging : Schema where
  query? := none
  types :=
    ⟨[.scalar "Int",
      .inputObject { name := "Filter", fields := ⟨[page], by decide⟩ },
      .inputObject { name := "Page", fields := ⟨[size], by decide⟩ }], by decide⟩

theorem defaultNeeds_paging {field other : InputValue} (h : paging.DefaultNeeds field other) :
    field = page ∧ other = size := by
  obtain ⟨hmem, literal, hliteral, hlacks⟩ := h
  have hmem : field ∈ [page, size] := hmem
  simp only [List.mem_cons, List.not_mem_nil, or_false] at hmem
  rcases hmem with rfl | rfl
  · cases hliteral
    cases hlacks with
    | missing found declared =>
        cases found
        exact ⟨rfl, List.mem_singleton.mp declared⟩
    | within _ _ provided => cases provided
  · cases hliteral
    cases hlacks

theorem noncircular_paging : paging.Noncircular := by
  intro field circular
  obtain ⟨_, hfirst, -⟩ := Relation.TransGen.head'_iff.mp circular
  obtain ⟨_, -, hlast⟩ := Relation.TransGen.tail'_iff.mp circular
  have hsame : page = size :=
    (defaultNeeds_paging hfirst).1.symm.trans (defaultNeeds_paging hlast).2
  exact absurd (congrArg InputValue.name hsame) (by decide)

/-- The default of the page is filled with the default of its size. -/
theorem paging_returns :
    Returns (fun depth =>
        inputWith paging (Coercion.defaultValue paging depth) (.object []) (.named "Filter" true))
      (.ok (.object [("page", .object [("size", .integer 20)])])) :=
  (paging.coercion_returns.1 noncircular_paging).1 (.object []) (.named "Filter" true)

def inner : InputValue :=
  { name := "b", type := .named "A" false, default? := some (.object []) }

/-- `input A { b: A = {} }` -/
def nested : Schema where
  query? := none
  types := ⟨[.inputObject { name := "A", fields := ⟨[inner], by decide⟩ }], by decide⟩

/-- The empty object is filled with the default of its one field. -/
theorem emptyObject_nested {default : TypeRef → Literal → Except Reason Json} {reason : Reason}
    (h : default (.named "A" false) (.object []) = .error reason) :
    inputWith nested default (.object []) (.named "A" false) = .error reason ∧
      literalWith nested default [] (.object []) (.named "A" false) = .error reason := by
  have hfill (provided? : InputValue → Option (Except Reason Json))
      (hmissing : provided? inner = none) :
      (fillFields "A" default provided? [inner]).map Json.object = .error reason := by
    simp only [fillFields, hmissing]
    exact congrArg (fun result : Except Reason Json =>
      (result >>= fun value => .ok [("b", value)]).map Json.object) h
  exact ⟨hfill _ rfl, hfill _ rfl⟩

theorem defaultValue_nested (depth : Nat) :
    Coercion.defaultValue nested depth (.named "A" false) (.object []) =
      .error .circularDefault := by
  induction depth with
  | zero => rfl
  | succ depth ih => exact (emptyObject_nested ih).2

/-- The empty object, as JSON or as a literal, is filled with the default of its field, and that
with the default of its own, and so on for ever. -/
theorem nested_never_returns :
    (¬∃ result, Returns (fun depth =>
        inputWith nested (Coercion.defaultValue nested depth) (.object []) (.named "A" false))
      result) ∧
    ¬∃ result, Returns (fun depth =>
        literalWith nested (Coercion.defaultValue nested depth) [] (.object []) (.named "A" false))
      result := by
  constructor
  · rintro ⟨result, complete, bound, h⟩
    have herror := (emptyObject_nested (defaultValue_nested bound)).1
    cases (h bound (Nat.le_refl bound)).symm.trans herror
    exact complete trivial
  · rintro ⟨result, complete, bound, h⟩
    have herror := (emptyObject_nested (defaultValue_nested bound)).2
    cases (h bound (Nat.le_refl bound)).symm.trans herror
    exact complete trivial

end Sample

end GraphQL
