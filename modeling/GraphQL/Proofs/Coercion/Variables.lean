import GraphQL.Coercion.Variables
import GraphQL.Proofs.Coercion.Assembly
import GraphQL.Proofs.Coercion.InputForm

/-! # The values of variables

An operation is executed with a value of the right form for each variable that is sent or has a
default, in the order of their definitions. Nothing else that is sent matters. -/

namespace GraphQL

/-- Whether a variable is sent or has a default. -/
def VariableDefinition.IsGiven (raw : Members) (definition : VariableDefinition) : Bool :=
  (Entries.get? definition.name raw).isSome || definition.default?.isSome

namespace Coercion

variable {schema : Schema} {definition : VariableDefinition} {raw : Members}

/-- What a variable may become, given what is sent for it. If nothing is, and there is no default,
it has no value, which is not the same as null. -/
inductive Becomes (schema : Schema) (definition : VariableDefinition) :
    Option Json → Option Json → Prop
  | sent {raw value} (coerced : schema.coerceInput raw definition.type = .ok value) :
      Becomes schema definition (some raw) (some value)
  | default {literal value} (declared : definition.default? = some literal)
      (coerced : schema.coerceLiteral [] literal definition.type = .ok value) :
      Becomes schema definition none (some value)
  | absent (undeclared : definition.default? = none)
      (nullable : definition.type.nonNull = false) : Becomes schema definition none none

theorem becomes_of_variableInput {raw? value? : Option Json}
    (h : variableInput schema definition raw? = .ok value?) :
    Becomes schema definition raw? value? := by
  unfold variableInput at h
  split at h
  · cases h
  · split at h
    · split at h
      · cases h
      · split at h
        · rename_i hcoerced
          cases h
          exact .sent hcoerced
        · cases h
    · rename_i hdeclared
      split at h
      · rename_i hcoerced
        cases h
        exact .default hdeclared hcoerced
      · cases h
    · rename_i hundeclared
      split at h
      · cases h
      · rename_i hnullable
        cases h
        exact .absent hundeclared (Bool.eq_false_iff.mpr hnullable)

namespace Becomes

theorem isGiven {value? : Option Json}
    (h : Becomes schema definition (Entries.get? definition.name raw) value?) :
    definition.IsGiven raw = value?.isSome := by
  rw [VariableDefinition.IsGiven]
  generalize Entries.get? definition.name raw = raw? at h
  cases h with
  | sent => rfl
  | default declared => simp [declared]
  | absent undeclared => simp [undeclared]

theorem conforms {raw? : Option Json} {value : Json}
    (h : Becomes schema definition raw? (some value)) :
    schema.InputConforms definition.type value := by
  cases h with
  | sent coerced => exact Schema.conforms_coerceInput coerced
  | default _ coerced => exact Schema.conforms_coerceLiteral (Schema.suits_nil _ _) coerced

end Becomes

theorem adds_addVariable (schema : Schema) (raw : Members) :
    Adds VariableDefinition.name
      (fun definition => Becomes schema definition (Entries.get? definition.name raw))
      (addVariable schema raw) := by
  intro coerced definition next h
  rw [addVariable] at h
  cases hvalue : variableInput schema definition (Entries.get? definition.name raw) with
  | error error => simp [hvalue] at h
  | ok value? =>
      have hbecomes := becomes_of_variableInput hvalue
      cases value? with
      | none =>
          simp only [hvalue, Except.ok.injEq] at h
          exact .inr ⟨hbecomes, h.symm⟩
      | some value =>
          simp only [hvalue, Except.ok.injEq] at h
          exact .inl ⟨value, hbecomes, h.symm⟩

/-- The values of some of the variables of an operation, all of them as they should be. -/
structure Bound (schema : Schema) (raw : Members) (definitions : List VariableDefinition)
    (bound : Members) : Prop where
  keys : Entries.keys bound =
    (definitions.filter (VariableDefinition.IsGiven raw)).map VariableDefinition.name
  conforms : ∀ entry ∈ bound, ∃ definition ∈ definitions, definition.name = entry.1 ∧
    schema.InputConforms definition.type entry.2

theorem Assembled.bound {definitions : List VariableDefinition} {bound : Members}
    (h : Assembled VariableDefinition.name
      (fun definition => Becomes schema definition (Entries.get? definition.name raw)) definitions
      bound) :
    Bound schema raw definitions bound := by
  induction h with
  | nil => exact ⟨rfl, by simp⟩
  | value given tail ih =>
      refine ⟨?_, List.forall_mem_cons.mpr ⟨?_, fun entry hmem => ?_⟩⟩
      · rw [List.filter_cons_of_pos given.isGiven, List.map_cons, ← ih.keys]
        rfl
      · exact ⟨_, List.mem_cons_self, rfl, given.conforms⟩
      · obtain ⟨other, hother, hentry⟩ := ih.conforms entry hmem
        exact ⟨other, List.mem_cons_of_mem _ hother, hentry⟩
  | absent given tail ih =>
      refine ⟨?_, fun entry hmem => ?_⟩
      · rw [List.filter_cons_of_neg (by simp [given.isGiven]), ih.keys]
      · obtain ⟨other, hother, hentry⟩ := ih.conforms entry hmem
        exact ⟨other, List.mem_cons_of_mem _ hother, hentry⟩

theorem foldlM_addVariable {definitions : List VariableDefinition} {coerced result : Members}
    (distinct : (definitions.map VariableDefinition.name).Nodup)
    (new : ∀ definition ∈ definitions, definition.name ∉ Entries.keys coerced)
    (h : definitions.foldlM (addVariable schema raw) coerced = .ok result) :
    ∃ bound, result = coerced ++ bound ∧ Bound schema raw definitions bound := by
  obtain ⟨bound, hresult, hbound⟩ := (adds_addVariable schema raw).assembled distinct new h
  exact ⟨bound, hresult, hbound.bound⟩

theorem foldlM_addVariable_congr {definitions : List VariableDefinition} {raw' : Members}
    (h : ∀ definition ∈ definitions,
      Entries.get? definition.name raw = Entries.get? definition.name raw') (coerced : Members) :
    definitions.foldlM (addVariable schema raw') coerced =
      definitions.foldlM (addVariable schema raw) coerced := by
  induction definitions generalizing coerced with
  | nil => rfl
  | cons definition rest ih =>
      obtain ⟨hfirst, hrest⟩ := List.forall_mem_cons.mp h
      rw [List.foldlM_cons, List.foldlM_cons, addVariable, addVariable, hfirst]
      exact bind_congr (ih hrest)

end Coercion

namespace Schema

/-- The variables that are given have values of their types, in the order of their definitions, and
these depend on nothing but what is sent for them. -/
theorem coerceVariables_sound (schema : Schema) (definitions : List VariableDefinition)
    (distinct : (definitions.map VariableDefinition.name).Nodup) (raw : Members) :
    (∀ coerced, schema.coerceVariables definitions raw = .ok coerced →
      Entries.keys coerced =
        (definitions.filter (VariableDefinition.IsGiven raw)).map VariableDefinition.name ∧
      ∀ definition ∈ definitions, ∀ value, (definition.name, value) ∈ coerced →
        schema.InputConforms definition.type value) ∧
    ∀ raw', (∀ definition ∈ definitions,
        Entries.get? definition.name raw = Entries.get? definition.name raw') →
      schema.coerceVariables definitions raw' = schema.coerceVariables definitions raw := by
  refine ⟨?_, ?_⟩
  · intro coerced h
    obtain ⟨bound, rfl, hbound⟩ := Coercion.foldlM_addVariable distinct (by simp [Entries.keys]) h
    refine ⟨hbound.keys, fun definition hmem value hvalue => ?_⟩
    obtain ⟨other, hother, hname, hconforms⟩ := hbound.conforms _ hvalue
    obtain rfl : other = definition := List.inj_on_of_nodup_map distinct hother hmem hname
    exact hconforms
  · intro raw' hraw
    exact Coercion.foldlM_addVariable_congr hraw []

end Schema

namespace Sample

def ordering : EnumType := { name := "Ordering", values := ⟨["NEWEST", "OLDEST"], by decide⟩ }

def filter : InputObjectType :=
  { name := "Filter"
    fields :=
      ⟨[{ name := "ids", type := .list (.named "ID" true) true },
        { name := "ordering", type := .named "Ordering" false, default? := some (.enum "NEWEST") },
        { name := "limit", type := .named "Int" false }], by decide⟩ }

def inputs : Schema :=
  { query? := none
    types := ⟨[.scalar "Int", .scalar "ID", .enum ordering, .inputObject filter], by decide⟩ }

/-- The variables of `($filter: Filter!, $first: Int = 10, $after: ID)`. -/
def variableDefinitions : List VariableDefinition :=
  [{ name := "filter", type := .named "Filter" true, location := ⟨1, 2⟩ },
    { name := "first", type := .named "Int" false, default? := some (.int "10")
      location := ⟨1, 20⟩ },
    { name := "after", type := .named "ID" false, location := ⟨1, 38⟩ }]

/-- A variable that is not defined is sent before one that is. -/
def sent : Members := [("unused", .bool true), ("filter", .object [("ids", .integer 7)])]

theorem coerced_sent :
    inputs.coerceVariables variableDefinitions sent =
      .ok
        [("filter", .object [("ids", .array [.string "7"]), ("ordering", .string "NEWEST")]),
          ("first", .integer 10)] := rfl

theorem sent_sound :
    (∀ definition ∈ variableDefinitions, ∀ value,
      (definition.name, value) ∈
        [("filter",
            Json.object [("ids", .array [.string "7"]), ("ordering", .string "NEWEST")]),
          ("first", .integer 10)] →
      inputs.InputConforms definition.type value) ∧
    inputs.coerceVariables variableDefinitions (sent ++ [("other", .null)]) =
      inputs.coerceVariables variableDefinitions sent := by
  obtain ⟨hsound, hagree⟩ := inputs.coerceVariables_sound variableDefinitions (by decide) sent
  refine ⟨(hsound _ coerced_sent).2, hagree _ ?_⟩
  simp [variableDefinitions, sent, Entries.get?]

end Sample

end GraphQL
