import GraphQL.Coercion.Arguments
import GraphQL.Proofs.Coercion.Variables

/-! # The values of arguments

Arguments are filled in like the fields of an object literal: each with what the document gives for
it, where a variable without a value gives nothing, or else with its default, or else not at all. So
they have values of their types, in the order of their definitions, none of the required ones
missing. -/

namespace GraphQL

namespace Coercion

variable {schema : Schema} {bindings : Members} {arguments : List (String × Literal)}
  {definition : InputValue}

/-- What a document gives for an argument at the type of its definition. -/
def givenArgument? (schema : Schema) (bindings : Members) (arguments : List (String × Literal))
    (definition : InputValue) : Option (Except Reason Json) :=
  (Entries.get? definition.name arguments).bind fun literal =>
    if isAbsentVariable bindings literal then none
    else some (schema.coerceLiteral bindings literal definition.type)

/-- Defaults hold no variables. -/
def argumentDefault (schema : Schema) (type : TypeRef) (literal : Literal) : Except Reason Json :=
  schema.coerceLiteral [] literal type

theorem coerceLiteral_var {source : String} {value : Json} {type : TypeRef}
    (bound : Entries.get? source bindings = some value)
    (allowed : ¬(value.isNull ∧ type.nonNull)) :
    schema.coerceLiteral bindings (.var source) type = .ok value := by
  simp only [Schema.coerceLiteral, literalWith, variableValue, bound]
  exact if_neg allowed

theorem literal_of_providedArgument {literal? : Option Literal} {value : Json}
    (h : providedArgument schema bindings definition literal? = .ok (some value))
    (allowed : ¬(value.isNull ∧ definition.type.nonNull)) :
    ∃ literal, literal? = some literal ∧ isAbsentVariable bindings literal = false ∧
      schema.coerceLiteral bindings literal definition.type = .ok value := by
  unfold providedArgument at h
  split at h
  · cases h
  · rename_i source
    split at h
    · rename_i hbound
      cases h
      exact ⟨.var source, rfl, by simp [isAbsentVariable, hbound],
        coerceLiteral_var hbound allowed⟩
    · split at h <;> cases h
  · rename_i literal hvar
    split at h
    · rename_i hcoerced
      cases h
      refine ⟨literal, rfl, ?_, hcoerced⟩
      cases literal with
      | var source => exact (hvar source rfl).elim
      | _ => rfl
    · cases h

theorem absent_of_providedArgument {literal? : Option Literal}
    (h : providedArgument schema bindings definition literal? = .ok none) :
    ∀ literal ∈ literal?, isAbsentVariable bindings literal = true := by
  unfold providedArgument at h
  split at h
  · nofun
  · split at h
    · cases h
    · rename_i hunbound
      rintro literal ⟨⟩
      simp [isAbsentVariable, hunbound]
  · split at h <;> cases h

/-- What an argument may become, given what the document writes for it, which is nothing at all if
it is a variable without a value. -/
inductive Takes (schema : Schema) (bindings : Members) (definition : InputValue) :
    Option Literal → Option Json → Prop
  | given {literal value} (present : isAbsentVariable bindings literal = false)
      (allowed : ¬(Json.isNull value ∧ definition.type.nonNull))
      (coerced : schema.coerceLiteral bindings literal definition.type = .ok value) :
      Takes schema bindings definition (some literal) (some value)
  | default {literal? literal value}
      (missing : ∀ literal ∈ literal?, isAbsentVariable bindings literal = true)
      (declared : definition.default? = some literal)
      (coerced : schema.coerceLiteral [] literal definition.type = .ok value) :
      Takes schema bindings definition literal? (some value)
  | absent {literal?} (missing : ∀ literal ∈ literal?, isAbsentVariable bindings literal = true)
      (undeclared : definition.default? = none) (nullable : definition.type.nonNull = false) :
      Takes schema bindings definition literal? none

theorem takes_of_argument {literal? : Option Literal} {value? : Option Json}
    (h : argument schema bindings definition literal? = .ok value?) :
    Takes schema bindings definition literal? value? := by
  unfold argument at h
  split at h
  · cases h
  · rename_i hprovided
    split at h
    · cases h
    · rename_i hallowed
      cases h
      obtain ⟨literal, rfl, hpresent, hcoerced⟩ := literal_of_providedArgument hprovided hallowed
      exact .given hpresent hallowed hcoerced
  · rename_i hprovided hdeclared
    split at h
    · rename_i hcoerced
      cases h
      exact .default (absent_of_providedArgument hprovided) hdeclared hcoerced
    · cases h
  · rename_i hprovided hundeclared
    split at h
    · cases h
    · rename_i hnullable
      cases h
      exact .absent (absent_of_providedArgument hprovided) hundeclared
        (Bool.eq_false_iff.mpr hnullable)

theorem givenArgument?_eq_none
    (h : ∀ literal ∈ Entries.get? definition.name arguments,
      isAbsentVariable bindings literal = true) :
    givenArgument? schema bindings arguments definition = none := by
  unfold givenArgument?
  cases hget : Entries.get? definition.name arguments with
  | none => rfl
  | some literal => simp [h literal hget]

/-- An argument adds its value, if it has one, in front of the values of those after it. -/
theorem Takes.fills {value? : Option Json} {rest : List InputValue} {members : Members}
    (h : Takes schema bindings definition (Entries.get? definition.name arguments) value?)
    (tail : Fills (argumentDefault schema) (givenArgument? schema bindings arguments) rest
      members) :
    Fills (argumentDefault schema) (givenArgument? schema bindings arguments) (definition :: rest)
      ((value?.toList.map fun value => (definition.name, value)) ++ members) := by
  generalize hget : Entries.get? definition.name arguments = literal? at h
  cases h with
  | given present _ coerced =>
      exact .provided (by simp [givenArgument?, hget, present, coerced]) tail
  | default missing declared coerced =>
      exact .default (givenArgument?_eq_none (hget ▸ missing)) declared coerced tail
  | absent missing undeclared nullable =>
      exact .absent (givenArgument?_eq_none (hget ▸ missing)) undeclared nullable tail

theorem adds_addArgument (schema : Schema) (arguments : List (String × Literal))
    (bindings : Members) :
    Adds InputValue.name
      (fun definition =>
        Takes schema bindings definition (Entries.get? definition.name arguments))
      (addArgument schema arguments bindings) := by
  intro coerced definition next h
  obtain ⟨value?, hvalue, rfl⟩ := map_eq_ok_iff.mp h
  cases value? with
  | none => exact .inr ⟨takes_of_argument hvalue, rfl⟩
  | some value => exact .inl ⟨value, takes_of_argument hvalue, rfl⟩

theorem Assembled.fills {definitions : List InputValue} {members : Members}
    (h : Assembled InputValue.name
      (fun definition =>
        Takes schema bindings definition (Entries.get? definition.name arguments))
      definitions members) :
    Fills (argumentDefault schema) (givenArgument? schema bindings arguments) definitions
      members := by
  induction h with
  | nil => exact .nil
  | value given _ ih => exact given.fills ih
  | absent given _ ih => exact given.fills ih

theorem fills_of_coerceArguments {definitions : List InputValue} {coerced : Members}
    (distinct : (definitions.map InputValue.name).Nodup)
    (h : schema.coerceArguments definitions arguments bindings = .ok coerced) :
    Fills (argumentDefault schema) (givenArgument? schema bindings arguments) definitions
      coerced := by
  obtain ⟨members, rfl, hmembers⟩ :=
    (adds_addArgument schema arguments bindings).assembled distinct (by simp [Entries.keys]) h
  exact hmembers.fills

theorem coerced_of_givenArgument? {value : Json}
    (h : givenArgument? schema bindings arguments definition = some (.ok value)) :
    ∃ literal, Entries.get? definition.name arguments = some literal ∧
      schema.coerceLiteral bindings literal definition.type = .ok value := by
  obtain ⟨literal, hget, hgiven⟩ := Option.bind_eq_some_iff.mp h
  split at hgiven
  · cases hgiven
  · exact ⟨literal, hget, Option.some.inj hgiven⟩

end Coercion

namespace Schema

/-- Arguments have values of their types, in the order of their definitions, if the values of the
variables in them have the types that are expected there. -/
theorem coerceArguments_sound (schema : Schema) (definitions : List InputValue)
    (distinct : (definitions.map InputValue.name).Nodup) (arguments : List (String × Literal))
    (bindings : Members)
    (suits : ∀ definition ∈ definitions, ∀ literal,
      Entries.get? definition.name arguments = some literal →
      schema.Suits bindings literal definition.type)
    {coerced : Members} (h : schema.coerceArguments definitions arguments bindings = .ok coerced) :
    (Entries.keys coerced).Sublist (definitions.map InputValue.name) ∧
    (∀ definition ∈ definitions, definition.type.nonNull = true ∨ definition.default?.isSome →
      definition.name ∈ Entries.keys coerced) ∧
    ∀ definition ∈ definitions, ∀ value, (definition.name, value) ∈ coerced →
      schema.InputConforms definition.type value := by
  have hfills := Coercion.fills_of_coerceArguments distinct h
  refine ⟨hfills.keys_sublist, fun definition hmem => hfills.mem_keys hmem, ?_⟩
  intro definition hmem value hvalue
  obtain ⟨other, hother, hname, horigin⟩ := hfills.origin hvalue
  obtain rfl : other = definition := List.inj_on_of_nodup_map distinct hother hmem hname
  rcases horigin with hgiven | ⟨literal, -, hcoerced⟩
  · obtain ⟨literal, hget, hcoerced⟩ := Coercion.coerced_of_givenArgument? hgiven
    exact conforms_coerceLiteral (suits other hother literal hget) hcoerced
  · exact conforms_coerceLiteral (suits_nil literal other.type) hcoerced

end Schema

namespace Sample

/-- The definitions `(filter: Filter!, first: Int = 10, after: ID)`. -/
def argumentDefinitions : List InputValue :=
  [{ name := "filter", type := .named "Filter" true },
    { name := "first", type := .named "Int" false, default? := some (.int "10") },
    { name := "after", type := .named "ID" false }]

/-- The arguments `(after: $absent, filter: {limit: $absent, ids: [$id, "8"]})`. -/
def givenArguments : List (String × Literal) :=
  [("after", .var "absent"),
    ("filter", .object [("limit", .var "absent"), ("ids", .list [.var "id", .string "8"])])]

def givenBindings : Members := [("id", .string "7")]

def coercedArguments : Members :=
  [("filter", .object [("ids", .array [.string "7", .string "8"]), ("ordering", .string "NEWEST")]),
    ("first", .integer 10)]

theorem coerced_given :
    inputs.coerceArguments argumentDefinitions givenArguments givenBindings =
      .ok coercedArguments := rfl

/-- The variable that has a value stands where an ID is expected. -/
theorem suits_given : ∀ definition ∈ argumentDefinitions, ∀ literal,
    Entries.get? definition.name givenArguments = some literal →
    inputs.Suits givenBindings literal definition.type := by
  intro definition hmem literal hget name expected value hexpects hbound
  simp only [argumentDefinitions, List.mem_cons, List.not_mem_nil, or_false] at hmem
  obtain rfl | rfl | rfl := hmem
  · cases hget
    cases hexpects with
    | field found declared hmem below =>
        cases found
        simp only [filter, List.mem_cons, List.not_mem_nil, or_false] at declared
        obtain rfl | rfl | rfl := declared <;> simp at hmem
        · subst hmem
          cases below with
          | item hmem below =>
              simp only [List.mem_cons, List.not_mem_nil, or_false] at hmem
              obtain rfl | rfl := hmem
              · cases below
                cases hbound
                exact .inr (.builtIn rfl rfl trivial)
              · cases below
        · subst hmem
          cases below
          cases hbound
  · cases hget
  · cases hget
    cases hexpects
    cases hbound

theorem given_sound :
    (Entries.keys coercedArguments).Sublist (argumentDefinitions.map InputValue.name) ∧
    (∀ definition ∈ argumentDefinitions,
      definition.type.nonNull = true ∨ definition.default?.isSome →
      definition.name ∈ Entries.keys coercedArguments) ∧
    ∀ definition ∈ argumentDefinitions, ∀ value, (definition.name, value) ∈ coercedArguments →
      inputs.InputConforms definition.type value :=
  inputs.coerceArguments_sound argumentDefinitions (by decide) givenArguments givenBindings
    suits_given coerced_given

end Sample

end GraphQL
