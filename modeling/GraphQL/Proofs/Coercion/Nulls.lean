import GraphQL.Proofs.Coercion.Arguments

/-! # Null where it is not allowed

Coercion checks for null what a document or a client writes, but not what becomes of it. A literal
becomes null though it is not written as null in one case only: a number that JSON has no number
for is null as the value of a scalar that is not built in. Where no such number is written, in a
document or as a default of the schema, nothing of a non-null type is ever null, at any depth. -/

namespace GraphQL

/-- A value stands inside the value of an input type where a type is declared for it. No types are
declared inside the values of scalars. -/
inductive Schema.Holds (schema : Schema) : TypeRef → Json → TypeRef → Json → Prop
  | here (type : TypeRef) (value : Json) : Holds schema type value type value
  | item {item nonNull values value declared held} (hmem : value ∈ values)
      (below : Holds schema item value declared held) :
      Holds schema (.list item nonNull) (.array values) declared held
  | field {name nonNull object field value members declared held}
      (found : schema.type? name = some (.inputObject object))
      (defined : field ∈ object.fields.entries) (hmem : (field.name, value) ∈ members)
      (below : Holds schema field.type value declared held) :
      Holds schema (.named name nonNull) (.object members) declared held

/-- Nothing inside a value is null where a non-null type is declared, be it the type of a scalar
that is not built in. -/
def Schema.NullsAllowed (schema : Schema) (type : TypeRef) (value : Json) : Prop :=
  ∀ declared held, schema.Holds type value declared held → declared.nonNull = true →
    held.isNull = false

variable {schema : Schema}

theorem Schema.form_nullsAllowed (schema : Schema) : schema.Form schema.NullsAllowed where
  null nullable declared held hholds hnonNull := by
    cases hholds
    simp [nullable] at hnonNull
  list each declared held hholds hnonNull := by
    cases hholds with
    | here => rfl
    | item hmem below => exact each _ hmem declared held below hnonNull
  object found _ _ each declared held hholds hnonNull := by
    cases hholds with
    | here => rfl
    | field hfound defined hmem below =>
        obtain ⟨⟩ := Option.some.inj (found.symm.trans hfound)
        exact each _ defined _ hmem declared held below hnonNull

theorem Schema.GivesLeaf.exists_leaf {name : String} {whole value : Json}
    (h : schema.GivesLeaf name whole value) :
    ∃ definition, schema.type? name = some definition ∧ definition.isLeaf = true := by
  cases h with
  | custom found | builtIn found | enum found => exact ⟨_, found, rfl⟩

theorem Schema.GivesLeaf.present {name : String} {whole value : Json}
    (h : schema.GivesLeaf name whole value) (present : whole.isNull = false) :
    value.isNull = false := by
  cases h with
  | custom => exact present
  | builtIn _ _ canonical => exact canonical.isNull_eq_false
  | enum => rfl

theorem Schema.GivesLeaf.nullsAllowed {name : String} {whole value : Json}
    (h : schema.GivesLeaf name whole value) (present : whole.isNull = false) (nonNull : Bool) :
    schema.NullsAllowed (.named name nonNull) value := by
  intro declared held hholds _
  cases hholds with
  | here => exact h.present present
  | field found =>
      obtain ⟨definition, hdefinition, hleaf⟩ := h.exists_leaf
      obtain ⟨⟩ := Option.some.inj (hdefinition.symm.trans found)
      cases hleaf

/-! ## Numbers that JSON has no number for -/

namespace Literal

/-- A literal stands somewhere inside another one. -/
inductive Within : Literal → Literal → Prop
  | here (literal : Literal) : Within literal literal
  | item {part item items} (hmem : item ∈ items) (below : Within part item) :
      Within part (.list items)
  | field {part name value fields} (hmem : (name, value) ∈ fields) (below : Within part value) :
      Within part (.object fields)

/-- The number is no integer of 64 bits and too large for a float. -/
def Unrepresentable : Literal → Prop
  | .int text =>
    (∀ n, Decimal.readInt? text.toList = some n →
      ¬(Int64.minValue.toInt ≤ n ∧ n ≤ Int64.maxValue.toInt)) ∧
    Binary64.read? text.toList = none
  | .float text => Binary64.read? text.toList = none
  | _ => False

/-- JSON has a number for each number in the literal. -/
def Representable (literal : Literal) : Prop := ∀ part, Within part literal → ¬part.Unrepresentable

theorem getD_ofFloatText_isNull {text : String} :
    ((Json.ofFloatText text).getD .null).isNull = true ↔ Binary64.read? text.toList = none := by
  cases h : Binary64.read? text.toList <;> simp [Json.ofFloatText, h, Json.isNull]

theorem ofIntText_isNull {text : String} :
    (Json.ofIntText text).isNull = true ↔ (Literal.int text).Unrepresentable := by
  unfold Json.ofIntText
  split
  · rename_i n hread
    split
    · rename_i hfits
      exact ⟨nofun, fun h => (h.1 n hread hfits).elim⟩
    · rename_i hlarge
      rw [getD_ofFloatText_isNull]
      refine ⟨fun h => ⟨fun m hm => ?_, h⟩, And.right⟩
      obtain rfl := Option.some.inj (hread.symm.trans hm)
      exact hlarge
  · rename_i hread
    rw [getD_ofFloatText_isNull]
    exact ⟨fun h => ⟨fun n hn => by simp [hread] at hn, h⟩, And.right⟩

/-- The JSON form of a literal is null only for numbers without one. -/
theorem toJson_isNull {literal : Literal} (written : literal.IsValue) (bindings : Members) :
    (literal.toJson bindings).isNull = true ↔ literal.Unrepresentable := by
  cases literal with
  | null => exact (written.1 rfl).elim
  | var name => exact (written.2 name rfl).elim
  | int text => exact ofIntText_isNull
  | float text => exact getD_ofFloatText_isNull
  | _ => simp [toJson, Json.isNull, Unrepresentable]

end Literal

/-! ## Literals that become null -/

/-- A type whose values are those of a scalar that is not built in. -/
def Schema.IsCustomScalar (schema : Schema) (type : TypeRef) : Prop :=
  ∃ name nonNull declared, type = .named name nonNull ∧
    schema.type? name = some (.scalar declared) ∧ BuiltInScalar.ofName? name = none

namespace Coercion

variable {bindings : Members}

theorem present_of_singleItem {coerce : String → Bool → Except Reason Json} {item : TypeRef}
    (nonNull : Bool) {value : Json} (h : singleItem coerce (.list item nonNull) = .ok value) :
    value.isNull = false := by
  obtain ⟨single, -, rfl⟩ := map_eq_ok_iff.mp h
  rfl

theorem present_of_list {literal : Literal} (written : literal.IsValue) {item : TypeRef}
    {nonNull : Bool} {value : Json}
    (h : schema.coerceLiteral bindings literal (.list item nonNull) = .ok value) :
    value.isNull = false := by
  unfold Schema.coerceLiteral at h
  cases literal with
  | null => exact (written.1 rfl).elim
  | var name => exact (written.2 name rfl).elim
  | list items =>
      rw [literalWith] at h
      obtain ⟨values, -, rfl⟩ := map_eq_ok_iff.mp h
      rfl
  | object fields =>
      rw [literalWith] at h
      exact present_of_singleItem nonNull h
  | _ => exact present_of_singleItem nonNull h

theorem leafLiteral_eq_null {literal : Literal} (written : literal.IsValue) {name : String}
    {nonNull : Bool} :
    leafLiteral schema bindings literal name nonNull = .ok .null ↔
      schema.IsCustomScalar (.named name nonNull) ∧ literal.Unrepresentable := by
  rw [← Literal.toJson_isNull written bindings]
  constructor
  · intro h
    have hgives := givesLeaf_leafLiteral h
    generalize literal.toJson bindings = whole at hgives
    generalize hvalue : Json.null = value at hgives
    cases hgives with
    | custom found named =>
        subst hvalue
        exact ⟨⟨name, nonNull, _, rfl, found, named⟩, rfl⟩
    | builtIn _ _ canonical =>
        subst hvalue
        cases canonical.isNull_eq_false
    | enum => cases hvalue
  · rintro ⟨⟨_, _, declared, ⟨⟩, hfound, hnamed⟩, hnull⟩
    simp [leafLiteral, hfound, scalarLiteral, hnamed, Json.eq_null_of_isNull hnull]

theorem coerceLiteral_named {literal : Literal} (written : literal.IsValue) {name : String}
    {nonNull : Bool} :
    schema.coerceLiteral bindings literal (.named name nonNull) = .ok .null ↔
      leafLiteral schema bindings literal name nonNull = .ok .null := by
  unfold Schema.coerceLiteral
  cases literal with
  | null => exact (written.1 rfl).elim
  | var name => exact (written.2 name rfl).elim
  | object fields =>
      rw [literalWith, singleItem]
      split
      · rename_i object hfound
        refine ⟨fun h => ?_, fun h => ?_⟩
        · unfold fillObject at h
          split at h
          · cases h
          · obtain ⟨members, -, hmembers⟩ := map_eq_ok_iff.mp h
            cases hmembers
        · simp [leafLiteral, hfound] at h
      · exact Iff.rfl
  | _ => rfl

end Coercion

theorem Schema.coerceLiteral_eq_null {bindings : Members} {literal : Literal}
    (written : literal.IsValue) {type : TypeRef} :
    schema.coerceLiteral bindings literal type = .ok .null ↔
      schema.IsCustomScalar type ∧ literal.Unrepresentable := by
  cases type with
  | named name nonNull =>
      rw [Coercion.coerceLiteral_named written, Coercion.leafLiteral_eq_null written]
  | list item nonNull =>
      refine ⟨fun h => ?_, ?_⟩
      · cases Coercion.present_of_list written h
      · rintro ⟨⟨_, _, _, ⟨⟩, _⟩, _⟩

/-! ## Where no such number is written -/

/-- The values of variables are null or have no null in them where it is not allowed. -/
def Schema.SuitsNulls (schema : Schema) (bindings : Members) (literal : Literal) (type : TypeRef) :
    Prop :=
  ∀ name expected value, schema.Expects literal type name expected →
    Entries.get? name bindings = some value →
    value.isNull = true ∨ schema.NullsAllowed expected value

/-- JSON has a number for each number in the defaults of input fields. -/
def Schema.DefaultsRepresentable (schema : Schema) : Prop :=
  ∀ name type, schema.type? name = some (.inputObject type) → ∀ field ∈ type.fields.entries,
    ∀ literal, field.default? = some literal → literal.Representable

theorem Schema.suitsNulls_nil (literal : Literal) (type : TypeRef) :
    schema.SuitsNulls [] literal type :=
  nofun

namespace Coercion

variable {bindings : Members}

theorem nullsAllowed_leafLiteral {literal : Literal} {name : String} {nonNull : Bool} {value : Json}
    (representable : literal.Representable) (written : literal.IsValue)
    (h : leafLiteral schema bindings literal name nonNull = .ok value) :
    schema.NullsAllowed (.named name nonNull) value := by
  have hpresent : (literal.toJson bindings).isNull = false := by
    refine Bool.eq_false_iff.mpr fun hnull => ?_
    exact representable literal (.here literal) ((Literal.toJson_isNull written bindings).mp hnull)
  exact (givesLeaf_leafLiteral h).nullsAllowed hpresent nonNull

theorem literalsHave_suitsNulls (schema : Schema) (bindings : Members) :
    schema.LiteralsHave bindings
      (fun literal type => literal.Representable ∧ schema.SuitsNulls bindings literal type)
      schema.NullsAllowed where
  item whole hmem :=
    ⟨fun part hwithin => whole.1 part (.item hmem hwithin), fun name expected value hexpects =>
      whole.2 name expected value (.item hmem hexpects)⟩
  field whole found declared hmem :=
    ⟨fun part hwithin => whole.1 part (.field hmem hwithin), fun name expected value hexpects =>
      whole.2 name expected value (.field found declared hmem hexpects)⟩
  var {name type _} whole :=
    schema.form_nullsAllowed.of_variableValue fun value =>
      whole.2 name type value (.var name type)
  leaf whole := nullsAllowed_leafLiteral whole.1

theorem defaultsHave_defaultValue (representable : schema.DefaultsRepresentable) (depth : Nat) :
    schema.DefaultsHave schema.NullsAllowed (Coercion.defaultValue schema depth) := by
  induction depth with
  | zero => nofun
  | succ depth ih =>
      intro name type found field hmem literal hdeclared value h
      refine schema.form_nullsAllowed.of_literalWith (literalsHave_suitsNulls schema []) ih literal
        ⟨?_, Schema.suitsNulls_nil literal field.type⟩ h
      exact representable name type found field hmem literal hdeclared

end Coercion

namespace Schema

theorem nullsAllowed_coerceInput (representable : schema.DefaultsRepresentable) {raw value : Json}
    {type : TypeRef} (h : schema.coerceInput raw type = .ok value) :
    schema.NullsAllowed type value :=
  schema.form_nullsAllowed.of_inputWith
    (fun _ _ nonNull _ present coerced =>
      (Coercion.givesLeaf_leafInput coerced).nullsAllowed present nonNull)
    (Coercion.defaultsHave_defaultValue representable _) raw h

theorem nullsAllowed_coerceLiteral (representable : schema.DefaultsRepresentable)
    {bindings : Members} {literal : Literal} (written : literal.Representable) {type : TypeRef}
    (hsuits : schema.SuitsNulls bindings literal type) {value : Json}
    (h : schema.coerceLiteral bindings literal type = .ok value) :
    schema.NullsAllowed type value :=
  schema.form_nullsAllowed.of_literalWith (Coercion.literalsHave_suitsNulls schema bindings)
    (Coercion.defaultsHave_defaultValue representable _) literal ⟨written, hsuits⟩ h

end Schema

namespace Coercion

theorem Becomes.nullsAllowed {definition : VariableDefinition} {raw? : Option Json} {value : Json}
    (representable : schema.DefaultsRepresentable)
    (written : ∀ literal, definition.default? = some literal → literal.Representable)
    (h : Becomes schema definition raw? (some value)) :
    schema.NullsAllowed definition.type value := by
  cases h with
  | sent coerced => exact Schema.nullsAllowed_coerceInput representable coerced
  | default declared coerced =>
      exact Schema.nullsAllowed_coerceLiteral representable (written _ declared)
        (Schema.suitsNulls_nil _ _) coerced

theorem Takes.nullsAllowed {definition : InputValue} {literal? : Option Literal}
    {bindings : Members} {value : Json} (representable : schema.DefaultsRepresentable)
    (hdefault : ∀ literal, definition.default? = some literal → literal.Representable)
    (hgiven : ∀ literal, literal? = some literal →
      literal.Representable ∧ schema.SuitsNulls bindings literal definition.type)
    (h : Takes schema bindings definition literal? (some value)) :
    schema.NullsAllowed definition.type value := by
  cases h with
  | given _ _ coerced =>
      obtain ⟨hwritten, hsuits⟩ := hgiven _ rfl
      exact Schema.nullsAllowed_coerceLiteral representable hwritten hsuits coerced
  | default _ declared coerced =>
      exact Schema.nullsAllowed_coerceLiteral representable (hdefault _ declared)
        (Schema.suitsNulls_nil _ _) coerced

end Coercion

namespace Schema

/-- A literal becomes null without being written so only as a scalar that is not built in, if it is
a number that JSON has no number for. Where no such number is written, nothing in the values of
variables and arguments is null against its type. -/
theorem null_where_allowed (schema : Schema) :
    (∀ (bindings : Members) (literal : Literal) (type : TypeRef), literal.IsValue →
      (schema.coerceLiteral bindings literal type = .ok .null ↔
        schema.IsCustomScalar type ∧ literal.Unrepresentable)) ∧
    (schema.DefaultsRepresentable →
      (∀ (definitions : List VariableDefinition) (raw coerced : Members),
        (∀ definition ∈ definitions, ∀ literal, definition.default? = some literal →
          literal.Representable) →
        schema.coerceVariables definitions raw = .ok coerced →
        ∀ entry ∈ coerced, ∃ definition ∈ definitions, definition.name = entry.1 ∧
          schema.NullsAllowed definition.type entry.2) ∧
      ∀ (definitions : List InputValue) (arguments : List (String × Literal))
        (bindings coerced : Members),
        (∀ definition ∈ definitions, ∀ literal, definition.default? = some literal →
          literal.Representable) →
        (∀ definition ∈ definitions, ∀ literal,
          Entries.get? definition.name arguments = some literal →
          literal.Representable ∧ schema.SuitsNulls bindings literal definition.type) →
        schema.coerceArguments definitions arguments bindings = .ok coerced →
        ∀ entry ∈ coerced, ∃ definition ∈ definitions, definition.name = entry.1 ∧
          schema.NullsAllowed definition.type entry.2) := by
  refine ⟨fun bindings literal type written => coerceLiteral_eq_null written,
    fun representable => ⟨?_, ?_⟩⟩
  · intro definitions raw coerced hdefaults h entry hmem
    obtain hmem | ⟨definition, hdefinition, hname, hbecomes⟩ :=
      (Coercion.adds_addVariable schema raw).origin h entry hmem
    · cases hmem
    · exact ⟨definition, hdefinition, hname,
        hbecomes.nullsAllowed representable (hdefaults definition hdefinition)⟩
  · intro definitions arguments bindings coerced hdefaults hgiven h entry hmem
    obtain hmem | ⟨definition, hdefinition, hname, htakes⟩ :=
      (Coercion.adds_addArgument schema arguments bindings).origin h entry hmem
    · cases hmem
    · exact ⟨definition, hdefinition, hname,
        htakes.nullsAllowed representable (hdefaults definition hdefinition)
          (hgiven definition hdefinition)⟩

end Schema

namespace Sample

def note : InputObjectType :=
  { name := "Note"
    fields :=
      ⟨[{ name := "body", type := .named "Json" true },
        { name := "tags", type := .list (.named "Json" true) false
          default? := some (.list [.int "1"]) }], by decide⟩ }

def notes : Schema :=
  { query? := none, types := ⟨[.scalar "Json", .inputObject note], by decide⟩ }

theorem representable_notes : notes.DefaultsRepresentable := by
  intro name type found field hmem literal hdeclared part hwithin
  have htype : type = note := by simpa [notes] using Catalog.mem_of_find? found
  subst htype
  simp only [note, List.mem_cons, List.not_mem_nil, or_false] at hmem
  obtain rfl | rfl := hmem
  · cases hdeclared
  · cases hdeclared
    cases hwithin with
    | here => exact id
    | item hmem below =>
        obtain rfl := List.mem_singleton.mp hmem
        cases below
        exact fun h => h.1 1 rfl (by decide)

def noteVariable : VariableDefinition :=
  { name := "note", type := .named "Note" true, location := ⟨1, 7⟩ }

def noteArgument : InputValue := { name := "note", type := .named "Note" true }

/-- The argument `note: {body: $body}`. -/
def givenNote : Literal := .object [("body", .var "body")]

def coercedNote (body : Json) : Json :=
  .object [("body", body), ("tags", .array [.integer 1])]

theorem representable_givenNote : givenNote.Representable := by
  intro part hwithin
  cases hwithin with
  | here => exact id
  | field hmem below =>
      obtain ⟨⟩ := List.mem_singleton.mp hmem
      cases below
      exact id

theorem suitsNulls_givenNote :
    notes.SuitsNulls [("body", .array [.null])] givenNote (.named "Note" true) := by
  intro name expected value hexpects hbound
  cases hexpects with
  | field found declared hmem below =>
      cases found
      obtain ⟨hname, rfl⟩ := Prod.mk.inj (List.mem_singleton.mp hmem)
      simp only [note, List.mem_cons, List.not_mem_nil, or_false] at declared
      obtain rfl | rfl := declared
      · cases below
        cases hbound
        refine .inr fun declared held hholds _ => ?_
        cases hholds
        rfl
      · exact absurd hname (by decide)

/-- A null inside the value of a scalar is no null at a place of the schema. -/
theorem notes_null_where_allowed :
    notes.coerceLiteral [] (.float "1e999") (.named "Json" true) = .ok .null ∧
    notes.NullsAllowed (.named "Note" true) (coercedNote (.string "text")) ∧
    notes.NullsAllowed (.named "Note" true) (coercedNote (.array [.null])) := by
  obtain ⟨hnull, hallowed⟩ := notes.null_where_allowed
  obtain ⟨hvariables, harguments⟩ := hallowed representable_notes
  refine ⟨?_, ?_, ?_⟩
  · exact (hnull [] (.float "1e999") (.named "Json" true) ⟨nofun, nofun⟩).mpr
      ⟨⟨"Json", true, "Json", rfl, rfl, rfl⟩, rfl⟩
  · obtain ⟨definition, hmem, -, h⟩ :=
      hvariables [noteVariable] [("note", .object [("body", .string "text")])]
        [("note", coercedNote (.string "text"))] (by simp [noteVariable]) rfl _ List.mem_cons_self
    obtain rfl := List.mem_singleton.mp hmem
    exact h
  · obtain ⟨definition, hmem, -, h⟩ :=
      harguments [noteArgument] [("note", givenNote)] [("body", .array [.null])]
        [("note", coercedNote (.array [.null]))] (by simp [noteArgument])
        (by
          intro definition hmem literal hget
          obtain rfl := List.mem_singleton.mp hmem
          cases hget
          exact ⟨representable_givenNote, suitsNulls_givenNote⟩)
        rfl _ List.mem_cons_self
    obtain rfl := List.mem_singleton.mp hmem
    exact h

/-- Nothing in these values is written as null, and all of it is of a non-null type. -/
theorem number_becomes_null :
    (Literal.float "1e999").IsValue ∧
    notes.coerceLiteral [] (.float "1e999") (.named "Json" true) = .ok .null ∧
    notes.coerceLiteral [] (.object [("body", .float "1e999"), ("tags", .list [.float "1e999"])])
        (.named "Note" true) =
      .ok (.object [("body", .null), ("tags", .array [.null])]) ∧
    notes.coerceArguments
        [{ name := "a", type := .named "Json" true, default? := some (.float "1e999") }] [] [] =
      .ok [("a", .null)] ∧
    notes.coerceVariables
        [{ name := "v", type := .named "Json" true, default? := some (.float "1e999")
           location := ⟨1, 7⟩ }] [] =
      .ok [("v", .null)] :=
  ⟨⟨nofun, nofun⟩, rfl, rfl, rfl, rfl⟩

end Sample

end GraphQL
