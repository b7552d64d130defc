import GraphQL.Proofs.Coercion.Nulls

/-! # Values that coercion leaves alone

Coercion gives values of the form of their type, without null where it is not allowed, and such
values are coerced to themselves. So coercing a value once more does not change it. -/

namespace GraphQL

variable {schema : Schema} {default : TypeRef → Literal → Except Reason Json}

namespace Coercion

/-! ## Leaves -/

theorem inputWith_leaf {name : String} {definition : TypeDefinition}
    (found : schema.type? name = some definition) (leaf : definition.isLeaf = true) {value : Json}
    (present : value.isNull = false) (nonNull : Bool) :
    inputWith schema default value (.named name nonNull) = leafInput schema value name := by
  cases value with
  | null => cases present
  | object members =>
      rw [inputWith, singleItem, found]
      cases definition with
      | inputObject type => cases leaf
      | _ => rfl
  | _ => rfl

theorem scalarInput_canonical {name : String} {scalar : BuiltInScalar}
    (named : BuiltInScalar.ofName? name = some scalar) {value : Json}
    (canonical : scalar.Canonical value) : scalarInput name value = .ok value := by
  simp only [scalarInput, named]
  cases scalar with
  | int =>
      cases value with
      | number n =>
          cases n with
          | integer n => exact intInput_integer canonical
          | float x => exact canonical.elim
      | _ => exact canonical.elim
  | _ => cases value <;> first | rfl | exact canonical.elim

/-! ## Input objects -/

theorem get?_inputMembersWith (name : String) (members : Members) :
    Entries.get? name (inputMembersWith schema default members) =
      (Entries.get? name members).map (inputWith schema default) := by
  induction members with
  | nil => rfl
  | cons member rest ih =>
      obtain ⟨key, value⟩ := member
      by_cases hkey : key = name
      · simp [inputMembersWith, Entries.get?, hkey]
      · simp [inputMembersWith, Entries.get?, hkey, ih]

/-- Members in the order of their fields, none of the required ones missing, are what the fields are
filled with if each of them is provided as it is: induction on the fields. -/
theorem fills_members {provided? : InputValue → Option (Except Reason Json)}
    {fields : List InputValue} {members : Members}
    (distinct : (fields.map InputValue.name).Nodup)
    (ordered : (Entries.keys members).Sublist (fields.map InputValue.name))
    (present : ∀ field ∈ fields, field.type.nonNull = true ∨ field.default?.isSome →
      field.name ∈ Entries.keys members)
    (hprovided : ∀ field ∈ fields,
      provided? field = (Entries.get? field.name members).map Except.ok) :
    Fills default provided? fields members := by
  induction fields generalizing members with
  | nil =>
      obtain rfl : members = [] := List.map_eq_nil_iff.mp (List.sublist_nil.mp ordered)
      exact .nil
  | cons field rest ih =>
      obtain ⟨hfirst, hdistinct⟩ := List.nodup_cons.mp distinct
      obtain ⟨hfield, hrest⟩ := List.forall_mem_cons.mp hprovided
      obtain ⟨hrequired, hpresent⟩ := List.forall_mem_cons.mp present
      -- The first field is left out of the members, or it has the first of them.
      rcases List.sublist_cons_iff.mp ordered with hlater | ⟨keys, hkeys, hlater⟩
      · have hmissing : field.name ∉ Entries.keys members :=
          fun hmem => hfirst (hlater.subset hmem)
        obtain ⟨hnullable, hundeclared⟩ := not_or.mp (mt hrequired hmissing)
        rw [Entries.get?_eq_none hmissing] at hfield
        exact .absent hfield (by simpa using hundeclared) (Bool.eq_false_iff.mpr hnullable)
          (ih hdistinct hlater hpresent hrest)
      · obtain ⟨⟨name, value⟩, others, rfl, rfl, rfl⟩ := List.map_eq_cons_iff.mp hkeys
        have hother : ∀ other ∈ rest, other.name ≠ field.name :=
          fun other hmem heq => hfirst (heq ▸ List.mem_map_of_mem hmem)
        have hgiven : provided? field = some (.ok value) := by
          simpa [Entries.get?] using hfield
        refine .provided hgiven (ih hdistinct hlater (fun other hmem hother' => ?_) ?_)
        · exact (List.mem_cons.mp (hpresent other hmem hother')).resolve_left (hother other hmem)
        · intro other hmem
          rw [hrest other hmem, Entries.get?, if_neg (hother other hmem).symm]

theorem undefinedField?_eq_none {type : InputObjectType} {keys : List String}
    (defined : ∀ key ∈ keys, key ∈ type.fields.entries.map InputValue.name) :
    undefinedField? type keys = none := by
  refine List.find?_eq_none.mpr fun key hmem => ?_
  obtain ⟨field, hfield, rfl⟩ := List.mem_map.mp (defined key hmem)
  simp only [Catalog.contains, Catalog.find?, Bool.not_eq_true, Bool.not_eq_false',
    List.find?_isSome, decide_eq_true_eq]
  exact ⟨field, hfield, rfl⟩

theorem inputWith_object {name : String} {nonNull : Bool} {type : InputObjectType}
    {members : Members} (found : schema.type? name = some (.inputObject type))
    (ordered : (Entries.keys members).Sublist (type.fields.entries.map InputValue.name))
    (present : ∀ field ∈ type.fields.entries,
      field.type.nonNull = true ∨ field.default?.isSome → field.name ∈ Entries.keys members)
    (each : ∀ field ∈ type.fields.entries, ∀ value, (field.name, value) ∈ members →
      inputWith schema default value field.type = .ok value) :
    inputWith schema default (.object members) (.named name nonNull) = .ok (.object members) := by
  simp only [inputWith, singleItem, found, fillObject,
    undefinedField?_eq_none fun key hmem => ordered.subset hmem]
  refine map_eq_ok_iff.mpr ⟨members, fillFields_eq_ok_iff.mpr ?_, rfl⟩
  refine fills_members type.fields.distinct ordered present fun field hmem => ?_
  rw [get?_inputMembersWith, Option.map_map]
  refine Option.map_congr fun value hvalue => ?_
  exact mapError_eq_ok_iff.mpr (each field hmem value (Entries.mem_of_get? hvalue))

/-! ## Values of the form of their type -/

theorem inputItemsWith_of_each {item : TypeRef} {values : List Json}
    (each : ∀ value ∈ values, inputWith schema default value item = .ok value) :
    inputItemsWith schema default values item = .ok values := by
  induction values with
  | nil => rfl
  | cons value rest ih =>
      obtain ⟨hfirst, hrest⟩ := List.forall_mem_cons.mp each
      rw [inputItemsWith, hfirst, ih hrest]
      rfl

/-- Whatever default would be taken, none is. -/
theorem inputWith_of_conforms {type : TypeRef} {value : Json}
    (conforms : schema.InputConforms type value) (allowed : schema.NullsAllowed type value) :
    inputWith schema default value type = .ok value := by
  induction conforms with
  | null nullable => simp [inputWith, nullable]
  | list each ih =>
      rw [inputWith]
      refine map_eq_ok_iff.mpr ⟨_, inputItemsWith_of_each fun value hmem => ?_, rfl⟩
      exact ih value hmem fun declared held hholds => allowed declared held (.item hmem hholds)
  | builtIn found named canonical =>
      rw [inputWith_leaf found rfl canonical.isNull_eq_false, leafInput, found]
      exact scalarInput_canonical named canonical
  | @custom name nonNull _ value found named =>
      cases hnull : value.isNull with
      | true =>
          obtain rfl := Json.eq_null_of_isNull hnull
          have hnullable : nonNull = false := by
            refine Bool.eq_false_iff.mpr fun hnonNull => ?_
            cases allowed _ _ (.here _ _) hnonNull
          simp [inputWith, TypeRef.nonNull, hnullable]
      | false =>
          rw [inputWith_leaf found rfl hnull, leafInput, found]
          simp [scalarInput, named]
  | enum found member =>
      rw [inputWith_leaf found rfl rfl, leafInput, found]
      simp [enumInput, member]
  | object found ordered present each ih =>
      refine inputWith_object found ordered present fun field hfield value hmem => ?_
      exact ih field hfield value hmem fun declared held hholds =>
        allowed declared held (.field found hfield hmem hholds)

end Coercion

/-- Coercing a value once more does not change it, if JSON has a number for each number in the
defaults of input fields. -/
theorem Schema.coerceInput_idempotent (schema : Schema)
    (representable : schema.DefaultsRepresentable) {raw value : Json} {type : TypeRef}
    (h : schema.coerceInput raw type = .ok value) : schema.coerceInput value type = .ok value :=
  Coercion.inputWith_of_conforms (conforms_coerceInput h)
    (nullsAllowed_coerceInput representable h)

namespace Sample

theorem notes_idempotent :
    notes.coerceInput (.object [("body", .integer 5)]) (.list (.named "Note" true) false) =
      .ok (.array [coercedNote (.integer 5)]) ∧
    notes.coerceInput (.array [coercedNote (.integer 5)]) (.list (.named "Note" true) false) =
      .ok (.array [coercedNote (.integer 5)]) := by
  have h : notes.coerceInput (.object [("body", .integer 5)]) (.list (.named "Note" true) false) =
      .ok (.array [coercedNote (.integer 5)]) := rfl
  exact ⟨h, notes.coerceInput_idempotent representable_notes h⟩

end Sample

end GraphQL
