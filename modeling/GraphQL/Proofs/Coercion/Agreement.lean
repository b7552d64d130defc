import GraphQL.Proofs.Binary64.IntegerText
import GraphQL.Proofs.Coercion.Arguments

/-! # Literals and the values they stand for

A literal without variables stands for a JSON value. Where the literal can be coerced to a type, so
can the value, with the same result but for one thing: as a float, an integer is sent as it is,
while a literal becomes the float that is nearest to it. So an argument is the same whether it is
written in the document or sent for a variable of its type. -/

namespace GraphQL

/-! ## What a literal stands for -/

namespace Literal

mutual

/-- A literal stands for a JSON value: integers of 64 bits in canonical notation for themselves,
finite floats for the nearest float, enum values for their names. No object repeats a key. -/
inductive Denotes : Literal → Json → Prop
  | null : Denotes .null .null
  | bool (b : Bool) : Denotes (.bool b) (.bool b)
  | integer (n : Int) (fits : Int64.minValue.toInt ≤ n ∧ n ≤ Int64.maxValue.toInt) :
      Denotes (.int (toString n)) (.integer n)
  | float {text x} (finite : Binary64.read? text.toList = some x) :
      Denotes (.float text) (.number (.float x))
  | string (text : String) : Denotes (.string text) (.string text)
  | enum (name : String) : Denotes (.enum name) (.string name)
  | list {items values} (each : ItemsDenote items values) : Denotes (.list items) (.array values)
  | object {fields members} (distinct : (Entries.keys fields).Nodup)
      (each : FieldsDenote fields members) : Denotes (.object fields) (.object members)

inductive ItemsDenote : List Literal → List Json → Prop
  | nil : ItemsDenote [] []
  | cons {item value items values} (first : Denotes item value)
      (others : ItemsDenote items values) : ItemsDenote (item :: items) (value :: values)

inductive FieldsDenote : List (String × Literal) → Members → Prop
  | nil : FieldsDenote [] []
  | cons {name literal value fields members} (first : Denotes literal value)
      (others : FieldsDenote fields members) :
      FieldsDenote ((name, literal) :: fields) ((name, value) :: members)

end

theorem FieldsDenote.keys_eq {fields : List (String × Literal)} {members : Members}
    (h : FieldsDenote fields members) : Entries.keys members = Entries.keys fields := by
  induction fields generalizing members with
  | nil =>
      cases h
      rfl
  | cons field rest ih =>
      cases h with
      | cons _ others => exact congrArg _ (ih others)

mutual

/-- A scalar that takes every value takes what the literal stands for. -/
theorem Denotes.toJson_eq (literal : Literal) {value : Json} (h : Denotes literal value)
    (bindings : Members) : literal.toJson bindings = value := by
  cases h with
  | integer n fits =>
      simp only [toJson, Json.ofIntText, Decimal.readInt?_toString]
      exact if_pos fits
  | float finite => simp [toJson, Json.ofFloatText, finite]
  | @list items _ each => exact congrArg _ (ItemsDenote.toJson_eq items each bindings)
  | @object fields _ distinct each =>
      rw [toJson, FieldsDenote.toJson_eq fields each bindings,
        Entries.ofList_of_nodup (each.keys_eq ▸ distinct)]
  | _ => rfl

theorem ItemsDenote.toJson_eq (items : List Literal) {values : List Json}
    (h : ItemsDenote items values) (bindings : Members) : itemsToJson bindings items = values := by
  cases h with
  | nil => rfl
  | @cons item _ rest _ first others =>
      rw [itemsToJson, Denotes.toJson_eq item first, ItemsDenote.toJson_eq rest others]

theorem FieldsDenote.toJson_eq (fields : List (String × Literal)) {members : Members}
    (h : FieldsDenote fields members) (bindings : Members) :
    fieldsToJson bindings fields = members := by
  cases h with
  | nil => rfl
  | @cons _ literal _ rest _ first others =>
      rw [fieldsToJson, Denotes.toJson_eq literal first, FieldsDenote.toJson_eq rest others]

end

end Literal

/-! ## The same input -/

/-- Two values are the same input of a type, but for the representation of numbers as floats: the
one has the float that is nearest to the number of the other. -/
inductive Schema.SameInput (schema : Schema) : TypeRef → Json → Json → Prop
  | same (type : TypeRef) (value : Json) : SameInput schema type value value
  | float {name nonNull declared x n} (found : schema.type? name = some (.scalar declared))
      (named : BuiltInScalar.ofName? name = some .float)
      (nearest : Number.toBinary64? n = some x) :
      SameInput schema (.named name nonNull) (.number (.float x)) (.number n)
  | list {item nonNull values sent} (length : sent.length = values.length)
      (each : ∀ (index : Nat) (value other : Json), values[index]? = some value →
        sent[index]? = some other → SameInput schema item value other) :
      SameInput schema (.list item nonNull) (.array values) (.array sent)
  | object {name nonNull type values sent} (found : schema.type? name = some (.inputObject type))
      (ordered : (Entries.keys values).Sublist (type.fields.entries.map InputValue.name))
      (keys : Entries.keys sent = Entries.keys values)
      (each : ∀ field ∈ type.fields.entries, ∀ value other,
        Entries.get? field.name values = some value → Entries.get? field.name sent = some other →
        SameInput schema field.type value other) :
      SameInput schema (.named name nonNull) (.object values) (.object sent)

variable {schema : Schema}

theorem Schema.SameInput.of_items {item : TypeRef} {nonNull : Bool} {values sent : List Json}
    (each : List.Forall₂ (schema.SameInput item) values sent) :
    schema.SameInput (.list item nonNull) (.array values) (.array sent) := by
  refine .list each.length_eq.symm fun index value other hvalue hother => ?_
  induction each generalizing index with
  | nil => simp at hvalue
  | cons first _ ih =>
      cases index with
      | zero =>
          obtain rfl := Option.some.inj hvalue
          obtain rfl := Option.some.inj hother
          exact first
      | succ index => exact ih index hvalue hother

theorem Schema.SameInput.isNull_eq {type : TypeRef} {value sent : Json}
    (h : schema.SameInput type value sent) : sent.isNull = value.isNull := by
  cases h <;> rfl

/-- Whatever is provided for a type, the same input is received for it. -/
def Schema.Agrees (schema : Schema) (provide receive : TypeRef → Except Reason Json) : Prop :=
  ∀ type value, provide type = .ok value →
    ∃ sent, receive type = .ok sent ∧ schema.SameInput type value sent

namespace Coercion

variable {bindings : Members} {default : TypeRef → Literal → Except Reason Json}

theorem agrees_singleItem {provide receive : String → Bool → Except Reason Json} {type : TypeRef}
    (hnamed : ∀ nonNull value, provide type.innerName nonNull = .ok value →
      ∃ sent, receive type.innerName nonNull = .ok sent ∧
        schema.SameInput (.named type.innerName nonNull) value sent)
    {value : Json} (h : singleItem provide type = .ok value) :
    ∃ sent, singleItem receive type = .ok sent ∧ schema.SameInput type value sent := by
  induction type generalizing value with
  | named name nonNull => exact hnamed nonNull value h
  | list item nonNull ih =>
      obtain ⟨single, hsingle, rfl⟩ := map_eq_ok_iff.mp h
      obtain ⟨sent, hsent, hsame⟩ := ih hnamed hsingle
      exact ⟨.array [sent], map_eq_ok_iff.mpr ⟨sent, hsent, rfl⟩, .of_items (.cons hsame .nil)⟩

/-! ## Leaves -/

/-- A built-in scalar takes from a value what it takes from the literal that stands for it, but for
the representation of integers as floats. -/
theorem scalarInput?_of_toScalar? {literal : Literal} {json : Json}
    (denotes : literal.Denotes json) {scalar : BuiltInScalar} {value : Json}
    (h : literal.toScalar? scalar = some value) :
    scalarInput? scalar json = some value ∨ (scalar = .float ∧ ∃ n x,
      scalarInput? scalar json = some (.number n) ∧ value = .number (.float x) ∧
      Number.toBinary64? n = some x) := by
  unfold Literal.toScalar? at h
  split at h
  · cases denotes with
    | integer n fits =>
        obtain ⟨x, hread, rfl⟩ := Option.map_eq_some_iff.mp h
        rw [Binary64.read?_toString] at hread
        exact .inr ⟨rfl, .integer n, x, rfl, rfl, hread⟩
  · cases denotes with
    | float finite =>
        rw [Json.ofFloatText, finite] at h
        exact .inl h
  all_goals cases h
  all_goals cases denotes
  all_goals exact .inl rfl

theorem scalarInput_of_scalarInput? {name : String} {scalar : BuiltInScalar}
    (named : BuiltInScalar.ofName? name = some scalar) {raw value : Json}
    (h : scalarInput? scalar raw = some value) : scalarInput name raw = .ok value := by
  simp only [scalarInput, named]
  cases scalar with
  | int => cases h
  | _ => simp [h]

theorem agrees_scalar {literal : Literal} {json : Json} (denotes : literal.Denotes json)
    {name declared : String} (found : schema.type? name = some (.scalar declared)) {nonNull : Bool}
    {value : Json} (h : scalarLiteral bindings name nonNull literal = .ok value) :
    ∃ sent, scalarInput name json = .ok sent ∧
      schema.SameInput (.named name nonNull) value sent := by
  unfold scalarLiteral at h
  split at h
  · rename_i hnamed
    cases h
    rw [denotes.toJson_eq]
    exact ⟨json, by simp [scalarInput, hnamed], .same _ _⟩
  · rename_i text hnamed
    split at h
    · rename_i hresult
      cases h
      cases denotes with
      | integer n fits =>
          rw [Decimal.readInt?_toString, Option.bind_some, BuiltInScalar.intResult?] at hresult
          obtain ⟨hint, heq⟩ := Option.ite_none_right_eq_some.mp hresult
          cases heq
          refine ⟨.integer n, ?_, .same _ _⟩
          simp only [scalarInput, hnamed]
          exact intInput_integer hint
    · cases h
  · rename_i hnamed _
    split at h
    · rename_i hscalar
      cases h
      obtain hsent | ⟨rfl, n, x, hsent, rfl, hnearest⟩ :=
        scalarInput?_of_toScalar? denotes hscalar
      · exact ⟨value, scalarInput_of_scalarInput? hnamed hsent, .same _ _⟩
      · exact ⟨.number n, scalarInput_of_scalarInput? hnamed hsent, .float found hnamed hnearest⟩
    · cases h

theorem agrees_leaf {literal : Literal} {json : Json} (denotes : literal.Denotes json)
    {name : String} {nonNull : Bool} {value : Json}
    (h : leafLiteral schema bindings literal name nonNull = .ok value) :
    ∃ sent, leafInput schema json name = .ok sent ∧
      schema.SameInput (.named name nonNull) value sent := by
  unfold leafLiteral at h
  split at h
  · rename_i hfound
    simp only [leafInput, hfound]
    exact agrees_scalar denotes hfound h
  · rename_i hfound
    split at h
    · rename_i hmember
      cases h
      cases denotes
      exact ⟨_, by simp [leafInput, hfound, enumInput, hmember], .same _ _⟩
    · cases h
  · cases h

/-! ## Input objects -/

/-- What stands under the name of a field on both sides is the same input of its type. -/
def SameMembers (schema : Schema) (fields : List InputValue) (values sent : Members) : Prop :=
  ∀ field ∈ fields, ∀ value other, Entries.get? field.name values = some value →
    Entries.get? field.name sent = some other → schema.SameInput field.type value other

theorem SameMembers.cons {field : InputValue} {fields : List InputValue} {value other : Json}
    {values sent : Members} (new : field.name ∉ fields.map InputValue.name)
    (first : schema.SameInput field.type value other)
    (others : SameMembers schema fields values sent) :
    SameMembers schema (field :: fields) ((field.name, value) :: values)
      ((field.name, other) :: sent) := by
  refine List.forall_mem_cons.mpr ⟨fun v o hv ho => ?_, fun later hmem v o hv ho => ?_⟩
  · simp only [Entries.get?, ite_true, Option.some.injEq] at hv ho
    exact hv ▸ ho ▸ first
  · have hname : field.name ≠ later.name := fun heq => new (heq ▸ List.mem_map_of_mem hmem)
    simp only [Entries.get?, hname, ite_false] at hv ho
    exact others later hmem v o hv ho

/-- Fields that are filled from the one side are filled from the other, with the same input. -/
theorem Fills.agrees {provided? received? : InputValue → Option (Except Reason Json)}
    {fields : List InputValue} {values : Members}
    (distinct : (fields.map InputValue.name).Nodup)
    (hprovided : ∀ field ∈ fields, ∀ value, provided? field = some (.ok value) →
      ∃ sent, received? field = some (.ok sent) ∧ schema.SameInput field.type value sent)
    (hmissing : ∀ field ∈ fields, provided? field = none → received? field = none)
    (h : Fills default provided? fields values) :
    ∃ sent, Fills default received? fields sent ∧ Entries.keys sent = Entries.keys values ∧
      SameMembers schema fields values sent := by
  induction h with
  | nil => exact ⟨[], .nil, rfl, nofun⟩
  | @provided field rest value members given _ ih =>
      obtain ⟨hfirst, hdistinct⟩ := List.nodup_cons.mp distinct
      obtain ⟨hfield, hrest⟩ := List.forall_mem_cons.mp hprovided
      obtain ⟨sent, hsent, hkeys, heach⟩ :=
        ih hdistinct hrest (List.forall_mem_cons.mp hmissing).2
      obtain ⟨received, hreceived, hsame⟩ := hfield value given
      exact ⟨(field.name, received) :: sent, .provided hreceived hsent,
        congrArg (List.cons field.name) hkeys, heach.cons hfirst hsame⟩
  | @default field rest _ value members missing declared given _ ih =>
      obtain ⟨hfirst, hdistinct⟩ := List.nodup_cons.mp distinct
      obtain ⟨hfield, hrest⟩ := List.forall_mem_cons.mp hmissing
      obtain ⟨sent, hsent, hkeys, heach⟩ :=
        ih hdistinct (List.forall_mem_cons.mp hprovided).2 hrest
      exact ⟨(field.name, value) :: sent, .default (hfield missing) declared given hsent,
        congrArg (List.cons field.name) hkeys, heach.cons hfirst (.same field.type value)⟩
  | @absent field rest members missing undeclared nullable tail ih =>
      obtain ⟨hfirst, hdistinct⟩ := List.nodup_cons.mp distinct
      obtain ⟨hfield, hrest⟩ := List.forall_mem_cons.mp hmissing
      obtain ⟨sent, hsent, hkeys, heach⟩ :=
        ih hdistinct (List.forall_mem_cons.mp hprovided).2 hrest
      refine ⟨sent, .absent (hfield missing) undeclared nullable hsent, hkeys,
        List.forall_mem_cons.mpr ⟨fun value other hvalue => ?_, heach⟩⟩
      -- Nothing stands under the name of a field that was left out.
      have hnone : Entries.get? field.name members = none :=
        Entries.get?_eq_none fun hmem => hfirst (tail.keys_sublist.subset hmem)
      cases hnone.symm.trans hvalue

/-- What a field of an object literal provides is received from the member of its name. -/
def Receives (schema : Schema) (given : String × Option (TypeRef → Except Reason Json))
    (sent : String × (TypeRef → Except Reason Json)) : Prop :=
  given.1 = sent.1 ∧ ∃ provide, given.2 = some provide ∧ schema.Agrees provide sent.2

theorem get?_receives {given : List (String × Option (TypeRef → Except Reason Json))}
    {sent : List (String × (TypeRef → Except Reason Json))}
    (h : List.Forall₂ (Receives schema) given sent) (name : String) :
    (Entries.get? name given = none ∧ Entries.get? name sent = none) ∨
      ∃ provide receive, Entries.get? name given = some (some provide) ∧
        Entries.get? name sent = some receive ∧ schema.Agrees provide receive := by
  induction h with
  | nil => exact .inl ⟨rfl, rfl⟩
  | @cons first other _ _ hfirst _ ih =>
      obtain ⟨key, provide?⟩ := first
      obtain ⟨_, receive⟩ := other
      obtain ⟨rfl, provide, rfl, hagrees⟩ := hfirst
      by_cases hkey : key = name
      · exact .inr ⟨provide, receive, if_pos hkey, if_pos hkey, hagrees⟩
      · simpa only [Entries.get?, hkey, ite_false] using ih

section

variable {field : InputValue} {given : List (String × Option (TypeRef → Except Reason Json))}
  {sent : List (String × (TypeRef → Except Reason Json))}

theorem received_of_provided (hreceives : List.Forall₂ (Receives schema) given sent) {value : Json}
    (h : ((Entries.get? field.name given).bind fun provide => provide.map (· field.type)) =
      some (.ok value)) :
    ∃ other, ((Entries.get? field.name sent).map fun receive =>
        (receive field.type).mapError (Reason.within field.name)) = some (.ok other) ∧
      schema.SameInput field.type value other := by
  obtain ⟨hnone, -⟩ | ⟨provide, receive, hprovide, hreceive, hagrees⟩ :=
    get?_receives hreceives field.name
  · rw [hnone] at h
    cases h
  · rw [hprovide] at h
    obtain ⟨other, hother, hsame⟩ := hagrees field.type value (Option.some.inj h)
    exact ⟨other, by rw [hreceive, Option.map_some, hother]; rfl, hsame⟩

theorem missing_of_missing (hreceives : List.Forall₂ (Receives schema) given sent)
    (h : ((Entries.get? field.name given).bind fun provide => provide.map (· field.type)) = none) :
    ((Entries.get? field.name sent).map fun receive =>
      (receive field.type).mapError (Reason.within field.name)) = none := by
  obtain ⟨-, hnone⟩ | ⟨provide, _, hprovide, -⟩ := get?_receives hreceives field.name
  · exact congrArg _ hnone
  · rw [hprovide] at h
    cases h

end

theorem agrees_object {name : String} {nonNull : Bool} {type : InputObjectType}
    (found : schema.type? name = some (.inputObject type)) {keys : List String}
    {given : List (String × Option (TypeRef → Except Reason Json))}
    {sent : List (String × (TypeRef → Except Reason Json))}
    (hreceives : List.Forall₂ (Receives schema) given sent) {value : Json}
    (h : fillObject type default keys (fun field =>
      (Entries.get? field.name given).bind fun provide => provide.map (· field.type)) = .ok value) :
    ∃ other, fillObject type default keys (fun field =>
        (Entries.get? field.name sent).map fun receive =>
          (receive field.type).mapError (.within field.name)) = .ok other ∧
      schema.SameInput (.named name nonNull) value other := by
  unfold fillObject at h ⊢
  split at h
  · cases h
  · obtain ⟨values, hvalues, rfl⟩ := map_eq_ok_iff.mp h
    have hfills := fillFields_eq_ok_iff.mp hvalues
    obtain ⟨others, hothers, hkeys, hsame⟩ :=
      hfills.agrees type.fields.distinct
        (fun _ _ _ hgiven => received_of_provided hreceives hgiven)
        (fun _ _ hmissing => missing_of_missing hreceives hmissing)
    refine ⟨.object others, map_eq_ok_iff.mpr ⟨others, fillFields_eq_ok_iff.mpr hothers, rfl⟩, ?_⟩
    exact .object found hfills.keys_sublist hkeys hsame

/-! ## All values -/

theorem isAbsentVariable_of_denotes {literal : Literal} {json : Json}
    (denotes : literal.Denotes json) : isAbsentVariable bindings literal = false := by
  cases denotes <;> rfl

mutual

/-- A literal gives the same input as the value that it stands for: induction on the literal. -/
theorem agrees_literalWith (default : TypeRef → Literal → Except Reason Json) (bindings : Members)
    (literal : Literal) {json : Json} (denotes : literal.Denotes json) :
    schema.Agrees (literalWith schema default bindings literal)
      (inputWith schema default json) := by
  intro type value h
  have hleaf : singleItem (leafLiteral schema bindings literal) type = .ok value →
      ∃ sent, singleItem (fun name _ => leafInput schema json name) type = .ok sent ∧
        schema.SameInput type value sent :=
    agrees_singleItem fun _ _ => agrees_leaf denotes
  cases denotes with
  | null =>
      rw [literalWith] at h
      exact ⟨value, h, .same type value⟩
  | @list items values each =>
      cases type with
      | named name nonNull => exact hleaf h
      | list item nonNull =>
          rw [literalWith] at h
          obtain ⟨results, hresults, rfl⟩ := map_eq_ok_iff.mp h
          obtain ⟨sent, hsent, hsame⟩ := agrees_itemsWith default bindings items each hresults
          refine ⟨.array sent, ?_, .of_items hsame⟩
          exact map_eq_ok_iff.mpr ⟨sent, hsent, rfl⟩
  | @object fields members distinct each =>
      rw [literalWith] at h
      rw [inputWith]
      refine agrees_singleItem (fun nonNull value hvalue => ?_) h
      -- Only the type decides whether fields are filled in, so both sides take the same branch.
      cases hfound : schema.type? type.innerName with
      | none =>
          simp only [hfound] at hvalue ⊢
          exact agrees_leaf (.object distinct each) hvalue
      | some definition =>
          cases definition with
          | inputObject object =>
              simp only [hfound, each.keys_eq] at hvalue ⊢
              exact agrees_object hfound (agrees_fieldsWith default bindings fields each) hvalue
          | _ =>
              simp only [hfound] at hvalue ⊢
              exact agrees_leaf (.object distinct each) hvalue
  | _ => exact hleaf h

theorem agrees_itemsWith (default : TypeRef → Literal → Except Reason Json) (bindings : Members)
    (items : List Literal) {values : List Json} (each : Literal.ItemsDenote items values)
    {type : TypeRef} {results : List Json}
    (h : itemsWith schema default bindings items type = .ok results) :
    ∃ sent, inputItemsWith schema default values type = .ok sent ∧
      List.Forall₂ (schema.SameInput type) results sent := by
  cases each with
  | nil =>
      cases h
      exact ⟨[], rfl, .nil⟩
  | @cons item _ rest _ first others =>
      rw [itemsWith, bind_eq_ok_iff] at h
      obtain ⟨result, hresult, h⟩ := h
      obtain ⟨remaining, hremaining, heq⟩ := bind_eq_ok_iff.mp h
      cases heq
      obtain ⟨sent, hsent, hsame⟩ :=
        agrees_literalWith default bindings item first type result hresult
      obtain ⟨later, hlater, heach⟩ := agrees_itemsWith default bindings rest others hremaining
      refine ⟨sent :: later, ?_, .cons hsame heach⟩
      rw [inputItemsWith, hsent, hlater]
      rfl

theorem agrees_fieldsWith (default : TypeRef → Literal → Except Reason Json) (bindings : Members)
    (fields : List (String × Literal)) {members : Members}
    (each : Literal.FieldsDenote fields members) :
    List.Forall₂ (Receives schema) (fieldsWith schema default bindings fields)
      (inputMembersWith schema default members) := by
  cases each with
  | nil => exact .nil
  | @cons _ literal _ rest _ first others =>
      rw [fieldsWith, inputMembersWith, isAbsentVariable_of_denotes first]
      exact .cons ⟨rfl, _, rfl, agrees_literalWith default bindings literal first⟩
        (agrees_fieldsWith default bindings rest others)

end

/-! ## Arguments -/

/-- What is written for an argument, if it is no variable without a value, gives its value. -/
theorem Takes.value {definition : InputValue} {literal : Literal} {value? : Option Json}
    (h : Takes schema bindings definition (some literal) value?)
    (present : isAbsentVariable bindings literal = false) :
    ∃ value, value? = some value ∧ ¬(value.isNull ∧ definition.type.nonNull) ∧
      schema.coerceLiteral bindings literal definition.type = .ok value := by
  cases h with
  | given _ allowed coerced => exact ⟨_, rfl, allowed, coerced⟩
  | default missing | absent missing => cases present.symm.trans (missing literal rfl)

theorem argument_var {definition : InputValue} {source : String} {value : Json}
    (bound : Entries.get? source bindings = some value)
    (allowed : ¬(value.isNull ∧ definition.type.nonNull)) :
    argument schema bindings definition (some (.var source)) = .ok (some value) := by
  have hprovided :
      providedArgument schema bindings definition (some (.var source)) = .ok (some value) := by
    simp only [providedArgument, bound]
  simp only [argument, hprovided]
  exact if_neg allowed

/-- A value that can be coerced to the type of a variable can be sent for it. -/
theorem variableInput_of_coerceInput {definition : VariableDefinition}
    (input : schema.isInputType definition.type = true) {raw value : Json}
    (h : schema.coerceInput raw definition.type = .ok value) :
    variableInput schema definition (some raw) = .ok (some value) := by
  have hallowed : ¬(raw.isNull ∧ definition.type.nonNull) := by
    rintro ⟨hnull, hnonNull⟩
    rw [Json.eq_null_of_isNull hnull, Schema.coerceInput, inputWith, if_pos hnonNull] at h
    cases h
  simp only [variableInput, input, h, hallowed, Bool.not_true, Bool.false_eq_true, ite_false]

end Coercion

/-- Where a literal can be coerced to a type, the value that it stands for can, to the same input.
So an argument may be written in the document or sent for a variable of its type. -/
theorem Schema.literal_agrees_with_input (schema : Schema) {literal : Literal} {json : Json}
    (denotes : literal.Denotes json) :
    (∀ bindings type value, schema.coerceLiteral bindings literal type = .ok value →
      ∃ sent, schema.coerceInput json type = .ok sent ∧ schema.SameInput type value sent) ∧
    ∀ bindings definition value?,
      Coercion.argument schema bindings definition (some literal) = .ok value? →
      ∃ value sent, value? = some value ∧ schema.SameInput definition.type value sent ∧
        ∀ source : VariableDefinition, source.type = definition.type →
          schema.isInputType source.type = true →
          Coercion.variableInput schema source (some json) = .ok (some sent) ∧
          ∀ bound, Entries.get? source.name bound = some sent →
            Coercion.argument schema bound definition (some (.var source.name)) =
              .ok (some sent) := by
  have hagrees : ∀ bindings,
      schema.Agrees (schema.coerceLiteral bindings literal) (schema.coerceInput json) :=
    fun bindings => Coercion.agrees_literalWith schema.defaultValue bindings literal denotes
  refine ⟨hagrees, fun bindings definition value? h => ?_⟩
  obtain ⟨value, rfl, hallowed, hcoerced⟩ :=
    (Coercion.takes_of_argument h).value (Coercion.isAbsentVariable_of_denotes denotes)
  obtain ⟨sent, hsent, hsame⟩ := hagrees bindings definition.type value hcoerced
  refine ⟨value, sent, rfl, hsame, fun source htype hinput => ⟨?_, fun bound hbound => ?_⟩⟩
  · exact Coercion.variableInput_of_coerceInput hinput (htype ▸ hsent)
  · exact Coercion.argument_var hbound (hsame.isNull_eq ▸ hallowed)

namespace Sample

def unit : EnumType := { name := "Unit", values := ⟨["KM", "MI"], by decide⟩ }

def area : InputObjectType :=
  { name := "Area"
    fields :=
      ⟨[{ name := "center", type := .list (.named "Float" true) true },
        { name := "radius", type := .named "Float" false, default? := some (.int "10") },
        { name := "unit", type := .named "Unit" true }], by decide⟩ }

def areas : Schema :=
  { query? := none
    types := ⟨[.scalar "Float", .enum unit, .inputObject area], by decide⟩ }

def areaArgument : InputValue := { name := "areas", type := .list (.named "Area" true) false }

def areaVariable : VariableDefinition :=
  { name := "areas", type := .list (.named "Area" true) false, location := ⟨1, 7⟩ }

/-- The argument `areas: {unit: KM, center: 3}`, one area of a center with one coordinate. -/
def writtenArea : Literal := .object [("unit", .enum "KM"), ("center", .int "3")]

def sentArea : Json := .object [("unit", .string "KM"), ("center", .integer 3)]

/-- The area after coercion, with a coordinate that is an integer or a float. -/
def coercedArea (coordinate : Number) : Json :=
  .array [.object
    [("center", .array [.number coordinate]),
      ("radius", .number (.float ⟨false, 5 * Nat.pow 2 50, -49, by decide⟩)),
      ("unit", .string "KM")]]

def writtenCoordinate : Number := .float ⟨false, 3 * Nat.pow 2 51, -51, by decide⟩

theorem writtenArea_denotes : writtenArea.Denotes sentArea :=
  .object (by decide) (.cons (.enum "KM") (.cons (.integer 3 (by decide)) .nil))

theorem area_agrees_with_input :
    areas.coerceLiteral [] writtenArea areaArgument.type = .ok (coercedArea writtenCoordinate) ∧
    areas.coerceInput sentArea areaArgument.type = .ok (coercedArea (.integer 3)) ∧
    areas.SameInput areaArgument.type (coercedArea writtenCoordinate) (coercedArea (.integer 3)) ∧
    Coercion.argument areas [("areas", coercedArea (.integer 3))] areaArgument
      (some (.var "areas")) = .ok (some (coercedArea (.integer 3))) := by
  obtain ⟨hagrees, hargument⟩ := areas.literal_agrees_with_input writtenArea_denotes
  obtain ⟨sent, hsent, hsame⟩ :=
    hagrees [] areaArgument.type (coercedArea writtenCoordinate) rfl
  obtain rfl : sent = coercedArea (.integer 3) := Except.ok.inj (hsent.symm.trans rfl)
  obtain ⟨_, other, -, -, hpassed⟩ :=
    hargument [] areaArgument (some (coercedArea writtenCoordinate)) rfl
  obtain ⟨hinput, hvar⟩ := hpassed areaVariable rfl rfl
  obtain rfl : other = coercedArea (.integer 3) :=
    Option.some.inj (Except.ok.inj (hinput.symm.trans rfl))
  exact ⟨rfl, hsent, hsame, hvar _ rfl⟩

end Sample

end GraphQL
