import GraphQL.Proofs.Coercion.Nulls

/-! # Variables without a value

A variable without a value is the same as no entry at all, for an argument and for a field of an
input object: instead of it comes the default, or nothing, or else an error. So an argument list may
be written without such entries, at any depth where types are declared. Inside the values of
scalars that are not built in no types are declared, and such a variable is null there. -/

namespace GraphQL

/-! ## The same result -/

/-- Two computations succeed with the same value, or both fail. -/
def SameResult {ε ε' α : Type} (first : Except ε α) (second : Except ε' α) : Prop :=
  ∀ value, first = .ok value ↔ second = .ok value

namespace SameResult

variable {ε ε' α β : Type}

theorem refl (first : Except ε α) : SameResult first first := fun _ => .rfl

theorem symm {first : Except ε α} {second : Except ε' α} (h : SameResult first second) :
    SameResult second first :=
  fun value => (h value).symm

theorem trans {ε'' : Type} {first : Except ε α} {second : Except ε' α} {third : Except ε'' α}
    (h : SameResult first second) (h' : SameResult second third) : SameResult first third :=
  fun value => (h value).trans (h' value)

theorem of_ok (value : α) : SameResult (.ok value : Except ε α) (.ok value : Except ε' α) :=
  fun _ => ⟨fun h => congrArg _ (Except.ok.inj h), fun h => congrArg _ (Except.ok.inj h)⟩

theorem of_error (error : ε) (error' : ε') :
    SameResult (.error error : Except ε α) (.error error' : Except ε' α) :=
  fun _ => ⟨nofun, nofun⟩

theorem map {first : Except ε α} {second : Except ε' α} (h : SameResult first second)
    (f : α → β) : SameResult (first.map f) (second.map f) := by
  intro result
  simp only [map_eq_ok_iff, h _]

theorem bind {first : Except ε α} {second : Except ε' α} {next : α → Except ε β}
    {next' : α → Except ε' β} (h : SameResult first second)
    (hnext : ∀ value, SameResult (next value) (next' value)) :
    SameResult (first >>= next) (second >>= next') := by
  intro result
  simp only [bind_eq_ok_iff, h _, hnext _ result]

theorem eq_or_fails {first : Except ε α} {second : Except ε' α} (h : SameResult first second) :
    (∃ value, first = .ok value ∧ second = .ok value) ∨
      ∃ error error', first = .error error ∧ second = .error error' := by
  cases hfirst : first with
  | ok value => exact .inl ⟨value, rfl, (h value).mp hfirst⟩
  | error error =>
      cases hsecond : second with
      | ok value => cases hfirst.symm.trans ((h value).mpr hsecond)
      | error error' => exact .inr ⟨error, error', rfl, rfl⟩

theorem foldlM {δ : Type} {step : β → δ → Except ε β} {step' : β → δ → Except ε' β}
    {definitions : List δ}
    (each : ∀ definition ∈ definitions, ∀ before,
      SameResult (step before definition) (step' before definition)) (start : β) :
    SameResult (definitions.foldlM step start) (definitions.foldlM step' start) := by
  induction definitions generalizing start with
  | nil =>
      rw [List.foldlM_nil, List.foldlM_nil]
      exact .of_ok start
  | cons definition rest ih =>
      have hrest := (List.forall_mem_cons.mp each).2
      rw [List.foldlM_cons, List.foldlM_cons]
      exact (each definition List.mem_cons_self start).bind fun next => ih hrest next

end SameResult

/-! ## Leaving entries out -/

mutual

/-- A literal at a type, and the same with some of the variables without a value left out that are
fields of input objects. -/
inductive Schema.Omits (schema : Schema) (bindings : Members) :
    TypeRef → Literal → Literal → Prop
  | same (type : TypeRef) (literal : Literal) : Omits schema bindings type literal literal
  | list {item nonNull items remaining} (each : OmitsInItems schema bindings item items remaining) :
      Omits schema bindings (.list item nonNull) (.list items) (.list remaining)
  | object {type object fields remaining}
      (found : schema.type? type.innerName = some (.inputObject object))
      (each : OmitsEntries schema bindings object.fields.entries fields remaining)
      (defined : ∀ name ∈ Entries.keys fields, name ∉ Entries.keys remaining →
        object.fields.contains name = true) :
      Omits schema bindings type (.object fields) (.object remaining)

inductive Schema.OmitsInItems (schema : Schema) (bindings : Members) :
    TypeRef → List Literal → List Literal → Prop
  | nil {item} : OmitsInItems schema bindings item [] []
  | cons {item literal literal' items remaining}
      (first : Omits schema bindings item literal literal')
      (others : OmitsInItems schema bindings item items remaining) :
      OmitsInItems schema bindings item (literal :: items) (literal' :: remaining)

/-- Entries, and the same with some of the variables without a value left out: both those that are
entries themselves and those inside the values of entries, at the types of their definitions. -/
inductive Schema.OmitsEntries (schema : Schema) (bindings : Members) :
    List InputValue → List (String × Literal) → List (String × Literal) → Prop
  | nil {definitions} : OmitsEntries schema bindings definitions [] []
  | omitted {definitions name literal entries remaining}
      (absent : Coercion.isAbsentVariable bindings literal = true)
      (others : OmitsEntries schema bindings definitions entries remaining) :
      OmitsEntries schema bindings definitions ((name, literal) :: entries) remaining
  | kept {definitions name literal literal' entries remaining}
      (first : ∀ definition ∈ definitions, definition.name = name →
        Omits schema bindings definition.type literal literal')
      (others : OmitsEntries schema bindings definitions entries remaining) :
      OmitsEntries schema bindings definitions ((name, literal) :: entries)
        ((name, literal') :: remaining)

end

/-- What becomes of the entry of one definition. -/
inductive Schema.OmitsEntry (schema : Schema) (bindings : Members) (definition : InputValue) :
    Option Literal → Option Literal → Prop
  | missing : OmitsEntry schema bindings definition none none
  | omitted {literal} (absent : Coercion.isAbsentVariable bindings literal = true) :
      OmitsEntry schema bindings definition (some literal) none
  | kept {literal literal'} (omits : schema.Omits bindings definition.type literal literal') :
      OmitsEntry schema bindings definition (some literal) (some literal')

/-- No object inside the literal repeats a key. -/
def Literal.DistinctKeys (literal : Literal) : Prop :=
  ∀ fields, Within (.object fields) literal → (Entries.keys fields).Nodup

variable {schema : Schema} {bindings : Members} {definitions : List InputValue}
  {entries remaining : List (String × Literal)}

theorem Literal.DistinctKeys.item {items : List Literal} {item : Literal}
    (h : (Literal.list items).DistinctKeys) (hmem : item ∈ items) : item.DistinctKeys :=
  fun fields hwithin => h fields (.item hmem hwithin)

theorem Literal.DistinctKeys.field {name : String} {literal : Literal}
    (h : (Literal.object entries).DistinctKeys) (hmem : (name, literal) ∈ entries) :
    literal.DistinctKeys :=
  fun fields hwithin => h fields (.field hmem hwithin)

namespace Schema

theorem OmitsEntries.keys_sublist (h : schema.OmitsEntries bindings definitions entries remaining) :
    (Entries.keys remaining).Sublist (Entries.keys entries) := by
  induction entries generalizing remaining with
  | nil =>
      cases h
      exact .slnil
  | cons entry rest ih =>
      cases h with
      | omitted _ others => exact (ih others).cons _
      | kept _ others => exact (ih others).cons_cons _

/-- Under a name that is not repeated stands what becomes of its entry. -/
theorem OmitsEntries.entry (h : schema.OmitsEntries bindings definitions entries remaining)
    (distinct : (Entries.keys entries).Nodup) {definition : InputValue}
    (hmem : definition ∈ definitions) :
    schema.OmitsEntry bindings definition (Entries.get? definition.name entries)
      (Entries.get? definition.name remaining) := by
  induction entries generalizing remaining with
  | nil =>
      cases h
      exact .missing
  | cons entry rest ih =>
      obtain ⟨hnew, hrest⟩ := List.nodup_cons.mp distinct
      cases h with
      | @omitted _ name literal _ _ absent others =>
          by_cases hname : name = definition.name
          · have hnone : Entries.get? definition.name remaining = none :=
              Entries.get?_eq_none fun hkey => hnew (hname ▸ others.keys_sublist.subset hkey)
            simp only [Entries.get?, hname, ite_true, hnone]
            exact .omitted absent
          · simp only [Entries.get?, hname, ite_false]
            exact ih others hrest
      | @kept _ name literal literal' _ _ first others =>
          by_cases hname : name = definition.name
          · simp only [Entries.get?, hname, ite_true]
            exact .kept (first definition hmem hname.symm)
          · simp only [Entries.get?, hname, ite_false]
            exact ih others hrest

theorem Omits.isAbsentVariable_eq {type : TypeRef} {literal literal' : Literal}
    (h : schema.Omits bindings type literal literal') :
    Coercion.isAbsentVariable bindings literal' = Coercion.isAbsentVariable bindings literal := by
  cases h <;> rfl

theorem Omits.eq_or_written {type : TypeRef} {literal literal' : Literal}
    (h : schema.Omits bindings type literal literal') :
    literal' = literal ∨ (∀ name, literal ≠ .var name) ∧ ∀ name, literal' ≠ .var name := by
  cases h with
  | same => exact .inl rfl
  | list | object => exact .inr ⟨by simp, by simp⟩

end Schema

namespace Coercion

/-! ## Input objects -/

variable {default : TypeRef → Literal → Except Reason Json}

theorem sameResult_singleItem {coerce coerce' : String → Bool → Except Reason Json}
    {type : TypeRef}
    (h : ∀ nonNull, SameResult (coerce type.innerName nonNull) (coerce' type.innerName nonNull)) :
    SameResult (singleItem coerce type) (singleItem coerce' type) := by
  induction type with
  | named name nonNull => exact h nonNull
  | list item nonNull ih => exact (ih h).map _

theorem sameResult_fillFields {owner : String}
    {provided? provided?' : InputValue → Option (Except Reason Json)} {fields : List InputValue}
    (each : ∀ field ∈ fields, Option.Rel SameResult (provided? field) (provided?' field)) :
    SameResult (fillFields owner default provided? fields)
      (fillFields owner default provided?' fields) := by
  induction fields with
  | nil => exact .refl _
  | cons field rest ih =>
      obtain ⟨hfield, hrest⟩ := List.forall_mem_cons.mp each
      have hothers := ih hrest
      rw [fillFields, fillFields]
      generalize provided? field = first at hfield
      generalize provided?' field = second at hfield
      cases hfield with
      | some hsame => exact hsame.bind fun value => hothers.bind fun others => .refl _
      | none =>
          cases field.default? with
          | some literal =>
              exact (SameResult.refl _).bind fun value => hothers.bind fun others => .refl _
          | none =>
              cases field.type.nonNull with
              | true => exact .refl _
              | false => exact hothers

/-- Only fields that are defined are left out, so what is not defined is found either way. -/
theorem undefinedField?_omitted {type : InputObjectType} {keys kept : List String}
    (hkept : kept ⊆ keys)
    (defined : ∀ name ∈ keys, name ∉ kept → type.fields.contains name = true) :
    undefinedField? type keys = none ↔ undefinedField? type kept = none := by
  simp only [undefinedField?, List.find?_eq_none]
  refine ⟨fun h name hmem => h name (hkept hmem), fun h name hmem => ?_⟩
  by_cases hname : name ∈ kept
  · exact h name hname
  · simp [defined name hmem hname]

theorem sameResult_fillObject {type : InputObjectType} {keys kept : List String}
    {provided? provided?' : InputValue → Option (Except Reason Json)}
    (undefined : undefinedField? type keys = none ↔ undefinedField? type kept = none)
    (each : ∀ field ∈ type.fields.entries,
      Option.Rel SameResult (provided? field) (provided?' field)) :
    SameResult (fillObject type default keys provided?)
      (fillObject type default kept provided?') := by
  unfold fillObject
  cases hkeys : undefinedField? type keys with
  | none =>
      rw [undefined.mp hkeys]
      exact (sameResult_fillFields each).map _
  | some key =>
      cases hkept : undefinedField? type kept with
      | none => cases hkeys.symm.trans (undefined.mpr hkept)
      | some other => exact .of_error _ _

theorem get?_fieldsWith (name : String) (fields : List (String × Literal)) :
    Entries.get? name (fieldsWith schema default bindings fields) =
      (Entries.get? name fields).map fun literal =>
        if isAbsentVariable bindings literal then none
        else some (literalWith schema default bindings literal) := by
  induction fields with
  | nil => rfl
  | cons field rest ih =>
      obtain ⟨key, literal⟩ := field
      by_cases hkey : key = name
      · simp [fieldsWith, Entries.get?, hkey]
      · simp [fieldsWith, Entries.get?, hkey, ih]

/-! ## Literals -/

mutual

/-- Leaving out variables without a value does not change what a literal is coerced to: induction
on the literal. -/
theorem sameResult_literalWith (schema : Schema)
    (default : TypeRef → Literal → Except Reason Json) (bindings : Members) (literal : Literal)
    {literal' : Literal} {type : TypeRef} (h : schema.Omits bindings type literal literal')
    (distinct : literal.DistinctKeys) :
    SameResult (literalWith schema default bindings literal type)
      (literalWith schema default bindings literal' type) := by
  cases h with
  | same => exact .refl _
  | @list item nonNull items remaining each =>
      rw [literalWith, literalWith]
      exact (sameResult_itemsWith schema default bindings items each
        fun _ hmem => distinct.item hmem).map _
  | @object _ object fields remaining found each defined =>
      have hfields := sameResult_fields schema default bindings fields
        fun _ hmem => distinct.field hmem
      rw [literalWith, literalWith]
      refine sameResult_singleItem fun nonNull => ?_
      simp only [found]
      refine sameResult_fillObject
        (undefinedField?_omitted each.keys_sublist.subset defined) fun field hfield => ?_
      have hentry := each.entry (distinct _ (.here _)) hfield
      simp only [get?_fieldsWith]
      generalize hget : Entries.get? field.name fields = given? at hentry
      generalize Entries.get? field.name remaining = kept? at hentry
      cases hentry with
      | missing => exact .none
      | omitted absent => simp [absent]
      | @kept literal literal' omits =>
          have hmem : (field.name, literal) ∈ fields := Entries.mem_of_get? hget
          cases habsent : isAbsentVariable bindings literal with
          | true => simp [omits.isAbsentVariable_eq, habsent]
          | false =>
              simp only [omits.isAbsentVariable_eq, habsent, Option.map_some, Option.bind_some,
                Bool.false_eq_true, ite_false]
              exact .some (hfields _ hmem _ _ omits)

theorem sameResult_itemsWith (schema : Schema)
    (default : TypeRef → Literal → Except Reason Json) (bindings : Members) (items : List Literal)
    {remaining : List Literal} {item : TypeRef}
    (each : schema.OmitsInItems bindings item items remaining)
    (distinct : ∀ literal ∈ items, literal.DistinctKeys) :
    SameResult (itemsWith schema default bindings items item)
      (itemsWith schema default bindings remaining item) := by
  cases each with
  | nil => exact .refl _
  | @cons _ literal _ rest _ first others =>
      obtain ⟨hliteral, hrest⟩ := List.forall_mem_cons.mp distinct
      rw [itemsWith, itemsWith]
      exact (sameResult_literalWith schema default bindings literal first hliteral).bind
        fun value => (sameResult_itemsWith schema default bindings rest others hrest).bind
          fun values => .refl _

theorem sameResult_fields (schema : Schema) (default : TypeRef → Literal → Except Reason Json)
    (bindings : Members) (fields : List (String × Literal))
    (distinct : ∀ field ∈ fields, field.2.DistinctKeys) :
    ∀ field ∈ fields, ∀ literal' type, schema.Omits bindings type field.2 literal' →
      SameResult (literalWith schema default bindings field.2 type)
        (literalWith schema default bindings literal' type) := by
  cases fields with
  | nil => exact List.forall_mem_nil _
  | cons field rest =>
      obtain ⟨key, literal⟩ := field
      obtain ⟨hliteral, hrest⟩ := List.forall_mem_cons.mp distinct
      exact List.forall_mem_cons.mpr
        ⟨fun _ _ h => sameResult_literalWith schema default bindings literal h hliteral,
          sameResult_fields schema default bindings rest hrest⟩

end

/-! ## Arguments -/

variable {definition : InputValue}

theorem argument_absent {literal : Literal}
    (absent : isAbsentVariable bindings literal = true) :
    SameResult (argument schema bindings definition (some literal))
      (argument schema bindings definition none) := by
  cases literal with
  | var source =>
      have hunbound : Entries.get? source bindings = none := Option.isNone_iff_eq_none.mp absent
      -- The error names the variable, but there is an error without the variable as well.
      by_cases hrequired : definition.default?.isNone ∧ definition.type.nonNull
      · obtain ⟨hdefault, hnonNull⟩ := hrequired
        have hnone : definition.default? = none := Option.isNone_iff_eq_none.mp hdefault
        simp only [argument, providedArgument, hunbound, hnone, hnonNull, Option.isNone_none,
          and_self, ite_true]
        exact .of_error _ _
      · simp only [argument, providedArgument, hunbound, hrequired, ite_false]
        exact .refl _
  | _ => cases absent

theorem providedArgument_written {literal : Literal} (written : ∀ name, literal ≠ .var name) :
    SameResult (providedArgument schema bindings definition (some literal))
      ((schema.coerceLiteral bindings literal definition.type).map some) := by
  cases literal with
  | var name => exact (written name rfl).elim
  | _ =>
      simp only [providedArgument]
      split
      · rename_i hcoerced
        rw [hcoerced]
        exact .of_ok _
      · rename_i hcoerced
        rw [hcoerced]
        exact .of_error _ _

theorem argument_congr {literal? literal?' : Option Literal}
    (h : SameResult (providedArgument schema bindings definition literal?)
      (providedArgument schema bindings definition literal?')) :
    SameResult (argument schema bindings definition literal?)
      (argument schema bindings definition literal?') := by
  unfold argument
  obtain ⟨value?, hfirst, hsecond⟩ | ⟨error, error', hfirst, hsecond⟩ := h.eq_or_fails
  · rw [hfirst, hsecond]
    exact .refl _
  · rw [hfirst, hsecond]
    exact .of_error _ _

theorem sameResult_argument {literal? literal?' : Option Literal}
    (h : schema.OmitsEntry bindings definition literal? literal?')
    (distinct : ∀ literal ∈ literal?, literal.DistinctKeys) :
    SameResult (argument schema bindings definition literal?)
      (argument schema bindings definition literal?') := by
  cases h with
  | missing => exact .refl _
  | omitted absent => exact argument_absent absent
  | @kept literal literal' omits =>
      refine argument_congr ?_
      have hcoerced : SameResult (schema.coerceLiteral bindings literal definition.type)
          (schema.coerceLiteral bindings literal' definition.type) :=
        sameResult_literalWith schema _ bindings literal omits (distinct literal rfl)
      have hprovided := hcoerced.map some
      rcases omits.eq_or_written with rfl | ⟨hwritten, hwritten'⟩
      · exact .refl _
      · exact ((providedArgument_written hwritten).trans hprovided).trans
          (providedArgument_written hwritten').symm

end Coercion

/-! ## All variables without a value -/

mutual

/-- Leaves out every variable without a value that is a field of an input object. -/
def Schema.omitAbsent (schema : Schema) (bindings : Members) : Literal → TypeRef → Literal
  | .list items, .list item _ => .list (omitAbsentInItems schema bindings items item)
  | .object fields, type =>
    match schema.type? type.innerName with
    | some (.inputObject object) =>
      .object (omitAbsentFields schema bindings object.fields.entries fields)
    | _ => .object fields
  | literal, _ => literal

def Schema.omitAbsentInItems (schema : Schema) (bindings : Members) :
    List Literal → TypeRef → List Literal
  | [], _ => []
  | item :: rest, type =>
    omitAbsent schema bindings item type :: omitAbsentInItems schema bindings rest type

/-- Fields that are not defined are kept as they are. -/
def Schema.omitAbsentFields (schema : Schema) (bindings : Members) (definitions : List InputValue) :
    List (String × Literal) → List (String × Literal)
  | [] => []
  | (name, literal) :: rest =>
    match definitions.find? fun definition => definition.name = name with
    | none => (name, literal) :: omitAbsentFields schema bindings definitions rest
    | some definition =>
      if Coercion.isAbsentVariable bindings literal then
        omitAbsentFields schema bindings definitions rest
      else
        (name, omitAbsent schema bindings literal definition.type) ::
          omitAbsentFields schema bindings definitions rest

end

/-- Leaves out every variable without a value that is an argument or a field of an input object. -/
def Schema.omitAbsentArguments (schema : Schema) (bindings : Members)
    (definitions : List InputValue) (arguments : List (String × Literal)) :
    List (String × Literal) :=
  schema.omitAbsentFields bindings definitions
    (arguments.filter fun argument => !Coercion.isAbsentVariable bindings argument.2)

namespace Schema

theorem OmitsEntries.of_filter
    (h : schema.OmitsEntries bindings definitions
      (entries.filter fun entry => !Coercion.isAbsentVariable bindings entry.2) remaining) :
    schema.OmitsEntries bindings definitions entries remaining := by
  induction entries generalizing remaining with
  | nil => exact h
  | cons entry rest ih =>
      obtain ⟨name, literal⟩ := entry
      cases habsent : Coercion.isAbsentVariable bindings literal with
      | true =>
          rw [List.filter_cons_of_neg (by simp [habsent])] at h
          exact .omitted habsent (ih h)
      | false =>
          rw [List.filter_cons_of_pos (by simp [habsent])] at h
          cases h with
          | omitted absent others => exact .omitted absent (ih others)
          | kept first others => exact .kept first (ih others)

/-- Only fields that are defined are left out. -/
theorem find?_of_notMem_omitAbsentFields {name : String} (hmem : name ∈ Entries.keys entries)
    (h : name ∉ Entries.keys (schema.omitAbsentFields bindings definitions entries)) :
    (definitions.find? fun definition => definition.name = name).isSome = true := by
  induction entries with
  | nil => cases hmem
  | cons entry rest ih =>
      obtain ⟨key, literal⟩ := entry
      rw [omitAbsentFields] at h
      rcases List.mem_cons.mp hmem with rfl | hmem
      · split at h
        · exact (h List.mem_cons_self).elim
        · rename_i hfound
          exact Option.isSome_iff_exists.mpr ⟨_, hfound⟩
      · refine ih hmem fun hrest => h ?_
        split
        · exact List.mem_cons_of_mem _ hrest
        · split
          · exact hrest
          · exact List.mem_cons_of_mem _ hrest

mutual

theorem omits_omitAbsent (schema : Schema) (bindings : Members) (literal : Literal)
    (type : TypeRef) :
    schema.Omits bindings type literal (schema.omitAbsent bindings literal type) := by
  cases literal with
  | list items =>
      cases type with
      | named name nonNull => exact .same _ _
      | list item nonNull => exact .list (omitsInItems_omitAbsent schema bindings items item)
  | object fields =>
      rw [omitAbsent]
      split
      · rename_i object hfound
        exact .object hfound
          (omitsEntries_omitAbsent schema bindings object.fields.distinct fields)
          fun name hmem homitted => find?_of_notMem_omitAbsentFields hmem homitted
      · exact .same _ _
  | _ => exact .same _ _

theorem omitsInItems_omitAbsent (schema : Schema) (bindings : Members) (items : List Literal)
    (item : TypeRef) :
    schema.OmitsInItems bindings item items (schema.omitAbsentInItems bindings items item) := by
  cases items with
  | nil => exact .nil
  | cons literal rest =>
      exact .cons (omits_omitAbsent schema bindings literal item)
        (omitsInItems_omitAbsent schema bindings rest item)

theorem omitsEntries_omitAbsent (schema : Schema) (bindings : Members)
    {definitions : List InputValue} (distinct : (definitions.map InputValue.name).Nodup)
    (fields : List (String × Literal)) :
    schema.OmitsEntries bindings definitions fields
      (schema.omitAbsentFields bindings definitions fields) := by
  cases fields with
  | nil => exact .nil
  | cons field rest =>
      obtain ⟨name, literal⟩ := field
      have hrest := omitsEntries_omitAbsent schema bindings distinct rest
      rw [omitAbsentFields]
      split
      · exact .kept (fun _ _ _ => .same _ _) hrest
      · rename_i declared hfound
        split
        · rename_i habsent
          exact .omitted habsent hrest
        · refine .kept (fun definition hmem hname => ?_) hrest
          -- Names are distinct, so the definition that was found is the only one of its name.
          have hdeclared : declared.name = name := by simpa using List.find?_some hfound
          obtain rfl : definition = declared :=
            List.inj_on_of_nodup_map distinct hmem (List.mem_of_find?_eq_some hfound)
              (hname.trans hdeclared.symm)
          exact omits_omitAbsent schema bindings literal definition.type

end

/-- A variable without a value is the same as no entry: leaving out any such variables among
arguments and defined fields of input objects, or all of them, changes neither the values of the
arguments nor whether they have values. -/
theorem coerceArguments_omits (schema : Schema) (definitions : List InputValue)
    (arguments : List (String × Literal)) (distinct : (Entries.keys arguments).Nodup)
    (objects : ∀ argument ∈ arguments, argument.2.DistinctKeys) (bindings : Members) :
    (∀ remaining, schema.OmitsEntries bindings definitions arguments remaining →
      SameResult (schema.coerceArguments definitions arguments bindings)
        (schema.coerceArguments definitions remaining bindings)) ∧
    ((definitions.map InputValue.name).Nodup →
      SameResult (schema.coerceArguments definitions arguments bindings)
        (schema.coerceArguments definitions
          (schema.omitAbsentArguments bindings definitions arguments) bindings)) := by
  have homits : ∀ remaining, schema.OmitsEntries bindings definitions arguments remaining →
      SameResult (schema.coerceArguments definitions arguments bindings)
        (schema.coerceArguments definitions remaining bindings) := by
    intro remaining h
    refine SameResult.foldlM (fun definition hmem before => SameResult.map ?_ _) []
    refine Coercion.sameResult_argument (h.entry distinct hmem) fun literal hliteral => ?_
    exact objects _ (Entries.mem_of_get? hliteral)
  exact ⟨homits, fun hdistinct =>
    homits _ (.of_filter (omitsEntries_omitAbsent schema bindings hdistinct _))⟩

end Schema

namespace Sample

/-- The arguments `(filter: {ids: [$id, "8"]})`. -/
def remainingArguments : List (String × Literal) :=
  [("filter", .object [("ids", .list [.var "id", .string "8"])])]

theorem distinctKeys_given : ∀ argument ∈ givenArguments, argument.2.DistinctKeys := by
  intro argument hmem fields hwithin
  simp only [givenArguments, List.mem_cons, List.not_mem_nil, or_false] at hmem
  obtain rfl | rfl := hmem
  · cases hwithin
  · cases hwithin with
    | here => decide
    | field hmem below =>
        simp only [List.mem_cons, Prod.mk.injEq, List.not_mem_nil, or_false] at hmem
        obtain ⟨-, rfl⟩ | ⟨-, rfl⟩ := hmem
        · cases below
        · cases below with
          | item hmem below =>
              simp only [List.mem_cons, List.not_mem_nil, or_false] at hmem
              obtain rfl | rfl := hmem <;> cases below

theorem given_omits :
    inputs.omitAbsentArguments givenBindings argumentDefinitions givenArguments =
      remainingArguments ∧
    inputs.coerceArguments argumentDefinitions remainingArguments givenBindings =
      .ok coercedArguments := by
  have hremaining :
      inputs.omitAbsentArguments givenBindings argumentDefinitions givenArguments =
        remainingArguments := rfl
  have hsame := (inputs.coerceArguments_omits argumentDefinitions givenArguments (by decide)
    distinctKeys_given givenBindings).2 (by decide)
  rw [hremaining] at hsame
  exact ⟨hremaining, (hsame coercedArguments).mp coerced_given⟩

end Sample

end GraphQL
