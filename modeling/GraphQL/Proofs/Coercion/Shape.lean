import GraphQL.Coercion.Shape

/-! # Coercion that succeeds

A coercion in several steps succeeds if all of them do. The fields of an input object are filled one
by one: each with what is provided for it, or else with its default, or else not at all. -/

namespace GraphQL

section

variable {ε ε' α β : Type}

theorem bind_eq_ok_iff {first : Except ε α} {next : α → Except ε β} {result : β} :
    (first >>= next) = .ok result ↔ ∃ value, first = .ok value ∧ next value = .ok result := by
  cases first with
  | error error => exact ⟨nofun, nofun⟩
  | ok value => exact ⟨fun h => ⟨value, rfl, h⟩, by rintro ⟨_, ⟨⟩, h⟩; exact h⟩

theorem map_eq_ok_iff {f : α → β} {first : Except ε α} {result : β} :
    first.map f = .ok result ↔ ∃ value, first = .ok value ∧ f value = result := by
  cases first with
  | error error => exact ⟨nofun, nofun⟩
  | ok value => exact ⟨fun h => ⟨value, rfl, Except.ok.inj h⟩, by rintro ⟨_, ⟨⟩, rfl⟩; rfl⟩

theorem mapError_eq_ok_iff {f : ε → ε'} {first : Except ε α} {value : α} :
    first.mapError f = .ok value ↔ first = .ok value := by
  cases first with
  | error error => exact ⟨nofun, nofun⟩
  | ok found => exact ⟨fun h => congrArg _ (Except.ok.inj h), fun h => congrArg _ (Except.ok.inj h)⟩

end

namespace Coercion

variable {default : TypeRef → Literal → Except Reason Json}
  {provided? : InputValue → Option (Except Reason Json)}

/-- How the members of an input object come from its fields, in the order of their definitions. -/
inductive Fills (default : TypeRef → Literal → Except Reason Json)
    (provided? : InputValue → Option (Except Reason Json)) : List InputValue → Members → Prop
  | nil : Fills default provided? [] []
  | provided {field rest value members} (given : provided? field = some (.ok value))
      (tail : Fills default provided? rest members) :
      Fills default provided? (field :: rest) ((field.name, value) :: members)
  | default {field rest literal value members} (missing : provided? field = none)
      (declared : field.default? = some literal) (given : default field.type literal = .ok value)
      (tail : Fills default provided? rest members) :
      Fills default provided? (field :: rest) ((field.name, value) :: members)
  | absent {field rest members} (missing : provided? field = none)
      (undeclared : field.default? = none) (nullable : field.type.nonNull = false)
      (tail : Fills default provided? rest members) :
      Fills default provided? (field :: rest) members

theorem fillFields_eq_ok_iff {owner : String} {fields : List InputValue} {members : Members} :
    fillFields owner default provided? fields = .ok members ↔
      Fills default provided? fields members := by
  constructor
  · intro h
    induction fields generalizing members with
    | nil =>
        cases h
        exact .nil
    | cons field rest ih =>
        rw [fillFields] at h
        cases hprovided : provided? field with
        | some coerced =>
            simp only [hprovided, bind_eq_ok_iff, Except.ok.injEq] at h
            obtain ⟨value, rfl, others, hothers, rfl⟩ := h
            exact .provided hprovided (ih hothers)
        | none =>
            cases hdefault : field.default? with
            | some literal =>
                simp only [hprovided, hdefault, bind_eq_ok_iff, Except.ok.injEq] at h
                obtain ⟨value, hvalue, others, hothers, rfl⟩ := h
                exact .default hprovided hdefault hvalue (ih hothers)
            | none =>
                cases hnull : field.type.nonNull with
                | true => simp [hprovided, hdefault, hnull] at h
                | false =>
                    simp only [hprovided, hdefault, hnull, Bool.false_eq_true, ite_false] at h
                    exact .absent hprovided hdefault hnull (ih h)
  · intro h
    induction h with
    | nil => rfl
    | provided given _ ih =>
        simp only [fillFields, given]
        exact bind_eq_ok_iff.mpr ⟨_, rfl, bind_eq_ok_iff.mpr ⟨_, ih, rfl⟩⟩
    | default missing declared given _ ih =>
        simp only [fillFields, missing, declared]
        exact bind_eq_ok_iff.mpr ⟨_, given, bind_eq_ok_iff.mpr ⟨_, ih, rfl⟩⟩
    | absent missing undeclared nullable _ ih =>
        simpa [fillFields, missing, undeclared, nullable] using ih

namespace Fills

variable {fields : List InputValue} {members : Members}

theorem keys_sublist (h : Fills default provided? fields members) :
    (Entries.keys members).Sublist (fields.map InputValue.name) := by
  induction h with
  | nil => exact .slnil
  | provided _ _ ih | default _ _ _ _ ih => exact ih.cons_cons _
  | absent _ _ _ _ ih => exact ih.cons _

/-- Fields that are required or have a default are always present. -/
theorem mem_keys (h : Fills default provided? fields members) {field : InputValue}
    (hmem : field ∈ fields) (hfield : field.type.nonNull = true ∨ field.default?.isSome) :
    field.name ∈ Entries.keys members := by
  induction h with
  | nil => cases hmem
  | provided _ _ ih | default _ _ _ _ ih =>
      rcases List.mem_cons.mp hmem with rfl | hmem
      · exact List.mem_cons_self
      · exact List.mem_cons_of_mem _ (ih hmem)
  | absent _ undeclared nullable _ ih =>
      rcases List.mem_cons.mp hmem with rfl | hmem
      · simp [undeclared, nullable] at hfield
      · exact ih hmem

/-- Everything that is provided has a value. -/
theorem exists_ok_of_provided (h : Fills default provided? fields members) {field : InputValue}
    (hmem : field ∈ fields) {coerced : Except Reason Json}
    (given : provided? field = some coerced) : ∃ value, coerced = .ok value := by
  induction h with
  | nil => cases hmem
  | provided first _ ih =>
      rcases List.mem_cons.mp hmem with rfl | hmem
      · exact ⟨_, Option.some.inj (given.symm.trans first)⟩
      · exact ih hmem
  | default missing _ _ _ ih | absent missing _ _ _ ih =>
      rcases List.mem_cons.mp hmem with rfl | hmem
      · cases missing.symm.trans given
      · exact ih hmem

/-- Every default that is needed has a value. -/
theorem exists_ok_of_missing (h : Fills default provided? fields members) {field : InputValue}
    (hmem : field ∈ fields) (missing : provided? field = none) {literal : Literal}
    (declared : field.default? = some literal) :
    ∃ value, default field.type literal = .ok value := by
  induction h with
  | nil => cases hmem
  | provided given _ ih =>
      rcases List.mem_cons.mp hmem with rfl | hmem
      · cases missing.symm.trans given
      · exact ih hmem
  | default _ declared' given _ ih =>
      rcases List.mem_cons.mp hmem with rfl | hmem
      · cases declared.symm.trans declared'
        exact ⟨_, given⟩
      · exact ih hmem
  | absent _ undeclared _ _ ih =>
      rcases List.mem_cons.mp hmem with rfl | hmem
      · cases declared.symm.trans undeclared
      · exact ih hmem

/-- Every member is provided for its field, or comes from the default of it. -/
theorem origin (h : Fills default provided? fields members) {name : String} {value : Json}
    (hmem : (name, value) ∈ members) :
    ∃ field ∈ fields, field.name = name ∧ (provided? field = some (.ok value) ∨
      ∃ literal, field.default? = some literal ∧ default field.type literal = .ok value) := by
  induction h with
  | nil => cases hmem
  | @provided field _ _ _ given _ ih =>
      rcases List.mem_cons.mp hmem with heq | hmem
      · cases heq
        exact ⟨field, List.mem_cons_self, rfl, .inl given⟩
      · obtain ⟨field, hfield, horigin⟩ := ih hmem
        exact ⟨field, List.mem_cons_of_mem _ hfield, horigin⟩
  | @default field _ literal _ _ _ declared given _ ih =>
      rcases List.mem_cons.mp hmem with heq | hmem
      · cases heq
        exact ⟨field, List.mem_cons_self, rfl, .inr ⟨literal, declared, given⟩⟩
      · obtain ⟨field, hfield, horigin⟩ := ih hmem
        exact ⟨field, List.mem_cons_of_mem _ hfield, horigin⟩
  | absent _ _ _ _ ih =>
      obtain ⟨field, hfield, horigin⟩ := ih hmem
      exact ⟨field, List.mem_cons_of_mem _ hfield, horigin⟩

end Fills

end Coercion

end GraphQL
