import GraphQL.Proofs.Coercion.Shape

/-! # Values under their names

The values of variables and of arguments are put together one definition after the other, each under
the name of its definition. If the names are distinct, the entries stand in the order of the
definitions; in any case each of them comes from a definition of its name. -/

namespace GraphQL.Coercion

variable {ε δ : Type}

/-- One step adds the value of a definition under its name, if the definition has a value. -/
def Adds (name : δ → String) (gives : δ → Option Json → Prop)
    (step : Members → δ → Except ε Members) : Prop :=
  ∀ coerced definition next, step coerced definition = .ok next →
    (∃ value, gives definition (some value) ∧
      next = Entries.insert (name definition) value coerced) ∨
    (gives definition none ∧ next = coerced)

/-- The entries of definitions of distinct names, in their order. -/
inductive Assembled (name : δ → String) (gives : δ → Option Json → Prop) :
    List δ → Members → Prop
  | nil : Assembled name gives [] []
  | value {definition rest value members} (given : gives definition (some value))
      (tail : Assembled name gives rest members) :
      Assembled name gives (definition :: rest) ((name definition, value) :: members)
  | absent {definition rest members} (given : gives definition none)
      (tail : Assembled name gives rest members) :
      Assembled name gives (definition :: rest) members

namespace Adds

variable {name : δ → String} {gives : δ → Option Json → Prop}
  {step : Members → δ → Except ε Members} {definitions : List δ} {coerced result : Members}

/-- The run adds its entries after those that are there: induction on the definitions. -/
theorem assembled (adds : Adds name gives step) (distinct : (definitions.map name).Nodup)
    (new : ∀ definition ∈ definitions, name definition ∉ Entries.keys coerced)
    (h : definitions.foldlM step coerced = .ok result) :
    ∃ members, result = coerced ++ members ∧ Assembled name gives definitions members := by
  induction definitions generalizing coerced with
  | nil =>
      cases h
      exact ⟨[], by simp, .nil⟩
  | cons definition rest ih =>
      obtain ⟨hnew, hnews⟩ := List.forall_mem_cons.mp new
      obtain ⟨hfirst, hdistinct⟩ := List.nodup_cons.mp distinct
      rw [List.foldlM_cons, bind_eq_ok_iff] at h
      obtain ⟨next, hnext, h⟩ := h
      rcases adds _ _ _ hnext with ⟨value, hgiven, rfl⟩ | ⟨hgiven, rfl⟩
      · rw [Entries.insert_of_notMem hnew] at h
        have hrest : ∀ other ∈ rest,
            name other ∉ Entries.keys (coerced ++ [(name definition, value)]) := by
          intro other hother hmem
          rw [Entries.keys, List.map_append] at hmem
          rcases List.mem_append.mp hmem with hmem | hmem
          · exact hnews other hother hmem
          · have heq : name other = name definition := List.mem_singleton.mp hmem
            exact hfirst (heq ▸ List.mem_map_of_mem hother)
        obtain ⟨members, rfl, hmembers⟩ := ih hdistinct hrest h
        exact ⟨_, by simp, .value hgiven hmembers⟩
      · obtain ⟨members, rfl, hmembers⟩ := ih hdistinct hnews h
        exact ⟨members, rfl, .absent hgiven hmembers⟩

/-- Every entry is of a definition of its name, if it was not there before. -/
theorem origin (adds : Adds name gives step) (h : definitions.foldlM step coerced = .ok result) :
    ∀ entry ∈ result, entry ∈ coerced ∨
      ∃ definition ∈ definitions, name definition = entry.1 ∧ gives definition (some entry.2) := by
  induction definitions generalizing coerced with
  | nil =>
      cases h
      exact fun entry => .inl
  | cons definition rest ih =>
      rw [List.foldlM_cons, bind_eq_ok_iff] at h
      obtain ⟨next, hnext, h⟩ := h
      intro entry hmem
      rcases ih h entry hmem with hmem | ⟨other, hother, horigin⟩
      · rcases adds _ _ _ hnext with ⟨value, hgiven, rfl⟩ | ⟨-, rfl⟩
        · rcases Entries.mem_of_mem_insert hmem with rfl | hmem
          · exact .inr ⟨definition, List.mem_cons_self, rfl, hgiven⟩
          · exact .inl hmem
        · exact .inl hmem
      · exact .inr ⟨other, List.mem_cons_of_mem _ hother, horigin⟩

end Adds

end GraphQL.Coercion
