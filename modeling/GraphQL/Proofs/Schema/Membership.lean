import GraphQL.Proofs.Schema.PossibleTypes
import GraphQL.Selection.Inclusion

/-! # Membership in abstract types

An object type belongs to the interfaces that it declares and to the unions that name it. The list
of possible types, the test of a single type and the type condition of a fragment look for this in
different places. They agree about the object types of a schema, also where a union names types that
are not defined or have no objects. -/

namespace GraphQL

namespace Schema

/-- The name stands for an interface or a union. -/
def IsAbstract (schema : Schema) (name : String) : Prop :=
  ∃ definition, schema.type? name = some definition ∧ definition.isAbstract = true

/-- What makes an object type one of the types of an abstract type. -/
inductive Belongs (schema : Schema) (type : ObjectType) (abstract : String) : Prop
  | implements {interface} (found : schema.type? abstract = some (.interface interface))
      (declared : abstract ∈ type.interfaces.entries)
  | member {union} (found : schema.type? abstract = some (.union union))
      (named : type.name ∈ union.members.entries)

variable {schema : Schema} {abstract : String} {type : ObjectType}

theorem Belongs.isAbstract (h : schema.Belongs type abstract) : schema.IsAbstract abstract := by
  cases h with
  | implements found | member found => exact ⟨_, found, rfl⟩

/-- The test looks an object type up by its name, so it tells membership of defined types only. -/
theorem isPossibleType_iff_belongs (defined : schema.object? type.name = some type) :
    schema.isPossibleType abstract type.name = true ↔ schema.Belongs type abstract := by
  constructor
  · intro h
    cases hfound : schema.type? abstract with
    | none => simp [isPossibleType, hfound] at h
    | some definition =>
        cases definition with
        | interface interface =>
            simp only [isPossibleType, hfound, defined, Option.any_some] at h
            exact .implements hfound (Catalog.mem_of_contains h)
        | union union =>
            simp only [isPossibleType, hfound] at h
            exact .member hfound (Catalog.mem_of_contains h)
        | _ => simp [isPossibleType, hfound] at h
  · rintro (⟨found, declared⟩ | ⟨found, named⟩)
    · simpa [isPossibleType, found, defined] using Catalog.contains_of_mem declared
    · simpa [isPossibleType, found] using Catalog.contains_of_mem named

theorem mem_possibleTypes_iff_belongs (defined : schema.object? type.name = some type) :
    type ∈ schema.possibleTypes abstract ↔ schema.Belongs type abstract := by
  rw [mem_possibleTypes_iff, isPossibleType_iff_belongs defined, and_iff_right defined]

/-- On an abstract type, the condition of a fragment is the test. -/
theorem conditionApplies_of_isAbstract (h : schema.IsAbstract abstract) :
    schema.conditionApplies type abstract = schema.isPossibleType abstract type.name := by
  obtain ⟨definition, found, habstract⟩ := h
  cases definition with
  | interface | union => rw [conditionApplies, found]
  | _ => cases habstract

theorem conditionApplies_iff_belongs (defined : schema.object? type.name = some type) :
    schema.IsAbstract abstract ∧ schema.conditionApplies type abstract = true ↔
      schema.Belongs type abstract := by
  constructor
  · rintro ⟨habstract, happlies⟩
    rw [conditionApplies_of_isAbstract habstract] at happlies
    exact (isPossibleType_iff_belongs defined).mp happlies
  · intro h
    rw [conditionApplies_of_isAbstract h.isAbstract]
    exact ⟨h.isAbstract, (isPossibleType_iff_belongs defined).mpr h⟩

/-! ## The list of possible types -/

theorem possibleTypes_of_not_isAbstract (h : ¬schema.IsAbstract abstract) :
    schema.possibleTypes abstract = [] := by
  refine List.eq_nil_iff_forall_not_mem.mpr fun type hmem => h ?_
  obtain ⟨defined, hpossible⟩ := schema.mem_possibleTypes_iff.mp hmem
  exact ((isPossibleType_iff_belongs defined).mp hpossible).isAbstract

theorem sublist_possibleTypes_of_interface {interface : InterfaceType}
    (found : schema.type? abstract = some (.interface interface)) :
    ((schema.possibleTypes abstract).map TypeDefinition.object).Sublist schema.types.entries := by
  rw [possibleTypes, found]
  exact (List.filter_sublist.map TypeDefinition.object).trans schema.sublist_objects

theorem sublist_possibleTypes_of_union {union : UnionType}
    (found : schema.type? abstract = some (.union union)) :
    ((schema.possibleTypes abstract).map ObjectType.name).Sublist union.members.entries := by
  rw [possibleTypes, found]
  exact schema.map_name_filterMap_object? union.members.entries

/-- The three ways to look for membership agree about every object type of a schema. The possible
types of any name are object types of the schema, no two of one name; those of an interface stand in
the order of the schema and those of a union in the order of its members, and what is neither has
none. -/
theorem possibleTypes_agree (schema : Schema) (abstract : String) :
    (∀ type, schema.object? type.name = some type →
      (type ∈ schema.possibleTypes abstract ↔
        schema.isPossibleType abstract type.name = true) ∧
      (schema.isPossibleType abstract type.name = true ↔
        schema.IsAbstract abstract ∧ schema.conditionApplies type abstract = true) ∧
      (schema.IsAbstract abstract ∧ schema.conditionApplies type abstract = true ↔
        schema.Belongs type abstract)) ∧
    (∀ type ∈ schema.possibleTypes abstract, schema.object? type.name = some type) ∧
    ((schema.possibleTypes abstract).map ObjectType.name).Nodup ∧
    (¬schema.IsAbstract abstract → schema.possibleTypes abstract = []) ∧
    (∀ interface, schema.type? abstract = some (.interface interface) →
      ((schema.possibleTypes abstract).map TypeDefinition.object).Sublist schema.types.entries) ∧
    ∀ union, schema.type? abstract = some (.union union) →
      ((schema.possibleTypes abstract).map ObjectType.name).Sublist union.members.entries := by
  refine ⟨fun type defined => ⟨?_, ?_, conditionApplies_iff_belongs defined⟩, ?_,
    schema.nodup_name_possibleTypes abstract, possibleTypes_of_not_isAbstract,
    fun _ => sublist_possibleTypes_of_interface, fun _ => sublist_possibleTypes_of_union⟩
  · rw [mem_possibleTypes_iff_belongs defined, isPossibleType_iff_belongs defined]
  · rw [isPossibleType_iff_belongs defined, conditionApplies_iff_belongs defined]
  · intro type hmem
    exact (schema.mem_possibleTypes_iff.mp hmem).1

end Schema

namespace Sample

def person : ObjectType :=
  { name := "Person", interfaces := ⟨["Node"], by decide⟩, fields := .empty }

def ship : ObjectType := { name := "Ship", interfaces := ⟨["Node"], by decide⟩, fields := .empty }

/-- Of the members of the union one is not defined and one has no objects of its own. -/
def entry : UnionType :=
  { name := "Entry", members := ⟨["Ship", "Nothing", "Node", "Person"], by decide⟩ }

def archive : Schema :=
  { query? := none
    types :=
      ⟨[.interface { name := "Node", fields := .empty }, .object person, .object ship,
        .union entry], by decide⟩ }

theorem isAbstract_entry : archive.IsAbstract "Entry" := ⟨.union entry, rfl, rfl⟩

theorem not_isAbstract_ship : ¬archive.IsAbstract "Ship" := by
  rintro ⟨definition, hfound, habstract⟩
  obtain rfl : TypeDefinition.object ship = definition := Option.some.inj hfound
  cases habstract

/-- The interface lists its types as they are defined, and the union as it names them. -/
theorem archive_agree :
    (ship ∈ archive.possibleTypes "Entry" ↔ archive.isPossibleType "Entry" "Ship" = true) ∧
    (archive.isPossibleType "Entry" "Ship" = true ↔
      archive.IsAbstract "Entry" ∧ archive.conditionApplies ship "Entry" = true) ∧
    archive.Belongs ship "Entry" ∧ archive.object? "Ship" = some ship ∧
    ((archive.possibleTypes "Entry").map ObjectType.name).Sublist entry.members.entries ∧
    (archive.possibleTypes "Entry").map ObjectType.name = ["Ship", "Person"] ∧
    ((archive.possibleTypes "Node").map TypeDefinition.object).Sublist archive.types.entries ∧
    (archive.possibleTypes "Node").map ObjectType.name = ["Person", "Ship"] ∧
    archive.possibleTypes "Ship" = [] := by
  obtain ⟨hagree, hdefined, -, -, -, hunion⟩ := archive.possibleTypes_agree "Entry"
  obtain ⟨-, -, -, -, hinterface, -⟩ := archive.possibleTypes_agree "Node"
  obtain ⟨-, -, -, hnone, -, -⟩ := archive.possibleTypes_agree "Ship"
  obtain ⟨hlisted, htested, hbelongs⟩ := hagree ship rfl
  have hmember : ship ∈ archive.possibleTypes "Entry" := List.mem_cons_self
  exact ⟨hlisted, htested, hbelongs.mp ⟨isAbstract_entry, rfl⟩, hdefined ship hmember,
    hunion entry rfl, rfl, hinterface { name := "Node", fields := .empty } rfl, rfl,
    hnone not_isAbstract_ship⟩

end Sample

end GraphQL
