import GraphQL.Proofs.Schema.Catalogs
import GraphQL.Schema.Basic

/-! # Possible types

The object types that are listed for an abstract type are those that pass the membership test: both
go by the interfaces that an object type declares, or by the members of a union. No two of them
share a name. -/

namespace GraphQL

namespace Schema

variable (schema : Schema)

theorem object?_eq_some_iff {name : String} {type : ObjectType} :
    schema.object? name = some type ↔ schema.type? name = some (.object type) := by
  rw [object?, Option.bind_eq_some_iff]
  constructor
  · rintro ⟨definition, hfound, hobject⟩
    cases definition with
    | object found =>
        obtain rfl := Option.some.inj hobject
        exact hfound
    | _ => cases hobject
  · intro h
    exact ⟨_, h, rfl⟩

/-- A type is found under no name but its own. -/
theorem name_of_object? {name : String} {type : ObjectType}
    (h : schema.object? name = some type) : type.name = name :=
  Catalog.name_of_find? ((schema.object?_eq_some_iff).mp h)

theorem mem_objects_iff {type : ObjectType} :
    type ∈ schema.types.entries.filterMap TypeDefinition.object? ↔
      schema.object? type.name = some type := by
  rw [object?_eq_some_iff, List.mem_filterMap]
  constructor
  · rintro ⟨definition, hmem, hobject⟩
    cases definition with
    | object found =>
        obtain rfl := Option.some.inj hobject
        exact Catalog.find?_of_mem hmem
    | _ => cases hobject
  · intro h
    exact ⟨.object type, Catalog.mem_of_find? h, rfl⟩

/-- The object types stand in the order of the schema. -/
theorem sublist_objects :
    ((schema.types.entries.filterMap TypeDefinition.object?).map TypeDefinition.object).Sublist
      schema.types.entries := by
  induction schema.types.entries with
  | nil => exact .slnil
  | cons definition rest ih =>
      cases definition with
      | object type => exact ih.cons_cons _
      | _ => exact ih.cons _

theorem nodup_name_objects :
    ((schema.types.entries.filterMap TypeDefinition.object?).map ObjectType.name).Nodup := by
  have hdistinct := (schema.sublist_objects.map Named.name).nodup schema.types.distinct
  rwa [List.map_map] at hdistinct

theorem map_name_filterMap_object? (names : List String) :
    ((names.filterMap schema.object?).map ObjectType.name).Sublist names := by
  induction names with
  | nil => exact .slnil
  | cons name rest ih =>
      cases hobject : schema.object? name with
      | none =>
          rw [List.filterMap_cons_none hobject]
          exact ih.cons _
      | some type =>
          rw [List.filterMap_cons_some hobject, List.map_cons, schema.name_of_object? hobject]
          exact ih.cons_cons _

/-- The types that are listed are the object types of the schema that pass the test. -/
theorem mem_possibleTypes_iff {abstract : String} {type : ObjectType} :
    type ∈ schema.possibleTypes abstract ↔
      schema.object? type.name = some type ∧ schema.isPossibleType abstract type.name = true := by
  rw [possibleTypes, isPossibleType]
  cases schema.type? abstract with
  | none => simp
  | some definition =>
      cases definition with
      | interface interface =>
          rw [implementers, List.mem_filter, mem_objects_iff]
          refine and_congr_right fun hobject => ?_
          rw [hobject, Option.any_some]
      | union union =>
          rw [List.mem_filterMap]
          constructor
          · rintro ⟨name, hmem, hobject⟩
            have hname : type.name = name := schema.name_of_object? hobject
            rw [hname]
            exact ⟨hobject, Catalog.contains_of_mem hmem⟩
          · rintro ⟨hobject, hcontains⟩
            exact ⟨type.name, Catalog.mem_of_contains hcontains, hobject⟩
      | _ => simp

theorem nodup_name_possibleTypes (abstract : String) :
    ((schema.possibleTypes abstract).map ObjectType.name).Nodup := by
  rw [possibleTypes]
  cases schema.type? abstract with
  | none => exact List.nodup_nil
  | some definition =>
      cases definition with
      | interface interface =>
          exact (List.filter_sublist.map ObjectType.name).nodup schema.nodup_name_objects
      | union union =>
          have hdistinct : union.members.entries.Nodup := by
            have hnames := union.members.distinct
            rwa [show (Named.name : String → String) = id from rfl, List.map_id] at hnames
          exact (schema.map_name_filterMap_object? union.members.entries).nodup hdistinct
      | _ => exact List.nodup_nil

end Schema

end GraphQL
