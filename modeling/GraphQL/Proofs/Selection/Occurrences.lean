import GraphQL.Execution.Selections
import GraphQL.Proofs.Selection.Walk

/-! # Groups of occurrences

Collecting groups the fields that a walk through the selections finds, and the grouping is stable:
the response keys stand in the order in which they occur first, and each group has the occurrences
of its key in their order. No occurrence is lost and none is counted twice. -/

namespace GraphQL

namespace FieldGroup

/-- A field is put at the end of its group. -/
theorem flatMap_nodes_add (node : FieldNode) (groups : List FieldGroup) :
    ((add node groups).flatMap nodes).Perm (groups.flatMap nodes ++ [node]) := by
  induction groups with
  | nil => exact .refl _
  | cons group rest ih =>
      rw [add]
      split
      · have hnodes : (FieldGroup.mk group.key group.first (group.rest ++ [node])).nodes =
            group.nodes ++ [node] := rfl
        rw [List.flatMap_cons, List.flatMap_cons, hnodes, List.append_assoc, List.append_assoc]
        exact List.perm_append_comm.append_left group.nodes
      · rw [List.flatMap_cons, List.flatMap_cons, List.append_assoc]
        exact ih.append_left group.nodes

theorem flatMap_nodes_addAll (nodes : List FieldNode) :
    ((addAll [] nodes).flatMap FieldGroup.nodes).Perm nodes := by
  induction nodes using List.reverseRecOn with
  | nil => exact .refl _
  | append_singleton nodes node ih =>
      rw [addAll_append]
      exact (flatMap_nodes_add node _).trans (ih.append_right [node])

theorem eraseDups_concat (keys : List String) (key : String) :
    (keys ++ [key]).eraseDups =
      if key ∈ keys then keys.eraseDups else keys.eraseDups ++ [key] := by
  have hremove : [key].removeAll keys = if key ∈ keys then [] else [key] := by
    by_cases h : key ∈ keys <;> simp [List.removeAll, h]
  rw [List.eraseDups_append, hremove]
  split
  · exact List.append_nil _
  · rfl

/-- A key has its place where it occurs first. -/
theorem map_key_addAll (nodes : List FieldNode) :
    (addAll [] nodes).map key = (nodes.map fun node => node.key).eraseDups := by
  induction nodes using List.reverseRecOn with
  | nil => rfl
  | append_singleton nodes node ih =>
      rw [addAll_append, addAll_cons, addAll_nil, map_key_add, ih, List.map_append,
        List.map_singleton, eraseDups_concat]
      simp only [List.mem_eraseDups]

/-- The groups put together the occurrences of each key: keys in the order of their first
occurrences, and under each key its occurrences in their order, of which there is a first one. -/
structure Stable (occurrences : List FieldNode) (groups : List FieldGroup) : Prop where
  keys : groups.map key = (occurrences.map fun node => node.key).eraseDups
  first : ∀ group ∈ groups,
    occurrences.find? (fun node => node.key = group.key) = some group.first
  nodes : ∀ group ∈ groups, group.nodes = occurrences.filter fun node => node.key = group.key
  complete : (groups.flatMap FieldGroup.nodes).Perm occurrences

theorem stable_addAll (occurrences : List FieldNode) :
    Stable occurrences (addAll [] occurrences) where
  keys := map_key_addAll occurrences
  first group hmem := by
    rw [← List.head?_filter, ← nodes_of_mem_addAll hmem]
    rfl
  nodes _ := nodes_of_mem_addAll
  complete := flatMap_nodes_addAll occurrences

end FieldGroup

/-! ## Selections that are left out -/

namespace Schema

/-- The `if` of a directive is coerced to a Boolean. There is none if the schema does not define the
directive or its arguments cannot be coerced. -/
def ConditionIs (schema : Schema) (bindings : Members) (directive : Directive) (value : Bool) :
    Prop :=
  ∃ definition arguments, schema.directives.find? directive.name = some definition ∧
    schema.coerceArguments definition.arguments directive.arguments bindings = .ok arguments ∧
    Entries.get? "if" arguments = some (.bool value)

/-- Directives leave a selection out: the first `@skip` if its condition is true, and the first
`@include` unless its condition is true. -/
inductive LeavesOut (schema : Schema) (bindings : Members) (directives : List Directive) : Prop
  | skip {directive} (first : directives.find? (·.name = "skip") = some directive)
      (met : schema.ConditionIs bindings directive true)
  | include {directive} (first : directives.find? (·.name = "include") = some directive)
      (unmet : ¬schema.ConditionIs bindings directive true)

variable {schema : Schema} {bindings : Members}

theorem condition?_eq_some_iff {directive : Directive} {value : Bool} :
    schema.condition? bindings directive = some value ↔
      schema.ConditionIs bindings directive value := by
  rw [condition?, ConditionIs, Option.bind_eq_some_iff]
  apply exists_congr
  intro definition
  rw [exists_and_left]
  apply and_congr_right
  intro _
  cases schema.coerceArguments definition.arguments directive.arguments bindings with
  | error error => simp
  | ok arguments =>
      cases hget : Entries.get? "if" arguments with
      | none => simp [hget]
      | some condition => cases condition <;> simp [hget, Json.bool?]

theorem includes_eq_false_iff {directives : List Directive} :
    schema.includes bindings directives = false ↔ schema.LeavesOut bindings directives := by
  constructor
  · intro h
    rw [includes, Bool.and_eq_false_iff] at h
    rcases h with h | h
    · obtain ⟨directive, hfirst, hmet⟩ : ∃ directive, directives.find? (·.name = "skip") =
          some directive ∧ schema.condition? bindings directive = some true := by
        simpa [firstCondition?] using h
      exact .skip hfirst (condition?_eq_some_iff.mp hmet)
    · cases hfirst : directives.find? (·.name = "include") with
      | none => simp [firstCondition?, hfirst] at h
      | some directive =>
          refine .include hfirst fun hmet => ?_
          simp [firstCondition?, hfirst, condition?_eq_some_iff.mpr hmet] at h
  · rintro (⟨first, met⟩ | ⟨first, unmet⟩)
    · simp [includes, firstCondition?, first, condition?_eq_some_iff.mpr met]
    · rw [← condition?_eq_some_iff] at unmet
      simp [includes, firstCondition?, first, unmet]

end Schema

/-- Collecting is stable grouping of the fields on the walk through the selections. -/
theorem Environment.collectFields_stable {State Object Item : Type}
    (env : Environment State Object Item) (type : ObjectType) (selections : List Selection) :
    (∃ occurrences last, (env.scope type).Walk [] selections occurrences last ∧
      (∀ others last', (env.scope type).Walk [] selections others last' → others = occurrences) ∧
      FieldGroup.Stable occurrences ((env.scope type).collectFields selections)) ∧
    ∀ directives, (env.scope type).includes directives = false ↔
      env.schema.LeavesOut env.request.variableValues directives := by
  refine ⟨?_, fun directives => Schema.includes_eq_false_iff⟩
  obtain ⟨occurrences, last, hwalk⟩ := (env.scope type).exists_walk [] selections
  refine ⟨occurrences, last, hwalk, fun others last' hother => (hwalk.deterministic hother).1, ?_⟩
  rw [hwalk.collectFields_eq]
  exact FieldGroup.stable_addAll occurrences

end GraphQL
