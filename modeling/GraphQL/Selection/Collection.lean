import GraphQL.Selection.Inclusion

/-! Collecting the fields of a selection set: fragments are opened, each at most once, and fields
with the same response key are put together in the order in which they are met. -/

namespace GraphQL

/-- The fields that share a response key; at least one. -/
structure FieldGroup where
  key : String
  first : FieldNode
  rest : List FieldNode

namespace FieldGroup

def nodes (group : FieldGroup) : List FieldNode := group.first :: group.rest

/-- The sub-selections of all fields of the group, one after the other. -/
def selections (group : FieldGroup) : List Selection := group.nodes.flatMap FieldNode.selections

/-- Adds a field to the group of its key, or starts a group after the others. -/
def add (node : FieldNode) : List FieldGroup → List FieldGroup
  | [] => [⟨node.key, node, []⟩]
  | group :: groups =>
    if group.key = node.key then ⟨group.key, group.first, group.rest ++ [node]⟩ :: groups
    else group :: add node groups

end FieldGroup

/-- What decides whether a selection takes part for objects of one type. -/
structure Scope where
  includes : List Directive → Bool
  applies : String → Bool
  fragments : Catalog Fragment

namespace Scope

/-- What a spread stands for, unless it is left out, undefined or does not apply. -/
def spreadSelections? (scope : Scope) (fragment : String) (directives : List Directive) :
    Option (List Selection) :=
  if scope.includes directives then
    match scope.fragments.find? fragment with
    | some definition =>
      if scope.applies definition.condition then some definition.selections else none
    | none => none
  else none

def opensInline (scope : Scope) (condition? : Option String) (directives : List Directive) :
    Bool :=
  scope.includes directives && condition?.all scope.applies

/-- The fragments that have not been met yet. -/
def unmet (scope : Scope) (visited : List String) : Nat :=
  (scope.fragments.entries.filter fun fragment => fragment.name ∉ visited).length

end Scope

mutual

/-- The number of selections that can be met without opening a fragment definition. -/
def Selection.weight : Selection → Nat
  | .field _ _ => 1
  | .spread _ _ => 1
  | .inlineFragment _ _ selections => 1 + Selection.weights selections

def Selection.weights : List Selection → Nat
  | [] => 0
  | selection :: rest => selection.weight + Selection.weights rest

end

theorem Selection.weights_append (left right : List Selection) :
    Selection.weights (left ++ right) = Selection.weights left + Selection.weights right := by
  induction left with
  | nil => simp [Selection.weights]
  | cons selection rest ih => simp only [List.cons_append, Selection.weights, ih]; omega

theorem Scope.unmet_cons (scope : Scope) (fragment : String) (visited : List String) :
    scope.unmet (fragment :: visited) =
      ((scope.fragments.entries.filter fun definition => definition.name ∉ visited).filter
        fun definition => definition.name ≠ fragment).length := by
  simp [Scope.unmet, List.filter_filter]

theorem Scope.unmet_cons_le (scope : Scope) (fragment : String) (visited : List String) :
    scope.unmet (fragment :: visited) ≤ scope.unmet visited := by
  rw [scope.unmet_cons]
  exact List.length_filter_le _ _

theorem Scope.unmet_cons_lt (scope : Scope) {fragment : String} {visited : List String}
    {definition : Fragment} (found : scope.fragments.find? fragment = some definition)
    (new : fragment ∉ visited) : scope.unmet (fragment :: visited) < scope.unmet visited := by
  have named : definition.name = fragment := Catalog.name_of_find? found
  rw [scope.unmet_cons]
  refine List.length_filter_lt_length_iff_exists.mpr ⟨definition, ?_, by simp [named]⟩
  simpa [named] using ⟨Catalog.mem_of_find? found, new⟩

theorem Scope.find?_of_spreadSelections? {scope : Scope} {fragment : String}
    {directives : List Directive} {body : List Selection}
    (h : scope.spreadSelections? fragment directives = some body) :
    ∃ definition, scope.fragments.find? fragment = some definition := by
  unfold Scope.spreadSelections? at h
  split at h
  · split at h
    · exact ⟨_, by assumption⟩
    · simp at h
  · simp at h

/-- The fragments met so far and the fields found so far. -/
structure Collected where
  visited : List String := []
  groups : List FieldGroup := []

/-- Collects fields into what has been collected before. A fragment counts as met from its first
spread on, whether or not that spread is followed. -/
def Scope.collect (scope : Scope) (collected : Collected) : List Selection → Collected
  | [] => collected
  | .field head selections :: rest =>
    if scope.includes head.directives then
      scope.collect ⟨collected.visited, FieldGroup.add ⟨head, selections⟩ collected.groups⟩ rest
    else scope.collect collected rest
  | .spread fragment directives :: rest =>
    if fragment ∈ collected.visited then scope.collect collected rest
    else
      match _h : scope.spreadSelections? fragment directives with
      | some body =>
        scope.collect ⟨fragment :: collected.visited, collected.groups⟩ (body ++ rest)
      | none => scope.collect ⟨fragment :: collected.visited, collected.groups⟩ rest
  | .inlineFragment condition? directives selections :: rest =>
    if scope.opensInline condition? directives then scope.collect collected (selections ++ rest)
    else scope.collect collected rest
termination_by selections => (scope.unmet collected.visited, Selection.weights selections)
decreasing_by
  · exact Prod.Lex.right _ (by simp [Selection.weights, Selection.weight])
  · exact Prod.Lex.right _ (by simp [Selection.weights, Selection.weight])
  · exact Prod.Lex.right _ (by simp [Selection.weights, Selection.weight])
  · obtain ⟨definition, found⟩ := Scope.find?_of_spreadSelections? _h
    exact Prod.Lex.left _ _ (scope.unmet_cons_lt found (by assumption))
  · rcases Nat.lt_or_eq_of_le (scope.unmet_cons_le fragment collected.visited) with h | h
    · exact Prod.Lex.left _ _ h
    · simp only [h]
      exact Prod.Lex.right _ (by simp [Selection.weights, Selection.weight])
  · refine Prod.Lex.right _ ?_
    simp [Selection.weights, Selection.weight, Selection.weights_append]
  · exact Prod.Lex.right _ (by simp only [Selection.weights, Selection.weight]; omega)

/-- The field groups of a selection set. -/
def Scope.collectFields (scope : Scope) (selections : List Selection) : List FieldGroup :=
  (scope.collect {} selections).groups

end GraphQL
