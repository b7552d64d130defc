import GraphQL.Proofs.Document.Rewriting
import GraphQL.Proofs.Selection.Walk
import Mathlib.Logic.Function.Basic

/-! # Fields under other response keys

Aliases decide about response keys and about nothing else that is collected. If the key of every
field becomes its image under an injective map, the same fields are put together in the same order,
under the images of their keys. -/

namespace GraphQL

/-! ## Documents with other aliases -/

mutual

/-- Gives every field the alias that is chosen for it, at every depth. -/
def Selection.realias (choose : FieldHead → Option String) : Selection → Selection
  | .field head selections =>
    .field { head with alias? := choose head } (Selection.realiasAll choose selections)
  | .spread fragment directives => .spread fragment directives
  | .inlineFragment condition? directives selections =>
    .inlineFragment condition? directives (Selection.realiasAll choose selections)

def Selection.realiasAll (choose : FieldHead → Option String) : List Selection → List Selection
  | [] => []
  | selection :: rest => selection.realias choose :: Selection.realiasAll choose rest

end

def FieldNode.realias (choose : FieldHead → Option String) (node : FieldNode) : FieldNode where
  toFieldHead := { node.toFieldHead with alias? := choose node.toFieldHead }
  selections := Selection.realiasAll choose node.selections

def Operation.realias (choose : FieldHead → Option String) (operation : Operation) : Operation :=
  { operation with selections := Selection.realiasAll choose operation.selections }

def Fragment.realias (choose : FieldHead → Option String) (fragment : Fragment) : Fragment :=
  { fragment with selections := Selection.realiasAll choose fragment.selections }

def Definition.realias (choose : FieldHead → Option String) : Definition → Definition
  | .operation op => .operation (op.realias choose)
  | .fragment body => .fragment (body.realias choose)
  | .typeSystem kind location => .typeSystem kind location

def Document.realias (choose : FieldHead → Option String) (document : Document) : Document :=
  document.map (Definition.realias choose)

def FieldHead.noAlias (_ : FieldHead) : Option String := none

/-- The alias that makes a response key its image. -/
def FieldHead.imageKey (r : String → String) (head : FieldHead) : Option String := some (r head.key)

/-- The same document with the image of its response key as the alias of every field. -/
def Document.rename (r : String → String) (document : Document) : Document :=
  document.realias (FieldHead.imageKey r)

variable {choose : FieldHead → Option String}

namespace Selection

theorem realiasAll_eq_map (selections : List Selection) :
    realiasAll choose selections = selections.map (realias choose) := by
  induction selections with
  | nil => rfl
  | cons selection rest ih => rw [realiasAll, ih, List.map_cons]

mutual

/-- Once aliases are taken away, it does not matter what they have been. -/
theorem realias_noAlias : ∀ selection : Selection,
    (selection.realias choose).realias FieldHead.noAlias = selection.realias FieldHead.noAlias
  | .field head selections => by
      simp only [realias, FieldHead.noAlias, realiasAll_noAlias selections]
  | .spread fragment directives => rfl
  | .inlineFragment condition? directives selections => by
      simp only [realias, realiasAll_noAlias selections]

theorem realiasAll_noAlias : ∀ selections : List Selection,
    realiasAll FieldHead.noAlias (realiasAll choose selections) =
      realiasAll FieldHead.noAlias selections
  | [] => rfl
  | selection :: rest => by
      simp only [realiasAll, realias_noAlias selection, realiasAll_noAlias rest]

end

end Selection

theorem Operation.realias_noAlias (operation : Operation) :
    (operation.realias choose).realias FieldHead.noAlias =
      operation.realias FieldHead.noAlias := by
  simp only [realias, Selection.realiasAll_noAlias]

theorem Fragment.realias_noAlias (fragment : Fragment) :
    (fragment.realias choose).realias FieldHead.noAlias = fragment.realias FieldHead.noAlias := by
  simp only [realias, Selection.realiasAll_noAlias]

/-- Giving other aliases is a way of rewriting a document. -/
theorem Document.rewritten_realias (choose : FieldHead → Option String) (document : Document) :
    document.Rewritten (fun selections selections' =>
        selections' = Selection.realiasAll choose selections)
      (fun _ selections selections' => selections' = Selection.realiasAll choose selections)
      (document.realias choose) := by
  refine List.forall₂_map_right_iff.mpr (List.forall₂_same.mpr fun definition _ => ?_)
  cases definition with
  | operation op => exact .operation (.mk rfl)
  | fragment body => exact .fragment (.mk rfl)
  | typeSystem kind location => exact .typeSystem kind location

/-- Under every name there is the fragment with other aliases, if there is one. -/
def Catalog.Realiased (choose : FieldHead → Option String)
    (fragments fragments' : Catalog Fragment) : Prop :=
  ∀ name, fragments'.find? name = (fragments.find? name).map (Fragment.realias choose)

theorem Document.realiased_fragments (choose : FieldHead → Option String) (document : Document) :
    document.fragments.Realiased choose (document.realias choose).fragments := by
  intro name
  rcases optionRel_cases ((document.rewritten_realias choose).find? name) with
    ⟨hfind, hfind'⟩ | ⟨fragment, fragment', hfind, hfind', hrewritten⟩
  · rw [hfind, hfind', Option.map_none]
  · obtain ⟨rfl⟩ := hrewritten
    rw [hfind, hfind']
    rfl

/-! ## Walks -/

namespace Scope

variable {scope : Scope} {fragments' : Catalog Fragment}

theorem spreadSelections?_realias (hfragments : scope.fragments.Realiased choose fragments')
    (fragment : String) (directives : List Directive) :
    ({ scope with fragments := fragments' } : Scope).spreadSelections? fragment directives =
      (scope.spreadSelections? fragment directives).map (Selection.realiasAll choose) := by
  simp only [spreadSelections?, hfragments fragment]
  cases scope.includes directives with
  | false => rfl
  | true =>
      cases scope.fragments.find? fragment with
      | none => rfl
      | some definition =>
          cases happlies : scope.applies definition.condition with
          | false => simp [Fragment.realias, happlies]
          | true => simp [Fragment.realias, happlies]

/-- A walk meets the same fields under other aliases. -/
theorem Walk.realias (hfragments : scope.fragments.Realiased choose fragments')
    {visited last : List String} {selections : List Selection} {nodes : List FieldNode}
    (h : scope.Walk visited selections nodes last) :
    ({ scope with fragments := fragments' } : Scope).Walk visited
      (Selection.realiasAll choose selections) (nodes.map (FieldNode.realias choose)) last := by
  induction h with
  | nil visited => exact .nil visited
  | field included _ ih => exact .field included ih
  | excluded excluded _ ih => exact .excluded excluded ih
  | again met _ ih => exact .again met ih
  | spread new opens _ _ ihbody ih =>
      have hopens := (spreadSelections?_realias hfragments _ _).trans (congrArg _ opens)
      rw [List.map_append]
      exact .spread new hopens ihbody ih
  | dropped new closed _ ih =>
      have hclosed := (spreadSelections?_realias hfragments _ _).trans (congrArg _ closed)
      exact .dropped new hclosed ih
  | inline opens _ _ ihbody ih =>
      rw [List.map_append]
      exact .inline opens ihbody ih
  | closed closed _ ih => exact .closed closed ih

end Scope

/-! ## Groups -/

variable {r : String → String}

@[simp] theorem FieldNode.key_rename (node : FieldNode) :
    (node.realias (FieldHead.imageKey r)).key = r node.key :=
  rfl

namespace FieldGroup

/-- The same fields under the image of their key. -/
def rename (r : String → String) (group : FieldGroup) : FieldGroup where
  key := r group.key
  first := group.first.realias (FieldHead.imageKey r)
  rest := group.rest.map (FieldNode.realias (FieldHead.imageKey r))

theorem nodes_rename (group : FieldGroup) :
    (group.rename r).nodes = group.nodes.map (FieldNode.realias (FieldHead.imageKey r)) :=
  rfl

theorem selections_rename (group : FieldGroup) :
    (group.rename r).selections =
      Selection.realiasAll (FieldHead.imageKey r) group.selections := by
  rw [selections, selections, nodes_rename, Selection.realiasAll_eq_map, List.map_flatMap,
    List.flatMap_map]
  refine List.flatMap_congr fun node _ => ?_
  exact Selection.realiasAll_eq_map node.selections

/-- A field finds the group of its key under the images if it finds it under the keys. -/
theorem add_rename (hr : Function.Injective r) (node : FieldNode) (groups : List FieldGroup) :
    add (node.realias (FieldHead.imageKey r)) (groups.map (rename r)) =
      (add node groups).map (rename r) := by
  induction groups with
  | nil => rfl
  | cons group rest ih =>
      by_cases h : group.key = node.key
      · simp [add, rename, h]
      · have himage : r group.key ≠ r node.key := hr.ne h
        simp only [List.map_cons, add, FieldNode.key_rename, h, ite_false, ← ih]
        exact if_neg himage

theorem addAll_rename (hr : Function.Injective r) (groups : List FieldGroup)
    (nodes : List FieldNode) :
    addAll (groups.map (rename r)) (nodes.map (FieldNode.realias (FieldHead.imageKey r))) =
      (addAll groups nodes).map (rename r) := by
  induction nodes generalizing groups with
  | nil => rfl
  | cons node rest ih => rw [List.map_cons, addAll_cons, addAll_cons, add_rename hr, ih]

end FieldGroup

/-- The same fields are collected in the same order, under the images of their keys. -/
theorem Scope.collectFields_rename (hr : Function.Injective r) (scope : Scope)
    {fragments' : Catalog Fragment}
    (hfragments : scope.fragments.Realiased (FieldHead.imageKey r) fragments')
    (selections : List Selection) :
    ({ scope with fragments := fragments' } : Scope).collectFields
        (Selection.realiasAll (FieldHead.imageKey r) selections) =
      (scope.collectFields selections).map (FieldGroup.rename r) := by
  obtain ⟨nodes, last, hwalk⟩ := scope.exists_walk [] selections
  rw [hwalk.collectFields_eq, (hwalk.realias hfragments).collectFields_eq]
  exact FieldGroup.addAll_rename hr [] nodes

end GraphQL
