import GraphQL.Selection.Collection
import Mathlib.Data.List.Induction

/-! # Groups of collected fields

No two groups of a selection set have the same response key, and the fields of a group have the key
of the group. Fields whose keys are new make groups of their own, after the others. -/

namespace GraphQL

namespace FieldGroup

/-- Adding a field leaves the keys as they are, or puts a new key after them. -/
theorem map_key_add (node : FieldNode) (groups : List FieldGroup) :
    (add node groups).map key =
      if node.key ∈ groups.map key then groups.map key else groups.map key ++ [node.key] := by
  induction groups with
  | nil => simp [add]
  | cons group rest ih =>
      by_cases h : group.key = node.key
      · simp [add, h]
      · simp only [add, h, ite_false, List.map_cons, ih, List.mem_cons, Ne.symm h, false_or]
        split <;> simp

theorem nodup_keys_add (node : FieldNode) {groups : List FieldGroup}
    (h : (groups.map key).Nodup) : ((add node groups).map key).Nodup := by
  rw [map_key_add]
  split
  · exact h
  · rename_i hnew
    refine List.nodup_append.mpr ⟨h, by simp, ?_⟩
    rintro a ha b hb rfl
    exact hnew (List.mem_singleton.mp hb ▸ ha)

/-- All fields of the group have its key. -/
def Keyed (group : FieldGroup) : Prop := ∀ node ∈ group.nodes, node.key = group.key

theorem keyed_add (node : FieldNode) {groups : List FieldGroup}
    (h : ∀ group ∈ groups, group.Keyed) : ∀ group ∈ add node groups, group.Keyed := by
  induction groups with
  | nil =>
      intro group hmem
      obtain rfl := List.mem_singleton.mp hmem
      exact List.forall_mem_singleton.mpr rfl
  | cons group rest ih =>
      obtain ⟨hgroup, hrest⟩ := List.forall_mem_cons.mp h
      rw [add]
      split
      · rename_i hkey
        refine List.forall_mem_cons.mpr ⟨?_, hrest⟩
        intro other hmem
        have hnodes : other ∈ group.nodes ∨ other = node := by
          simpa [nodes, or_assoc] using hmem
        rcases hnodes with hold | rfl
        · exact hgroup other hold
        · exact hkey.symm
      · exact List.forall_mem_cons.mpr ⟨hgroup, ih hrest⟩

/-- A field with a new key passes by the groups before it. -/
theorem add_append_of_notMem {node : FieldNode} {groups : List FieldGroup}
    (new : node.key ∉ groups.map key) (later : List FieldGroup) :
    add node (groups ++ later) = groups ++ add node later := by
  induction groups with
  | nil => rfl
  | cons group rest ih =>
      simp only [List.map_cons, List.mem_cons, not_or] at new
      simp [add, Ne.symm new.1, ih new.2]

/-- Adds fields one after the other. -/
def addAll (groups : List FieldGroup) (nodes : List FieldNode) : List FieldGroup :=
  nodes.foldl (fun groups node => add node groups) groups

@[simp] theorem addAll_nil (groups : List FieldGroup) : addAll groups [] = groups := rfl

@[simp] theorem addAll_cons (groups : List FieldGroup) (node : FieldNode) (nodes : List FieldNode) :
    addAll groups (node :: nodes) = addAll (add node groups) nodes := rfl

theorem addAll_append (groups : List FieldGroup) (nodes later : List FieldNode) :
    addAll groups (nodes ++ later) = addAll (addAll groups nodes) later :=
  List.foldl_append

theorem addAll_append_of_notMem {nodes : List FieldNode} {groups : List FieldGroup}
    (new : ∀ node ∈ nodes, node.key ∉ groups.map key) (later : List FieldGroup) :
    addAll (groups ++ later) nodes = groups ++ addAll later nodes := by
  induction nodes generalizing later with
  | nil => rfl
  | cons node rest ih =>
      obtain ⟨hnode, hrest⟩ := List.forall_mem_cons.mp new
      simp only [addAll_cons, add_append_of_notMem hnode, ih hrest]

theorem mem_map_key_addAll (name : String) (groups : List FieldGroup) (nodes : List FieldNode) :
    name ∈ (addAll groups nodes).map key ↔
      name ∈ groups.map key ∨ ∃ node ∈ nodes, node.key = name := by
  induction nodes generalizing groups with
  | nil => simp
  | cons node rest ih =>
      have hadd : name ∈ (add node groups).map key ↔ name ∈ groups.map key ∨ node.key = name := by
        rw [map_key_add]
        split
        · rename_i hold
          exact ⟨.inl, fun h => h.elim id fun heq => heq ▸ hold⟩
        · simp [eq_comm]
      simp [ih, hadd, or_assoc]

theorem nodup_keys_addAll (nodes : List FieldNode) {groups : List FieldGroup}
    (h : (groups.map key).Nodup) : ((addAll groups nodes).map key).Nodup := by
  induction nodes generalizing groups with
  | nil => exact h
  | cons node rest ih => exact ih (nodup_keys_add node h)

/-- A field is put into the group of its key, or makes a group of its own. -/
theorem nodes_of_mem_add {node : FieldNode} {groups : List FieldGroup}
    (distinct : (groups.map key).Nodup) {group : FieldGroup} (h : group ∈ add node groups) :
    (group ∈ groups ∧ group.key ≠ node.key) ∨
      (group.key = node.key ∧ ∃ old ∈ groups, old.key = group.key ∧
        group.nodes = old.nodes ++ [node]) ∨
      (node.key ∉ groups.map key ∧ group.key = node.key ∧ group.nodes = [node]) := by
  induction groups with
  | nil =>
      obtain rfl := List.mem_singleton.mp h
      exact .inr (.inr ⟨List.not_mem_nil, rfl, rfl⟩)
  | cons first rest ih =>
      obtain ⟨hfirst, hrest⟩ := List.nodup_cons.mp distinct
      rw [add] at h
      by_cases hkey : first.key = node.key
      · rw [if_pos hkey] at h
        rcases List.mem_cons.mp h with rfl | hmem
        · exact .inr (.inl ⟨hkey, first, List.mem_cons_self, rfl, rfl⟩)
        · refine .inl ⟨List.mem_cons_of_mem _ hmem, ?_⟩
          intro heq
          exact hfirst (hkey.trans heq.symm ▸ List.mem_map_of_mem hmem)
      · rw [if_neg hkey] at h
        rcases List.mem_cons.mp h with rfl | hmem
        · exact .inl ⟨List.mem_cons_self, hkey⟩
        · rcases ih hrest hmem with ⟨hold, hne⟩ | ⟨heq, old, hold, hnodes⟩ | ⟨hnew, hgroup⟩
          · exact .inl ⟨List.mem_cons_of_mem _ hold, hne⟩
          · exact .inr (.inl ⟨heq, old, List.mem_cons_of_mem _ hold, hnodes⟩)
          · exact .inr (.inr ⟨by simp [Ne.symm hkey, hnew], hgroup⟩)

/-- A group has the fields with its key, in the order in which they are added. -/
theorem nodes_of_mem_addAll {nodes : List FieldNode} {group : FieldGroup}
    (h : group ∈ addAll [] nodes) :
    group.nodes = nodes.filter fun node => node.key = group.key := by
  induction nodes using List.reverseRecOn generalizing group with
  | nil => cases h
  | append_singleton nodes node ih =>
      have hdistinct : ((addAll [] nodes).map key).Nodup := nodup_keys_addAll nodes List.nodup_nil
      rw [addAll_append] at h
      rcases nodes_of_mem_add hdistinct h with
        ⟨hold, hne⟩ | ⟨hkey, old, hold, heq, hnodes⟩ | ⟨hnew, hkey, hnodes⟩
      · simp [ih hold, Ne.symm hne]
      · simp [hnodes, ih hold, heq, hkey]
      · have hnone : ∀ other ∈ nodes, other.key ≠ node.key := by
          intro other hmem hother
          exact hnew ((mem_map_key_addAll _ [] nodes).mpr (.inr ⟨other, hmem, hother⟩))
        simpa [hnodes, hkey] using hnone

end FieldGroup

namespace Scope

theorem nodup_keys_collect (scope : Scope) (collected : Collected) (selections : List Selection)
    (h : (collected.groups.map FieldGroup.key).Nodup) :
    ((scope.collect collected selections).groups.map FieldGroup.key).Nodup := by
  fun_induction Scope.collect with
  | case1 => exact h
  | case2 _ _ _ _ _ ih => exact ih (FieldGroup.nodup_keys_add _ h)
  | case3 _ _ _ _ _ ih | case4 _ _ _ _ _ ih | case5 _ _ _ _ _ _ _ ih => exact ih h
  | case6 _ _ _ _ _ _ ih | case7 _ _ _ _ _ _ ih | case8 _ _ _ _ _ _ ih => exact ih h

/-- The response keys of a selection set are distinct. -/
theorem nodup_keys_collectFields (scope : Scope) (selections : List Selection) :
    ((scope.collectFields selections).map FieldGroup.key).Nodup :=
  scope.nodup_keys_collect {} selections List.nodup_nil

theorem keyed_collect (scope : Scope) (collected : Collected) (selections : List Selection)
    (h : ∀ group ∈ collected.groups, group.Keyed) :
    ∀ group ∈ (scope.collect collected selections).groups, group.Keyed := by
  fun_induction Scope.collect with
  | case1 => exact h
  | case2 _ _ _ _ _ ih => exact ih (FieldGroup.keyed_add _ h)
  | case3 _ _ _ _ _ ih | case4 _ _ _ _ _ ih | case5 _ _ _ _ _ _ _ ih => exact ih h
  | case6 _ _ _ _ _ _ ih | case7 _ _ _ _ _ _ ih | case8 _ _ _ _ _ _ ih => exact ih h

/-- The fields that are put together have one response key. -/
theorem keyed_collectFields (scope : Scope) (selections : List Selection) :
    ∀ group ∈ scope.collectFields selections, group.Keyed :=
  scope.keyed_collect {} selections nofun

theorem collectFields_singleton (scope : Scope) (head : FieldHead) (selections : List Selection) :
    scope.collectFields [.field head selections] =
      if scope.includes head.directives then [⟨head.key, ⟨head, selections⟩, []⟩] else [] := by
  rw [collectFields, collect]
  split <;> simp [collect, FieldGroup.add]

end Scope

end GraphQL
