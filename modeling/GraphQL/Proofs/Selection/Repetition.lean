import GraphQL.Proofs.Selection.Grouping
import Mathlib.Data.List.Forall2

/-! # Fields that come again

A field may be met again after it has been collected. The selection set then has the same response
keys in the same order, and each group repeats nothing but its own fields. -/

namespace GraphQL

variable {α β α' β' : Type}

/-- The second list has the entries of the first one, related one by one. Between them it repeats
entries of its own, or such as have been seen before it. -/
inductive Repeats (related : α → β → Prop) : List β → List α → List β → Prop
  | nil (seen) : Repeats related seen [] []
  | next {seen first rest first' rest'} (head : related first first')
      (tail : Repeats related (first' :: seen) rest rest') :
      Repeats related seen (first :: rest) (first' :: rest')
  | again {seen entries first' rest'} (old : first' ∈ seen)
      (tail : Repeats related seen entries rest') :
      Repeats related seen entries (first' :: rest')

namespace Repeats

variable {related : α → β → Prop} {seen : List β} {entries : List α} {entries' : List β}

theorem mono (h : Repeats related seen entries entries') {more : List β} (hsub : seen ⊆ more) :
    Repeats related more entries entries' := by
  induction h generalizing more with
  | nil => exact .nil more
  | next head _ ih => exact .next head (ih (List.cons_subset_cons _ hsub))
  | again old _ ih => exact .again (hsub old) (ih hsub)

/-- What has been seen may come again. -/
theorem of_subset (h : entries' ⊆ seen) : Repeats related seen [] entries' := by
  induction entries' with
  | nil => exact .nil seen
  | cons first rest ih =>
      obtain ⟨hfirst, hrest⟩ := List.cons_subset.mp h
      exact .again hfirst (ih hrest)

/-- What holds of related entries holds of repeated ones. -/
theorem forall_mem (h : Repeats related seen entries entries') {property : β → Prop}
    (hrelated : ∀ entry entry', related entry entry' → property entry')
    (hseen : ∀ entry ∈ seen, property entry) : ∀ entry ∈ entries', property entry := by
  induction h with
  | nil => simp
  | next head _ ih =>
      have hfirst := hrelated _ _ head
      exact List.forall_mem_cons.mpr ⟨hfirst, ih (List.forall_mem_cons.mpr ⟨hfirst, hseen⟩)⟩
  | again old _ ih => exact List.forall_mem_cons.mpr ⟨hseen _ old, ih hseen⟩

theorem append (h : Repeats related seen entries entries') {later : List α} {later' : List β}
    (hlater : Repeats related (entries' ++ seen) later later') :
    Repeats related seen (entries ++ later) (entries' ++ later') := by
  induction h with
  | nil => exact hlater
  | next head _ ih =>
      refine .next head (ih (hlater.mono ?_))
      intro entry hmem
      simpa [or_left_comm, or_assoc] using hmem
  | again old _ ih =>
      refine .again old (ih (hlater.mono ?_))
      intro entry hmem
      rcases List.mem_cons.mp hmem with rfl | hmem
      · exact List.mem_append_right _ old
      · exact hmem

theorem map (h : Repeats related seen entries entries') {related' : α' → β' → Prop} {f : α → α'}
    {g : β → β'} (himage : ∀ entry entry', related entry entry' → related' (f entry) (g entry')) :
    Repeats related' (seen.map g) (entries.map f) (entries'.map g) := by
  induction h with
  | nil => exact .nil _
  | next head _ ih => exact .next (himage _ _ head) ih
  | again old _ ih => exact .again (List.mem_map_of_mem old) ih

theorem filter (h : Repeats related seen entries entries') {p : α → Bool} {q : β → Bool}
    (hsame : ∀ entry entry', related entry entry' → p entry = q entry') :
    Repeats related (seen.filter q) (entries.filter p) (entries'.filter q) := by
  induction h with
  | nil => exact .nil _
  | @next _ first _ first' _ head _ ih =>
      cases hq : q first' with
      | true =>
          simp only [List.filter_cons, hsame _ _ head, hq, ite_true] at ih ⊢
          exact .next head ih
      | false => simpa [List.filter_cons, hsame _ _ head, hq] using ih
  | @again _ _ first' _ old _ ih =>
      cases hq : q first' with
      | true =>
          simp only [List.filter_cons, hq, ite_true]
          exact .again (List.mem_filter.mpr ⟨old, hq⟩) ih
      | false => simpa [List.filter_cons, hq] using ih

end Repeats

namespace FieldGroup

/-- The groups of two selection sets have the same keys in the same order, and the fields of the
second one are those of the first one with repetitions. -/
def Repeating (related : FieldNode → FieldNode → Prop) (group group' : FieldGroup) : Prop :=
  group.key = group'.key ∧ Repeats related [] group.nodes group'.nodes

variable {related : FieldNode → FieldNode → Prop}

/-- Nothing can come again before the first field. -/
theorem Repeating.first {group group' : FieldGroup} (h : group.Repeating related group') :
    related group.first group'.first := by
  obtain ⟨-, hnodes⟩ := h
  cases hnodes with
  | next head _ => exact head
  | again old _ => cases old

theorem map_key_addAll_of_repeats
    (samekey : ∀ node node', related node node' → node.key = node'.key)
    {seen nodes nodes' : List FieldNode} (h : Repeats related seen nodes nodes')
    (groups groups' : List FieldGroup) (hkeys : groups.map key = groups'.map key)
    (hseen : ∀ node ∈ seen, node.key ∈ groups'.map key) :
    (addAll groups nodes).map key = (addAll groups' nodes').map key := by
  induction h generalizing groups groups' with
  | nil => exact hkeys
  | @next _ node _ node' _ head _ ih =>
      have hadd : (add node groups).map key = (add node' groups').map key := by
        rw [map_key_add, map_key_add, samekey _ _ head, hkeys]
      have hmem (name : String) : name ∈ (add node' groups').map key ↔
          name ∈ groups'.map key ∨ node'.key = name := by
        simpa using mem_map_key_addAll name groups' [node']
      refine ih _ _ hadd (List.forall_mem_cons.mpr ⟨?_, fun old hold => ?_⟩)
      · exact (hmem node'.key).mpr (.inr rfl)
      · exact (hmem old.key).mpr (.inl (hseen old hold))
  | @again _ _ node' _ old _ ih =>
      have hadd : (add node' groups').map key = groups'.map key := by
        rw [map_key_add, if_pos (hseen node' old)]
      exact ih _ _ (hkeys.trans hadd.symm) fun other hother => hadd ▸ hseen other hother

/-- Groups with the same key stand at the same place, and have all fields of their key. -/
theorem forall₂_addAll {nodes nodes' : List FieldNode}
    (h : (addAll [] nodes).map key = (addAll [] nodes').map key) :
    List.Forall₂ (fun group group' => group.key = group'.key ∧
        group.nodes = nodes.filter (fun node => node.key = group.key) ∧
        group'.nodes = nodes'.filter fun node => node.key = group.key)
      (addAll [] nodes) (addAll [] nodes') := by
  have hkeys : List.Forall₂ (fun group group' => group.key = group'.key) (addAll [] nodes)
      (addAll [] nodes') := by
    rwa [← List.forall₂_eq_eq_eq, List.forall₂_map_left_iff, List.forall₂_map_right_iff] at h
  refine List.forall₂_iff_zip.mpr ⟨hkeys.length_eq, fun {group group'} hzip => ?_⟩
  obtain ⟨hgroup, hgroup'⟩ := List.of_mem_zip hzip
  have hkey : group.key = group'.key := List.forall₂_zip hkeys hzip
  exact ⟨hkey, nodes_of_mem_addAll hgroup, hkey ▸ nodes_of_mem_addAll hgroup'⟩

/-- Repetitions make no new groups. -/
theorem repeating_addAll (samekey : ∀ node node', related node node' → node.key = node'.key)
    {nodes nodes' : List FieldNode} (h : Repeats related [] nodes nodes') :
    List.Forall₂ (Repeating related) (addAll [] nodes) (addAll [] nodes') := by
  have hmap := map_key_addAll_of_repeats samekey h [] [] rfl (by simp)
  refine (forall₂_addAll hmap).imp fun group group' hgroups => ?_
  obtain ⟨hkey, hnodes, hnodes'⟩ := hgroups
  refine ⟨hkey, ?_⟩
  rw [hnodes, hnodes']
  exact h.filter fun node node' hrelated => by rw [samekey node node' hrelated]

end FieldGroup

end GraphQL
