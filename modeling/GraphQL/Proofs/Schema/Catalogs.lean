import GraphQL.Catalog
import Mathlib.Data.List.Induction
import Mathlib.Data.List.Nodup

/-! # Searches in catalogs

Every entry of a catalog is found under its own name. Of the entries that a catalog is made of, the
last one of a name is found. -/

namespace GraphQL

/-- The last entry of a list that has the property. -/
def LastWith {α : Type} (property : α → Prop) (entries : List α) (entry : α) : Prop :=
  ∃ before after, entries = before ++ entry :: after ∧ property entry ∧
    ∀ other ∈ after, ¬property other

namespace LastWith

variable {α : Type} {property : α → Prop} {entries : List α} {entry first last : α}

theorem cons_iff :
    LastWith property (first :: entries) entry ↔
      LastWith property entries entry ∨
        entry = first ∧ property first ∧ ∀ other ∈ entries, ¬property other := by
  constructor
  · rintro ⟨before, after, hentries, hentry, hafter⟩
    cases before with
    | nil =>
        obtain ⟨rfl, rfl⟩ := List.cons.inj hentries
        exact .inr ⟨rfl, hentry, hafter⟩
    | cons _ before =>
        obtain ⟨rfl, rfl⟩ := List.cons.inj hentries
        exact .inl ⟨before, after, rfl, hentry, hafter⟩
  · rintro (⟨before, after, rfl, hentry, hafter⟩ | ⟨rfl, hentry, hafter⟩)
    · exact ⟨first :: before, after, rfl, hentry, hafter⟩
    · exact ⟨[], entries, rfl, hentry, hafter⟩

theorem concat_iff :
    LastWith property (entries ++ [last]) entry ↔
      entry = last ∧ property last ∨ LastWith property entries entry ∧ ¬property last := by
  constructor
  · rintro ⟨before, after, hentries, hentry, hafter⟩
    rcases List.eq_nil_or_concat after with rfl | ⟨after, other, rfl⟩
    · obtain ⟨-, hlast⟩ := List.append_inj' hentries rfl
      obtain rfl := List.singleton_inj.mp hlast
      exact .inl ⟨rfl, hentry⟩
    · rw [List.concat_eq_append, ← List.cons_append, ← List.append_assoc] at hentries
      obtain ⟨hinitial, hlast⟩ := List.append_inj' hentries rfl
      obtain rfl := List.singleton_inj.mp hlast
      rw [List.concat_eq_append] at hafter
      obtain ⟨hafter, hnot⟩ := List.forall_mem_append.mp hafter
      exact .inr ⟨⟨before, after, hinitial, hentry, hafter⟩, hnot last List.mem_cons_self⟩
  · rintro (⟨rfl, hlast⟩ | ⟨⟨before, after, rfl, hentry, hafter⟩, hnot⟩)
    · exact ⟨entries, [], rfl, hlast, nofun⟩
    · refine ⟨before, after ++ [last], by simp, hentry, ?_⟩
      exact List.forall_mem_append.mpr ⟨hafter, by simpa using hnot⟩

variable (property entries) in
theorem exists_or_none :
    (∃ entry, LastWith property entries entry) ∨ ∀ other ∈ entries, ¬property other := by
  induction entries with
  | nil => exact .inr nofun
  | cons first entries ih =>
      rcases ih with ⟨entry, hlast⟩ | hnone
      · exact .inl ⟨entry, cons_iff.mpr (.inl hlast)⟩
      · by_cases hfirst : property first
        · exact .inl ⟨first, cons_iff.mpr (.inr ⟨rfl, hfirst, hnone⟩)⟩
        · exact .inr (List.forall_mem_cons.mpr ⟨hfirst, hnone⟩)

end LastWith

namespace Catalog

variable {α : Type} [Named α] {catalog : Catalog α} {name : String} {entry : α}

theorem nodup_entries (catalog : Catalog α) : catalog.entries.Nodup :=
  List.Nodup.of_map Named.name catalog.distinct

/-- An entry is found under its own name. -/
theorem find?_of_mem (h : entry ∈ catalog.entries) :
    catalog.find? (Named.name entry) = some entry := by
  cases hfind : catalog.find? (Named.name entry) with
  | none => simpa using List.find?_eq_none.mp hfind entry h
  | some other =>
      have hname := name_of_find? hfind
      rw [List.inj_on_of_nodup_map catalog.distinct (mem_of_find? hfind) h hname]

theorem mem_of_contains {catalog : Catalog String} (h : catalog.contains name = true) :
    name ∈ catalog.entries := by
  obtain ⟨entry, hentry⟩ := Option.isSome_iff_exists.mp h
  have hname : entry = name := name_of_find? hentry
  exact hname ▸ mem_of_find? hentry

theorem contains_of_mem {catalog : Catalog String} (h : name ∈ catalog.entries) :
    catalog.contains name = true :=
  Option.isSome_of_eq_some (find?_of_mem h)

/-! ## Catalogs that are made of lists -/

theorem find?_eq_some_iff :
    catalog.find? name = some entry ↔ entry ∈ catalog.entries ∧ Named.name entry = name := by
  constructor
  · intro h
    exact ⟨mem_of_find? h, name_of_find? h⟩
  · rintro ⟨hmem, rfl⟩
    exact find?_of_mem hmem

theorem mem_replace_iff {put : α} {entries : List α} :
    entry ∈ replace put entries ↔
      (entry = put ∧ ∃ other ∈ entries, Named.name other = Named.name put) ∨
        entry ∈ entries ∧ Named.name entry ≠ Named.name put := by
  rw [replace, List.mem_map]
  constructor
  · rintro ⟨other, hmem, rfl⟩
    by_cases hname : Named.name other = Named.name put
    · exact .inl ⟨if_pos hname, other, hmem, hname⟩
    · rw [if_neg hname]
      exact .inr ⟨hmem, hname⟩
  · rintro (⟨rfl, other, hmem, hname⟩ | ⟨hmem, hname⟩)
    · exact ⟨other, hmem, if_pos hname⟩
    · exact ⟨entry, hmem, if_neg hname⟩

/-- An entry that is put takes the place of the one of its name, and of no other. -/
theorem mem_put_iff {put : α} :
    entry ∈ (catalog.put put).entries ↔
      entry = put ∨ entry ∈ catalog.entries ∧ Named.name entry ≠ Named.name put := by
  by_cases hnamed : Named.name put ∈ catalog.entries.map Named.name
  · rw [Catalog.put, dif_pos hnamed, mem_replace_iff]
    have hput : ∃ other ∈ catalog.entries, Named.name other = Named.name put :=
      List.mem_map.mp hnamed
    simp [hput]
  · rw [Catalog.put, dif_neg hnamed, List.mem_append, List.mem_singleton, or_comm]
    refine or_congr_right (iff_self_and.mpr fun hmem hname => hnamed ?_)
    exact hname ▸ List.mem_map_of_mem hmem

/-- The last entry of a name is found. -/
theorem find?_ofList (entries : List α) :
    (ofList entries).find? name = some entry ↔
      LastWith (fun other => Named.name other = name) entries entry := by
  induction entries using List.reverseRecOn with
  | nil => simp [LastWith, ofList, empty, find?]
  | append_singleton entries last ih =>
      have hput : ofList (entries ++ [last]) = (ofList entries).put last := by
        rw [ofList, List.foldl_append]
        rfl
      rw [hput, LastWith.concat_iff, ← ih, find?_eq_some_iff, mem_put_iff, find?_eq_some_iff]
      constructor
      · rintro ⟨rfl | ⟨hmem, hother⟩, rfl⟩
        · exact .inl ⟨rfl, rfl⟩
        · exact .inr ⟨⟨hmem, rfl⟩, hother.symm⟩
      · rintro (⟨rfl, hname⟩ | ⟨⟨hmem, rfl⟩, hother⟩)
        · exact ⟨.inl rfl, hname⟩
        · exact ⟨.inr ⟨hmem, Ne.symm hother⟩, rfl⟩

theorem mem_ofList {entries : List α} (h : entry ∈ (ofList entries).entries) : entry ∈ entries := by
  obtain ⟨before, after, hentries, -⟩ := (find?_ofList entries).mp (find?_of_mem h)
  rw [hentries]
  exact List.mem_append_right before List.mem_cons_self

end Catalog

end GraphQL
