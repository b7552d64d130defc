/-! Catalogs: definitions in order, each found by its own name, no two of the same name. -/

namespace GraphQL

class Named (α : Type) where
  name : α → String

/-- A name names itself, so a catalog of names is a list without repetition. -/
instance : Named String := ⟨id⟩

structure Catalog (α : Type) [Named α] where
  entries : List α
  distinct : (entries.map Named.name).Nodup := by decide

namespace Catalog

variable {α : Type} [Named α]

def empty : Catalog α := ⟨[], .nil⟩

def find? (catalog : Catalog α) (name : String) : Option α :=
  catalog.entries.find? fun entry => Named.name entry = name

def contains (catalog : Catalog α) (name : String) : Bool := (catalog.find? name).isSome

/-- Puts an entry in the place of the one it is named like. -/
def replace (entry : α) (entries : List α) : List α :=
  entries.map fun other => if Named.name other = Named.name entry then entry else other

theorem map_name_replace (entry : α) (entries : List α) :
    (replace entry entries).map Named.name = entries.map Named.name := by
  induction entries with
  | nil => rfl
  | cons other rest ih =>
      simp only [replace, List.map_cons, List.cons.injEq] at ih ⊢
      exact ⟨by split <;> simp_all, ih⟩

/-- Adds an entry at the end, or puts it in the place of the one it is named like. -/
def put (catalog : Catalog α) (entry : α) : Catalog α :=
  if h : Named.name entry ∈ catalog.entries.map Named.name then
    ⟨replace entry catalog.entries, by rw [map_name_replace]; exact catalog.distinct⟩
  else
    ⟨catalog.entries ++ [entry], by
      rw [List.map_append, List.nodup_append]
      refine ⟨catalog.distinct, by simp, ?_⟩
      rintro a ha b hb rfl
      simp only [List.map_cons, List.map_nil, List.mem_singleton] at hb
      exact h (hb ▸ ha)⟩

def ofList (entries : List α) : Catalog α := entries.foldl put empty

theorem name_of_find? {catalog : Catalog α} {name : String} {entry : α}
    (h : catalog.find? name = some entry) : Named.name entry = name := by
  simpa using List.find?_some h

theorem mem_of_find? {catalog : Catalog α} {name : String} {entry : α}
    (h : catalog.find? name = some entry) : entry ∈ catalog.entries :=
  List.mem_of_find?_eq_some h

end Catalog

end GraphQL
