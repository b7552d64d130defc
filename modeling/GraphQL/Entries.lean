/-! Named entries in insertion order. An entry is found under the first occurrence of its name,
and giving a name a new value keeps its place. -/

namespace GraphQL.Entries

variable {κ α : Type} [DecidableEq κ]

def keys (entries : List (κ × α)) : List κ := entries.map Prod.fst

def get? (key : κ) : List (κ × α) → Option α
  | [] => none
  | (k, v) :: rest => if k = key then some v else get? key rest

/-- Replaces the value at the key's place, or adds the entry at the end. -/
def insert (key : κ) (value : α) : List (κ × α) → List (κ × α)
  | [] => [(key, value)]
  | (k, v) :: rest => if k = key then (key, value) :: rest else (k, v) :: insert key value rest

/-- The entries with each name once: its first place and its last value. -/
def ofList (entries : List (κ × α)) : List (κ × α) :=
  entries.foldl (fun kept entry => insert entry.1 entry.2 kept) []

/-- Changes the value under the first occurrence of the key. -/
def update (key : κ) (change : α → α) : List (κ × α) → List (κ × α)
  | [] => []
  | (k, v) :: rest => if k = key then (k, change v) :: rest else (k, v) :: update key change rest

theorem insert_of_notMem {key : κ} {value : α} {entries : List (κ × α)}
    (h : key ∉ keys entries) : insert key value entries = entries ++ [(key, value)] := by
  induction entries with
  | nil => rfl
  | cons entry rest ih =>
      simp only [keys, List.map_cons, List.mem_cons, not_or] at h
      simp [insert, Ne.symm h.1, ih h.2]

theorem get?_insert (key name : κ) (value : α) (entries : List (κ × α)) :
    get? name (insert key value entries) =
      if key = name then some value else get? name entries := by
  induction entries with
  | nil => rfl
  | cons entry rest ih =>
      obtain ⟨k, v⟩ := entry
      by_cases hk : k = key
      · subst hk
        by_cases h : k = name <;> simp [insert, get?, h]
      · by_cases hn : k = name
        · subst hn
          simp [insert, get?, hk, Ne.symm hk]
        · simp [insert, get?, hk, hn, ih]

theorem get?_map {β : Type} (f : κ → α → β) (key : κ) (entries : List (κ × α)) :
    get? key (entries.map fun (k, v) => (k, f k v)) = (get? key entries).map (f key) := by
  induction entries with
  | nil => rfl
  | cons entry rest ih =>
      obtain ⟨k, v⟩ := entry
      by_cases h : k = key
      · subst h
        simp [get?]
      · simp [get?, h, ih]

theorem mem_of_get? {key : κ} {value : α} {entries : List (κ × α)}
    (h : get? key entries = some value) : (key, value) ∈ entries := by
  induction entries with
  | nil => cases h
  | cons entry rest ih =>
      obtain ⟨k, v⟩ := entry
      by_cases hk : k = key
      · simp only [get?, hk, ite_true, Option.some.injEq] at h
        simp [hk, h]
      · simp only [get?, hk, ite_false] at h
        exact List.mem_cons_of_mem _ (ih h)

theorem get?_eq_none {key : κ} {entries : List (κ × α)} (h : key ∉ keys entries) :
    get? key entries = none := by
  cases hget : get? key entries with
  | none => rfl
  | some value => exact (h (List.mem_map.mpr ⟨_, mem_of_get? hget, rfl⟩)).elim

theorem mem_of_mem_insert {entry : κ × α} {key : κ} {value : α} {entries : List (κ × α)}
    (h : entry ∈ insert key value entries) : entry = (key, value) ∨ entry ∈ entries := by
  induction entries with
  | nil => exact .inl (List.mem_singleton.mp h)
  | cons first rest ih =>
      obtain ⟨k, v⟩ := first
      by_cases hk : k = key
      · rw [insert, if_pos hk] at h
        exact (List.mem_cons.mp h).imp_right (List.mem_cons_of_mem _)
      · rw [insert, if_neg hk] at h
        rcases List.mem_cons.mp h with rfl | h
        · exact .inr List.mem_cons_self
        · exact (ih h).imp_right (List.mem_cons_of_mem _)

/-- Entries of distinct names are kept as they are. -/
theorem ofList_of_nodup {entries : List (κ × α)} (distinct : (keys entries).Nodup) :
    ofList entries = entries := by
  suffices h : ∀ kept : List (κ × α), (keys (kept ++ entries)).Nodup →
      entries.foldl (fun kept entry => insert entry.1 entry.2 kept) kept = kept ++ entries from
    h [] distinct
  clear distinct
  induction entries with
  | nil => simp
  | cons entry rest ih =>
      intro kept hkept
      have hnew : entry.1 ∉ keys kept := by
        rw [keys, List.map_append] at hkept
        exact fun hmem => (List.nodup_append.mp hkept).2.2 _ hmem _ List.mem_cons_self rfl
      rw [List.foldl_cons, insert_of_notMem hnew, ih] <;> simp_all

/-- An entry is found if no other has its name. -/
theorem get?_of_mem {key : κ} {value : α} {entries : List (κ × α)}
    (distinct : (keys entries).Nodup) (h : (key, value) ∈ entries) :
    get? key entries = some value := by
  induction entries with
  | nil => cases h
  | cons entry rest ih =>
      obtain ⟨k, v⟩ := entry
      obtain ⟨hk, hrest⟩ := List.nodup_cons.mp distinct
      rcases List.mem_cons.mp h with heq | h
      · cases heq
        simp [get?]
      · have hne : k ≠ key := by
          rintro rfl
          exact hk (List.mem_map.mpr ⟨_, h, rfl⟩)
        simp only [get?, hne, ite_false]
        exact ih hrest h

theorem get?_update (key name : κ) (change : α → α) (entries : List (κ × α)) :
    get? name (update key change entries) =
      if key = name then (get? name entries).map change else get? name entries := by
  induction entries with
  | nil => simp [update, get?]
  | cons entry rest ih =>
      obtain ⟨k, v⟩ := entry
      by_cases hk : k = key
      · subst hk
        by_cases h : k = name <;> simp [update, get?, h]
      · by_cases hn : k = name
        · subst hn
          simp [update, get?, hk, Ne.symm hk]
        · simp [update, get?, hk, hn, ih]

theorem update_of_notMem {key : κ} {change : α → α} {value : α} {earlier : List (κ × α)}
    (h : key ∉ keys earlier) (later : List (κ × α)) :
    update key change (earlier ++ (key, value) :: later) =
      earlier ++ (key, change value) :: later := by
  induction earlier with
  | nil => simp [update]
  | cons entry rest ih =>
      simp only [keys, List.map_cons, List.mem_cons, not_or] at h
      simp [update, Ne.symm h.1, ih h.2]

end GraphQL.Entries
