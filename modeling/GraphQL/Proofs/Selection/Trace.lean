import GraphQL.Proofs.Schema.Catalogs
import GraphQL.Proofs.Selection.Walk
import Mathlib.Algebra.Order.BigOperators.Group.List
import Mathlib.Algebra.Order.Ring.Nat
import Mathlib.Data.List.Perm.Subperm

/-! # Everything that a walk meets

A walk takes the selections of a fragment at the first spread that it meets of it, and never again.
So it comes to an end although fragments may spread themselves and each other in circles: it meets
no more than there is in the selections themselves and in the fragments that were not met before. -/

namespace GraphQL

/-! ## What is left to open -/

theorem sum_map_le_of_subset {α : Type} {list list' : List α} (distinct : list.Nodup)
    (hsubset : list ⊆ list') (f : α → Nat) : (list.map f).sum ≤ (list'.map f).sum := by
  obtain ⟨middle, hperm, hsublist⟩ := List.subperm_of_subset distinct hsubset
  calc (list.map f).sum = (middle.map f).sum := (hperm.symm.map f).sum_eq
    _ ≤ (list'.map f).sum := (hsublist.map f).sum_le_sum (by simp)

namespace Scope

variable {scope : Scope} {fragment : String} {opened : List String}

/-- The size of the fragments that have not been opened yet. -/
def unopened (scope : Scope) (size : List Selection → Nat) (opened : List String) : Nat :=
  ((scope.fragments.entries.filter fun fragment => fragment.name ∉ opened).map
    fun fragment => size fragment.selections).sum

/-- To open a fragment moves its selections from those that are left to those that are met. -/
theorem unopened_cons_of_found {definition : Fragment}
    (found : scope.fragments.find? fragment = some definition) (new : fragment ∉ opened)
    (size : List Selection → Nat) :
    size definition.selections + scope.unopened size (fragment :: opened) ≤
      scope.unopened size opened := by
  have hname : definition.name = fragment := Catalog.name_of_find? found
  have hdistinct : (definition :: scope.fragments.entries.filter
      fun other => other.name ∉ fragment :: opened).Nodup := by
    refine List.nodup_cons.mpr ⟨by simp [hname], ?_⟩
    exact scope.fragments.nodup_entries.filter _
  have hsubset : (definition :: scope.fragments.entries.filter
      fun other => other.name ∉ fragment :: opened) ⊆
        scope.fragments.entries.filter fun other => other.name ∉ opened := by
    refine List.cons_subset.mpr ⟨?_, fun other hmem => ?_⟩
    · simpa [hname] using ⟨Catalog.mem_of_find? found, new⟩
    · simp only [List.mem_filter, List.mem_cons, decide_eq_true_eq, not_or] at hmem ⊢
      exact ⟨hmem.1, hmem.2.2⟩
  have hsum := sum_map_le_of_subset hdistinct hsubset fun fragment => size fragment.selections
  rwa [List.map_cons, List.sum_cons] at hsum

theorem unopened_cons_le (size : List Selection → Nat) :
    scope.unopened size (fragment :: opened) ≤ scope.unopened size opened := by
  refine sum_map_le_of_subset (scope.fragments.nodup_entries.filter _) (fun other hmem => ?_) _
  simp only [List.mem_filter, List.mem_cons, decide_eq_true_eq, not_or] at hmem ⊢
  exact ⟨hmem.1, hmem.2.2⟩

end Scope

/-! ## Encounters -/

/-- A selection that a walk meets, and whether it is taken: a field is found then, and of a fragment
or an inline fragment the selections are walked through. -/
structure Encounter where
  selection : Selection
  taken : Bool

namespace Encounter

def node? : Encounter → Option FieldNode
  | ⟨.field head selections, true⟩ => some ⟨head, selections⟩
  | _ => none

/-- The fragment whose spread is met, whether or not it is taken. -/
def spread? : Encounter → Option String
  | ⟨.spread fragment _, _⟩ => some fragment
  | _ => none

/-- The fragment whose selections are walked through. -/
def opened? : Encounter → Option String
  | ⟨.spread fragment _, true⟩ => some fragment
  | _ => none

theorem spread?_of_opened? {encounter : Encounter} {fragment : String}
    (h : encounter.opened? = some fragment) : encounter.spread? = some fragment := by
  obtain ⟨selection, taken⟩ := encounter
  cases selection with
  | spread name directives =>
      cases taken with
      | true => exact h
      | false => cases h
  | _ => cases h

end Encounter

/-- What becomes of a selection that is met: the fragments that have been met then, and what is
inside of the selection if it is taken. -/
def Scope.enter (scope : Scope) (visited : List String) :
    Selection → List String × Option (List Selection)
  | .field head _ => (visited, if scope.includes head.directives then some [] else none)
  | .spread fragment directives =>
    if fragment ∈ visited then (visited, none)
    else (fragment :: visited, scope.spreadSelections? fragment directives)
  | .inlineFragment condition? directives selections =>
    (visited, if scope.opensInline condition? directives then some selections else none)

/-- A walk with all that it meets, in order. A selection that is taken is followed by what is met
inside of it, and then by what comes after it; there the fragments count as met that were met
inside. -/
inductive Scope.Trace (scope : Scope) :
    List String → List Selection → List Encounter → List String → Prop
  | nil (visited) : Trace scope visited [] [] visited
  | passed {visited selection rest next encounters last}
      (passes : scope.enter visited selection = (next, none))
      (tail : Trace scope next rest encounters last) :
      Trace scope visited (selection :: rest) (⟨selection, false⟩ :: encounters) last
  | taken {visited selection rest next inner below middle encounters last}
      (enters : scope.enter visited selection = (next, some inner))
      (body : Trace scope next inner below middle)
      (tail : Trace scope middle rest encounters last) :
      Trace scope visited (selection :: rest) (⟨selection, true⟩ :: (below ++ encounters)) last

namespace Scope

variable {scope : Scope} {visited next : List String} {selection : Selection}
  {inner? : Option (List Selection)} {fragment : String}

/-! ## One encounter -/

/-- A spread is remembered, whatever becomes of it. -/
theorem mem_enter_iff (enters : scope.enter visited selection = (next, inner?)) (taken : Bool) :
    fragment ∈ next ↔
      fragment ∈ visited ∨ (Encounter.mk selection taken).spread? = some fragment := by
  cases selection with
  | field | inlineFragment =>
      obtain ⟨rfl, -⟩ := Prod.mk.inj enters
      simp [Encounter.spread?]
  | spread name directives =>
      by_cases hmet : name ∈ visited
      · rw [enter, if_pos hmet] at enters
        obtain ⟨rfl, -⟩ := Prod.mk.inj enters
        simp only [Encounter.spread?, Option.some.injEq, iff_self_or]
        rintro rfl
        exact hmet
      · rw [enter, if_neg hmet] at enters
        obtain ⟨rfl, -⟩ := Prod.mk.inj enters
        simp [Encounter.spread?, or_comm, eq_comm]

/-- A fragment is opened only if no spread of it was met before. -/
theorem notMem_of_opened? {inner : List Selection}
    (enters : scope.enter visited selection = (next, some inner))
    (opens : (Encounter.mk selection true).opened? = some fragment) : fragment ∉ visited := by
  cases selection with
  | field | inlineFragment => cases opens
  | spread name directives =>
      obtain rfl : name = fragment := Option.some.inj opens
      intro hmet
      rw [enter, if_pos hmet] at enters
      cases enters

/-- What is inside of a selection that is met is paid for by the selection, or by a fragment that is
opened for the first time. -/
theorem enter_le (enters : scope.enter visited selection = (next, inner?)) :
    1 + Selection.weights (inner?.getD []) + scope.unopened Selection.weights next ≤
      selection.weight + scope.unopened Selection.weights visited := by
  cases selection with
  | field head selections =>
      obtain ⟨rfl, rfl⟩ := Prod.mk.inj enters
      split <;> simp [Selection.weights, Selection.weight]
  | inlineFragment condition? directives selections =>
      obtain ⟨rfl, rfl⟩ := Prod.mk.inj enters
      split <;> simp [Selection.weights, Selection.weight]
  | spread name directives =>
      by_cases hmet : name ∈ visited
      · rw [enter, if_pos hmet] at enters
        obtain ⟨rfl, rfl⟩ := Prod.mk.inj enters
        simp [Selection.weights, Selection.weight]
      · rw [enter, if_neg hmet] at enters
        obtain ⟨rfl, rfl⟩ := Prod.mk.inj enters
        cases hopens : scope.spreadSelections? name directives with
        | none =>
            have hless : scope.unopened Selection.weights (name :: visited) ≤
                scope.unopened Selection.weights visited := unopened_cons_le Selection.weights
            simpa [Selection.weights, Selection.weight] using hless
        | some body =>
            obtain ⟨definition, found, rfl⟩ := selections_of_spreadSelections? hopens
            have hless := unopened_cons_of_found found hmet Selection.weights
            simp only [Option.getD_some, Selection.weight]
            omega

namespace Trace

variable {last : List String} {selections : List Selection} {encounters : List Encounter}

/-! ## Whole walks -/

theorem deterministic (h : scope.Trace visited selections encounters last)
    {others : List Encounter} {last' : List String}
    (h' : scope.Trace visited selections others last') : others = encounters ∧ last' = last := by
  induction h generalizing others last' with
  | nil =>
      cases h'
      exact ⟨rfl, rfl⟩
  | passed passes _ ih =>
      cases h' with
      | passed passes' tail =>
          cases passes.symm.trans passes'
          obtain ⟨rfl, rfl⟩ := ih tail
          exact ⟨rfl, rfl⟩
      | taken enters => cases passes.symm.trans enters
  | taken enters _ _ ihbody ih =>
      cases h' with
      | passed passes => cases enters.symm.trans passes
      | taken enters' body tail =>
          cases enters.symm.trans enters'
          obtain ⟨rfl, rfl⟩ := ihbody body
          obtain ⟨rfl, rfl⟩ := ih tail
          exact ⟨rfl, rfl⟩

/-- The fragments that have been met at the end are those that had been met at the beginning and
those of the spreads that were met on the way. -/
theorem mem_last_iff (h : scope.Trace visited selections encounters last) :
    fragment ∈ last ↔ fragment ∈ visited ∨ fragment ∈ encounters.filterMap Encounter.spread? := by
  induction h with
  | nil => simp
  | passed passes _ ih =>
      rw [ih, mem_enter_iff passes false]
      simp [or_assoc]
  | taken enters _ _ ihbody ih =>
      rw [ih, ihbody, mem_enter_iff enters true]
      simp [or_assoc, or_and_right, exists_or]

theorem mem_last_of_opened (h : scope.Trace visited selections encounters last)
    (hopened : fragment ∈ encounters.filterMap Encounter.opened?) : fragment ∈ last := by
  obtain ⟨encounter, hmem, hopens⟩ := List.mem_filterMap.mp hopened
  have hspread := Encounter.spread?_of_opened? hopens
  exact h.mem_last_iff.mpr (.inr (List.mem_filterMap.mpr ⟨encounter, hmem, hspread⟩))

/-- No fragment is opened twice, and none that had been met at the beginning. -/
theorem opened_new (h : scope.Trace visited selections encounters last) :
    (encounters.filterMap Encounter.opened?).Nodup ∧
      ∀ fragment ∈ encounters.filterMap Encounter.opened?, fragment ∉ visited := by
  induction h with
  | nil => simp
  | @passed _ selection _ _ _ _ passes _ ih =>
      have hnone : (Encounter.mk selection false).opened? = none := by cases selection <;> rfl
      rw [List.filterMap_cons_none hnone]
      refine ⟨ih.1, fun fragment hmem hvisited => ih.2 fragment hmem ?_⟩
      exact (mem_enter_iff passes false).mpr (.inl hvisited)
  | @taken visited selection _ next _ below middle encounters _ enters body tail ihbody ih =>
      have hnext {fragment} (hvisited : fragment ∈ visited) : fragment ∈ next :=
        (mem_enter_iff enters true).mpr (.inl hvisited)
      have hmiddle {fragment} (hmet : fragment ∈ next) : fragment ∈ middle :=
        body.mem_last_iff.mpr (.inl hmet)
      -- What is opened inside has been met before what comes after.
      have hinside : ((below ++ encounters).filterMap Encounter.opened?).Nodup ∧
          ∀ fragment ∈ (below ++ encounters).filterMap Encounter.opened?, fragment ∉ next := by
        rw [List.filterMap_append]
        refine ⟨List.nodup_append.mpr ⟨ihbody.1, ih.1, ?_⟩, List.forall_mem_append.mpr ⟨?_, ?_⟩⟩
        · rintro fragment hbelow _ hlater rfl
          exact ih.2 fragment hlater (body.mem_last_of_opened hbelow)
        · exact ihbody.2
        · exact fun fragment hlater hmet => ih.2 fragment hlater (hmiddle hmet)
      cases hopens : (Encounter.mk selection true).opened? with
      | none =>
          rw [List.filterMap_cons_none hopens]
          exact ⟨hinside.1, fun fragment hmem hvisited => hinside.2 fragment hmem (hnext hvisited)⟩
      | some name =>
          have hname : name ∈ next :=
            (mem_enter_iff enters true).mpr (.inr (Encounter.spread?_of_opened? hopens))
          rw [List.filterMap_cons_some hopens]
          refine ⟨List.nodup_cons.mpr ⟨fun hmem => hinside.2 name hmem hname, hinside.1⟩,
            List.forall_mem_cons.mpr ⟨notMem_of_opened? enters hopens, ?_⟩⟩
          exact fun fragment hmem hvisited => hinside.2 fragment hmem (hnext hvisited)

/-- With each encounter there is less left to meet. -/
theorem length_add_le (h : scope.Trace visited selections encounters last) :
    encounters.length + scope.unopened Selection.weights last ≤
      Selection.weights selections + scope.unopened Selection.weights visited := by
  induction h with
  | nil => simp [Selection.weights]
  | passed passes _ ih =>
      have hstep := enter_le passes
      simp only [Option.getD_none, Selection.weights] at hstep
      simp only [List.length_cons, Selection.weights]
      omega
  | taken enters _ _ ihbody ih =>
      have hstep := enter_le enters
      simp only [Option.getD_some] at hstep
      simp only [List.length_cons, List.length_append, Selection.weights]
      omega

end Trace

variable {selections : List Selection} {nodes : List FieldNode} {last : List String}

/-- The fields that a walk finds are the fields that are taken. -/
theorem Walk.exists_trace (h : scope.Walk visited selections nodes last) :
    ∃ encounters, scope.Trace visited selections encounters last ∧
      encounters.filterMap Encounter.node? = nodes := by
  induction h with
  | nil visited => exact ⟨[], .nil visited, rfl⟩
  | field included _ ih =>
      obtain ⟨encounters, htrace, rfl⟩ := ih
      exact ⟨_, .taken (by rw [enter, if_pos included]) (.nil _) htrace, rfl⟩
  | excluded excluded _ ih =>
      obtain ⟨encounters, htrace, rfl⟩ := ih
      exact ⟨_, .passed (by rw [enter, excluded]; rfl) htrace, rfl⟩
  | again met _ ih =>
      obtain ⟨encounters, htrace, rfl⟩ := ih
      exact ⟨_, .passed (by rw [enter, if_pos met]) htrace, rfl⟩
  | spread new opens _ _ ihbody ih =>
      obtain ⟨below, hbody, rfl⟩ := ihbody
      obtain ⟨encounters, htrace, rfl⟩ := ih
      refine ⟨_, .taken (by rw [enter, if_neg new, opens]) hbody htrace, ?_⟩
      rw [List.filterMap_cons_none rfl, List.filterMap_append]
  | dropped new closed _ ih =>
      obtain ⟨encounters, htrace, rfl⟩ := ih
      exact ⟨_, .passed (by rw [enter, if_neg new, closed]) htrace, rfl⟩
  | inline opens _ _ ihbody ih =>
      obtain ⟨below, hbody, rfl⟩ := ihbody
      obtain ⟨encounters, htrace, rfl⟩ := ih
      refine ⟨_, .taken (by rw [enter, if_pos opens]) hbody htrace, ?_⟩
      rw [List.filterMap_cons_none rfl, List.filterMap_append]
  | closed closed _ ih =>
      obtain ⟨encounters, htrace, rfl⟩ := ih
      exact ⟨_, .passed (by rw [enter, closed]; rfl) htrace, rfl⟩

/-- Collecting comes to an end, after no more encounters than there are selections in what it
starts from and in the fragments that have not been met. It walks through the selections of no
fragment twice, and of none that had been met before it. The fragments that have been met then are
those that had been met before and those of the spreads that it has met. -/
theorem collect_opensOnce (scope : Scope) (visited : List String) (selections : List Selection) :
    ∃ encounters last, scope.Trace visited selections encounters last ∧
      (∀ others last', scope.Trace visited selections others last' →
        others = encounters ∧ last' = last) ∧
      (∀ groups, scope.collect ⟨visited, groups⟩ selections =
        ⟨last, FieldGroup.addAll groups (encounters.filterMap Encounter.node?)⟩) ∧
      encounters.length ≤
        Selection.weights selections + scope.unopened Selection.weights visited ∧
      (encounters.filterMap Encounter.opened?).Nodup ∧
      (∀ fragment ∈ encounters.filterMap Encounter.opened?, fragment ∉ visited) ∧
      ∀ fragment, fragment ∈ last ↔
        fragment ∈ visited ∨ fragment ∈ encounters.filterMap Encounter.spread? := by
  obtain ⟨nodes, last, hwalk⟩ := scope.exists_walk visited selections
  obtain ⟨encounters, htrace, rfl⟩ := hwalk.exists_trace
  obtain ⟨hdistinct, hnew⟩ := htrace.opened_new
  have hlength := htrace.length_add_le
  exact ⟨encounters, last, htrace, fun _ _ => htrace.deterministic, hwalk.collect_eq, by omega,
    hdistinct, hnew, fun _ => htrace.mem_last_iff⟩

end Scope

namespace Sample

/-- `fragment F on Query { ...G ...F }` and `fragment G on Query { ...F ...H }` -/
def circles : Scope where
  includes _ := true
  applies _ := true
  fragments :=
    ⟨[⟨"F", "Query", [.spread "G" [], .spread "F" []]⟩,
      ⟨"G", "Query", [.spread "F" [], .spread "H" []]⟩], by decide⟩

example : (circles.collect {} [.spread "F" []]).visited = ["H", "G", "F"] := by cbv

end Sample

end GraphQL
