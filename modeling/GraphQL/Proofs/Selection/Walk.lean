import GraphQL.Proofs.Selection.Grouping

/-! # Walks through selections

Collecting fields goes through selections in the order of the document and opens fragments on the
way. The rules say which fields are met on such a walk; collecting puts them into groups, in the
order in which they are met. -/

namespace GraphQL

/-! ## What a spread stands for -/

namespace Scope

variable {scope : Scope} {fragment : String} {definition : Fragment} {directives : List Directive}

theorem spreadSelections?_of_excluded (excluded : scope.includes directives = false) :
    scope.spreadSelections? fragment directives = none := by
  simp [spreadSelections?, excluded]

theorem spreadSelections?_of_undefined (undefined : scope.fragments.find? fragment = none) :
    scope.spreadSelections? fragment directives = none := by
  simp [spreadSelections?, undefined]

/-- An included spread of a fragment is opened like an inline fragment on its type. -/
theorem spreadSelections?_of_found (found : scope.fragments.find? fragment = some definition)
    (included : scope.includes directives = true) :
    scope.spreadSelections? fragment directives =
      if scope.opensInline (some definition.condition) directives then some definition.selections
      else none := by
  simp [spreadSelections?, opensInline, found, included]

theorem includes_of_spreadSelections? {body : List Selection}
    (h : scope.spreadSelections? fragment directives = some body) :
    scope.includes directives = true := by
  cases hincludes : scope.includes directives with
  | true => rfl
  | false => simp [spreadSelections?_of_excluded hincludes] at h

theorem selections_of_spreadSelections? {fragment : String} {directives : List Directive}
    {body : List Selection} (h : scope.spreadSelections? fragment directives = some body) :
    ∃ definition, scope.fragments.find? fragment = some definition ∧
      definition.selections = body := by
  obtain ⟨definition, found⟩ := find?_of_spreadSelections? h
  rw [spreadSelections?_of_found found (includes_of_spreadSelections? h),
    Option.ite_none_right_eq_some] at h
  exact ⟨definition, found, Option.some.inj h.2⟩

end Scope

/-! ## Walks -/

/-- A walk through selections, from the fragments that have been met before it to those that have
been met after it, with the fields that it finds. The rules do not group the fields. -/
inductive Scope.Walk (scope : Scope) :
    List String → List Selection → List FieldNode → List String → Prop
  | nil (visited) : Walk scope visited [] [] visited
  | field {visited head selections rest nodes last}
      (included : scope.includes head.directives = true)
      (tail : Walk scope visited rest nodes last) :
      Walk scope visited (.field head selections :: rest) (⟨head, selections⟩ :: nodes) last
  | excluded {visited head selections rest nodes last}
      (excluded : scope.includes head.directives = false)
      (tail : Walk scope visited rest nodes last) :
      Walk scope visited (.field head selections :: rest) nodes last
  | again {visited fragment directives rest nodes last} (met : fragment ∈ visited)
      (tail : Walk scope visited rest nodes last) :
      Walk scope visited (.spread fragment directives :: rest) nodes last
  | spread {visited fragment directives rest body below middle nodes last}
      (new : fragment ∉ visited)
      (opens : scope.spreadSelections? fragment directives = some body)
      (body : Walk scope (fragment :: visited) body below middle)
      (tail : Walk scope middle rest nodes last) :
      Walk scope visited (.spread fragment directives :: rest) (below ++ nodes) last
  | dropped {visited fragment directives rest nodes last} (new : fragment ∉ visited)
      (closed : scope.spreadSelections? fragment directives = none)
      (tail : Walk scope (fragment :: visited) rest nodes last) :
      Walk scope visited (.spread fragment directives :: rest) nodes last
  | inline {visited condition? directives selections rest below middle nodes last}
      (opens : scope.opensInline condition? directives = true)
      (body : Walk scope visited selections below middle)
      (tail : Walk scope middle rest nodes last) :
      Walk scope visited (.inlineFragment condition? directives selections :: rest)
        (below ++ nodes) last
  | closed {visited condition? directives selections rest nodes last}
      (closed : scope.opensInline condition? directives = false)
      (tail : Walk scope visited rest nodes last) :
      Walk scope visited (.inlineFragment condition? directives selections :: rest) nodes last

namespace Scope.Walk

variable {scope : Scope} {visited last : List String} {selections : List Selection}
  {nodes : List FieldNode}

/-- Walks can be joined. -/
theorem append {first second : List Selection} {middle : List String}
    {nodes later : List FieldNode} (h : scope.Walk visited first nodes middle)
    (hsecond : scope.Walk middle second later last) :
    scope.Walk visited (first ++ second) (nodes ++ later) last := by
  induction h with
  | nil => exact hsecond
  | field included _ ih => exact .field included (ih hsecond)
  | excluded excluded _ ih => exact .excluded excluded (ih hsecond)
  | again met _ ih => exact .again met (ih hsecond)
  | spread new opens body _ _ ih =>
      rw [List.append_assoc]
      exact .spread new opens body (ih hsecond)
  | dropped new closed _ ih => exact .dropped new closed (ih hsecond)
  | inline opens body _ _ ih =>
      rw [List.append_assoc]
      exact .inline opens body (ih hsecond)
  | closed closed _ ih => exact .closed closed (ih hsecond)

/-- A walk through two parts comes to the end of the first part before it enters the second. -/
theorem split {first second : List Selection}
    (h : scope.Walk visited (first ++ second) nodes last) :
    ∃ earlier middle later, scope.Walk visited first earlier middle ∧
      scope.Walk middle second later last ∧ nodes = earlier ++ later := by
  induction first generalizing visited nodes with
  | nil => exact ⟨[], visited, nodes, .nil visited, h, rfl⟩
  | cons selection rest ih =>
      cases h with
      | field included tail =>
          obtain ⟨earlier, middle, later, hfirst, hsecond, rfl⟩ := ih tail
          exact ⟨_, middle, later, .field included hfirst, hsecond, rfl⟩
      | excluded excluded tail =>
          obtain ⟨earlier, middle, later, hfirst, hsecond, rfl⟩ := ih tail
          exact ⟨_, middle, later, .excluded excluded hfirst, hsecond, rfl⟩
      | again met tail =>
          obtain ⟨earlier, middle, later, hfirst, hsecond, rfl⟩ := ih tail
          exact ⟨_, middle, later, .again met hfirst, hsecond, rfl⟩
      | spread new opens body tail =>
          obtain ⟨earlier, middle, later, hfirst, hsecond, rfl⟩ := ih tail
          exact ⟨_, middle, later, .spread new opens body hfirst, hsecond, by simp⟩
      | dropped new closed tail =>
          obtain ⟨earlier, middle, later, hfirst, hsecond, rfl⟩ := ih tail
          exact ⟨_, middle, later, .dropped new closed hfirst, hsecond, rfl⟩
      | inline opens body tail =>
          obtain ⟨earlier, middle, later, hfirst, hsecond, rfl⟩ := ih tail
          exact ⟨_, middle, later, .inline opens body hfirst, hsecond, by simp⟩
      | closed closed tail =>
          obtain ⟨earlier, middle, later, hfirst, hsecond, rfl⟩ := ih tail
          exact ⟨_, middle, later, .closed closed hfirst, hsecond, rfl⟩

theorem deterministic (h : scope.Walk visited selections nodes last) {nodes' : List FieldNode}
    {last' : List String} (h' : scope.Walk visited selections nodes' last') :
    nodes' = nodes ∧ last' = last := by
  induction h generalizing nodes' last' with
  | nil =>
      cases h'
      exact ⟨rfl, rfl⟩
  | field included _ ih =>
      cases h' with
      | field _ tail =>
          obtain ⟨rfl, rfl⟩ := ih tail
          exact ⟨rfl, rfl⟩
      | excluded excluded => simp [included] at excluded
  | excluded excluded _ ih =>
      cases h' with
      | field included => simp [included] at excluded
      | excluded _ tail => exact ih tail
  | again met _ ih =>
      cases h' with
      | again _ tail => exact ih tail
      | spread new => exact absurd met new
      | dropped new => exact absurd met new
  | spread new opens _ _ ihbody ih =>
      cases h' with
      | again met => exact absurd met new
      | spread _ opens' body tail =>
          cases opens.symm.trans opens'
          obtain ⟨rfl, rfl⟩ := ihbody body
          obtain ⟨rfl, rfl⟩ := ih tail
          exact ⟨rfl, rfl⟩
      | dropped _ closed => simp [opens] at closed
  | dropped new closed _ ih =>
      cases h' with
      | again met => exact absurd met new
      | spread _ opens => simp [opens] at closed
      | dropped _ _ tail => exact ih tail
  | inline opens _ _ ihbody ih =>
      cases h' with
      | inline _ body tail =>
          obtain ⟨rfl, rfl⟩ := ihbody body
          obtain ⟨rfl, rfl⟩ := ih tail
          exact ⟨rfl, rfl⟩
      | closed closed => simp [opens] at closed
  | closed closed _ ih =>
      cases h' with
      | inline opens => simp [opens] at closed
      | closed _ tail => exact ih tail

/-- Fragments that have been met stay met. -/
theorem visited_subset (h : scope.Walk visited selections nodes last) : visited ⊆ last := by
  induction h with
  | nil => exact List.Subset.refl _
  | field _ _ ih | excluded _ _ ih | again _ _ ih | closed _ _ ih => exact ih
  | spread _ _ _ _ ihbody ih =>
      exact List.Subset.trans (List.subset_cons_self _ _) (List.Subset.trans ihbody ih)
  | dropped _ _ _ ih => exact List.Subset.trans (List.subset_cons_self _ _) ih
  | inline _ _ _ ihbody ih => exact List.Subset.trans ihbody ih

/-- Fragments of which the walk meets no spread make no difference to it. -/
theorem frame (h : scope.Walk visited selections nodes last) {others : List String}
    (apart : ∀ fragment ∈ others, fragment ∉ last) :
    scope.Walk (visited ++ others) selections nodes (last ++ others) := by
  have hnew {visited last : List String} {fragment : String}
      (hmet : fragment :: visited ⊆ last) (apart : ∀ fragment ∈ others, fragment ∉ last)
      (new : fragment ∉ visited) : fragment ∉ visited ++ others := by
    have hlast : fragment ∈ last := hmet List.mem_cons_self
    intro hmem
    rcases List.mem_append.mp hmem with hmem | hmem
    · exact new hmem
    · exact apart fragment hmem hlast
  induction h with
  | nil => exact .nil _
  | field included _ ih => exact .field included (ih apart)
  | excluded excluded _ ih => exact .excluded excluded (ih apart)
  | again met _ ih => exact .again (List.mem_append_left others met) (ih apart)
  | spread new opens body tail ihbody ih =>
      have hmiddle := tail.visited_subset
      have hbody := ihbody fun fragment hmem hmet => apart fragment hmem (hmiddle hmet)
      have hmet := List.Subset.trans body.visited_subset hmiddle
      exact .spread (hnew hmet apart new) opens hbody (ih apart)
  | dropped new closed tail ih =>
      exact .dropped (hnew tail.visited_subset apart new) closed (ih apart)
  | inline opens body tail ihbody ih =>
      have hmiddle := tail.visited_subset
      have hbody := ihbody fun fragment hmem hmet => apart fragment hmem (hmiddle hmet)
      exact .inline opens hbody (ih apart)
  | closed closed _ ih => exact .closed closed (ih apart)

end Scope.Walk

namespace Scope

variable (scope : Scope)

/-- Collecting is walking and grouping what the walk finds. -/
theorem collect_walk (collected : Collected) (selections : List Selection) :
    ∃ nodes, scope.Walk collected.visited selections nodes
        (scope.collect collected selections).visited ∧
      (scope.collect collected selections).groups = FieldGroup.addAll collected.groups nodes := by
  fun_induction Scope.collect with
  | case1 collected => exact ⟨[], .nil _, rfl⟩
  | case2 collected head selections rest included ih =>
      obtain ⟨nodes, hwalk, hgroups⟩ := ih
      exact ⟨_, .field included hwalk, hgroups⟩
  | case3 collected head selections rest excluded ih =>
      obtain ⟨nodes, hwalk, hgroups⟩ := ih
      exact ⟨nodes, .excluded (by simpa using excluded) hwalk, hgroups⟩
  | case4 collected fragment directives rest met ih =>
      obtain ⟨nodes, hwalk, hgroups⟩ := ih
      exact ⟨nodes, .again met hwalk, hgroups⟩
  | case5 collected fragment directives rest new body opens ih =>
      obtain ⟨nodes, hwalk, hgroups⟩ := ih
      obtain ⟨below, middle, later, hbody, hrest, rfl⟩ := hwalk.split
      exact ⟨_, .spread new opens hbody hrest, hgroups⟩
  | case6 collected fragment directives rest new closed ih =>
      obtain ⟨nodes, hwalk, hgroups⟩ := ih
      exact ⟨nodes, .dropped new closed hwalk, hgroups⟩
  | case7 collected condition? directives selections rest opens ih =>
      obtain ⟨nodes, hwalk, hgroups⟩ := ih
      obtain ⟨below, middle, later, hbody, hrest, rfl⟩ := hwalk.split
      exact ⟨_, .inline opens hbody hrest, hgroups⟩
  | case8 collected condition? directives selections rest closed ih =>
      obtain ⟨nodes, hwalk, hgroups⟩ := ih
      exact ⟨nodes, .closed (by simpa using closed) hwalk, hgroups⟩

variable {scope} {visited last : List String} {selections : List Selection} {nodes : List FieldNode}

/-- Whatever has been collected before, the fields of the walk are added to it. -/
theorem Walk.collect_eq (h : scope.Walk visited selections nodes last)
    (groups : List FieldGroup) :
    scope.collect ⟨visited, groups⟩ selections = ⟨last, FieldGroup.addAll groups nodes⟩ := by
  obtain ⟨found, hwalk, hgroups⟩ := scope.collect_walk ⟨visited, groups⟩ selections
  obtain ⟨rfl, hlast⟩ := h.deterministic hwalk
  rw [← hlast, ← hgroups]

theorem Walk.collectFields_eq (h : scope.Walk [] selections nodes last) :
    scope.collectFields selections = FieldGroup.addAll [] nodes := by
  rw [collectFields, h.collect_eq]

/-- Every walk comes to an end. -/
theorem exists_walk (scope : Scope) (visited : List String) (selections : List Selection) :
    ∃ nodes last, scope.Walk visited selections nodes last := by
  obtain ⟨nodes, hwalk, -⟩ := scope.collect_walk ⟨visited, []⟩ selections
  exact ⟨nodes, _, hwalk⟩

/-! ## What fields inherit -/

/-- What the selections of a fragment have in common with its spreads, and those of an inline
fragment with itself, the fields that a walk finds have in common with the selections. -/
theorem Walk.forall_nodes (h : scope.Walk visited selections nodes last)
    {property : Selection → Prop}
    (hspread : ∀ fragment directives definition, scope.fragments.find? fragment = some definition →
      property (.spread fragment directives) → ∀ selection ∈ definition.selections,
        property selection)
    (hinline : ∀ condition? directives selections,
      property (.inlineFragment condition? directives selections) → ∀ selection ∈ selections,
        property selection)
    (hselections : ∀ selection ∈ selections, property selection) :
    ∀ node ∈ nodes, property (.field node.toFieldHead node.selections) := by
  induction h with
  | nil => simp
  | field _ _ ih =>
      obtain ⟨hfield, hrest⟩ := List.forall_mem_cons.mp hselections
      exact List.forall_mem_cons.mpr ⟨hfield, ih hrest⟩
  | excluded _ _ ih | again _ _ ih | dropped _ _ _ ih | closed _ _ ih =>
      exact ih (List.forall_mem_cons.mp hselections).2
  | spread _ opens _ _ ihbody ih =>
      obtain ⟨hhead, hrest⟩ := List.forall_mem_cons.mp hselections
      obtain ⟨definition, found, rfl⟩ := selections_of_spreadSelections? opens
      exact List.forall_mem_append.mpr
        ⟨ihbody (hspread _ _ definition found hhead), ih hrest⟩
  | inline _ _ _ ihbody ih =>
      obtain ⟨hhead, hrest⟩ := List.forall_mem_cons.mp hselections
      exact List.forall_mem_append.mpr ⟨ihbody (hinline _ _ _ hhead), ih hrest⟩

variable (scope) in
theorem forall_collectFields {property : Selection → Prop}
    (hspread : ∀ fragment directives definition, scope.fragments.find? fragment = some definition →
      property (.spread fragment directives) → ∀ selection ∈ definition.selections,
        property selection)
    (hinline : ∀ condition? directives selections,
      property (.inlineFragment condition? directives selections) → ∀ selection ∈ selections,
        property selection)
    (hselections : ∀ selection ∈ selections, property selection) :
    ∀ group ∈ scope.collectFields selections, ∀ node ∈ group.nodes,
      property (.field node.toFieldHead node.selections) := by
  obtain ⟨nodes, last, hwalk⟩ := scope.exists_walk [] selections
  rw [hwalk.collectFields_eq]
  intro group hmem node hnode
  rw [FieldGroup.nodes_of_mem_addAll hmem] at hnode
  exact hwalk.forall_nodes hspread hinline hselections node (List.mem_filter.mp hnode).1

end Scope

end GraphQL
