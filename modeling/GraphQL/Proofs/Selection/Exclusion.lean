import GraphQL.Proofs.Selection.Walk

/-! # Excluded selections

Fields and inline fragments that are excluded by their directives make no difference to what is
collected: they may as well be deleted, here and in fragments. With a spread it is otherwise. An
excluded spread counts as met, and keeps a later spread of the same fragment from being followed. It
may be deleted if the fragment is not met in an included spread as well. -/

namespace GraphQL

/-! ## Deleting what is excluded -/

mutual

/-- The selection, with everything deleted in it that is excluded, or nothing if it is excluded
itself. Spreads are deleted unless they are kept. -/
def Selection.prune (includes keeps : List Directive → Bool) : Selection → List Selection
  | .field head selections =>
    if includes head.directives then [.field head (Selection.pruneAll includes keeps selections)]
    else []
  | .spread fragment directives =>
    if keeps directives then [.spread fragment directives] else []
  | .inlineFragment condition? directives selections =>
    if includes directives then
      [.inlineFragment condition? directives (Selection.pruneAll includes keeps selections)]
    else []

def Selection.pruneAll (includes keeps : List Directive → Bool) : List Selection → List Selection
  | [] => []
  | selection :: rest => selection.prune includes keeps ++ Selection.pruneAll includes keeps rest

end

def FieldNode.prune (includes keeps : List Directive → Bool) (node : FieldNode) : FieldNode :=
  { node with selections := Selection.pruneAll includes keeps node.selections }

def FieldGroup.prune (includes keeps : List Directive → Bool) (group : FieldGroup) : FieldGroup :=
  ⟨group.key, group.first.prune includes keeps, group.rest.map (FieldNode.prune includes keeps)⟩

def Fragment.prune (includes keeps : List Directive → Bool) (fragment : Fragment) : Fragment :=
  { fragment with selections := Selection.pruneAll includes keeps fragment.selections }

/-- Changes entries without renaming them. -/
def Catalog.mapEntries {α : Type} [Named α] (change : α → α)
    (named : ∀ entry, Named.name (change entry) = Named.name entry) (catalog : Catalog α) :
    Catalog α where
  entries := catalog.entries.map change
  distinct := by simpa [Function.comp_def, named] using catalog.distinct

theorem Catalog.find?_mapEntries {α : Type} [Named α] {change : α → α}
    (named : ∀ entry, Named.name (change entry) = Named.name entry) (catalog : Catalog α)
    (name : String) :
    (catalog.mapEntries change named).find? name = (catalog.find? name).map change := by
  simp only [find?, mapEntries, List.find?_map, Function.comp_def, named]

theorem Fragment.name_prune (includes keeps : List Directive → Bool) (fragment : Fragment) :
    Named.name (fragment.prune includes keeps) = Named.name fragment := rfl

/-- The scope with everything excluded deleted from its fragments. -/
def Scope.prune (scope : Scope) (keeps : List Directive → Bool) : Scope :=
  { scope with
    fragments := scope.fragments.mapEntries (Fragment.prune scope.includes keeps)
      (Fragment.name_prune scope.includes keeps) }

/-- Collecting the fields of selections may meet a spread: it stands among them, or where an inline
fragment or an included spread leads. -/
inductive Scope.Meets (scope : Scope) : List Selection → String → List Directive → Prop
  | here {fragment directives rest} :
      Meets scope (.spread fragment directives :: rest) fragment directives
  | later {selection rest fragment directives} (h : Meets scope rest fragment directives) :
      Meets scope (selection :: rest) fragment directives
  | inline {condition? directives' selections rest fragment directives}
      (opens : scope.opensInline condition? directives' = true)
      (h : Meets scope selections fragment directives) :
      Meets scope (.inlineFragment condition? directives' selections :: rest) fragment directives
  | spread {fragment' directives' body rest fragment directives}
      (opens : scope.spreadSelections? fragment' directives' = some body)
      (h : Meets scope body fragment directives) :
      Meets scope (.spread fragment' directives' :: rest) fragment directives

section

variable {scope : Scope} {keeps : List Directive → Bool}

theorem FieldGroup.map_prune_add (includes keeps : List Directive → Bool) (node : FieldNode)
    (groups : List FieldGroup) :
    (add node groups).map (prune includes keeps) =
      add (node.prune includes keeps) (groups.map (prune includes keeps)) := by
  have hkey : (node.prune includes keeps).key = node.key := rfl
  induction groups with
  | nil => rfl
  | cons group rest ih =>
      by_cases h : group.key = node.key
      · simp [add, prune, h, hkey]
      · simp [add, prune, h, hkey, ← ih]

theorem FieldGroup.map_prune_addAll (includes keeps : List Directive → Bool)
    (groups : List FieldGroup) (nodes : List FieldNode) :
    (addAll groups nodes).map (prune includes keeps) =
      addAll (groups.map (prune includes keeps)) (nodes.map (FieldNode.prune includes keeps)) := by
  induction nodes generalizing groups with
  | nil => rfl
  | cons node rest ih => simp [ih, map_prune_add]

namespace Scope

theorem find?_prune (fragment : String) :
    (scope.prune keeps).fragments.find? fragment =
      (scope.fragments.find? fragment).map (Fragment.prune scope.includes keeps) :=
  Catalog.find?_mapEntries (Fragment.name_prune scope.includes keeps) scope.fragments fragment

/-- A spread stands for what is left of the body of its fragment. -/
theorem spreadSelections?_prune (fragment : String) (directives : List Directive) :
    (scope.prune keeps).spreadSelections? fragment directives =
      (scope.spreadSelections? fragment directives).map
        (Selection.pruneAll scope.includes keeps) := by
  have hincludes : (scope.prune keeps).includes = scope.includes := rfl
  have happlies : (scope.prune keeps).applies = scope.applies := rfl
  simp only [spreadSelections?, find?_prune, hincludes, happlies]
  cases scope.includes directives with
  | false => rfl
  | true =>
      cases scope.fragments.find? fragment with
      | none => rfl
      | some definition => cases h : scope.applies definition.condition <;> simp [Fragment.prune, h]

end Scope

/-! ## Walks through what is left -/

/-- Two walks have met the same of those fragments that are spread somewhere without being
excluded. -/
def SameLive (includes : List Directive → Bool) (met : String → List Directive → Prop)
    (visited visited' : List String) : Prop :=
  ∀ fragment directives, met fragment directives → includes directives = true →
    (fragment ∈ visited ↔ fragment ∈ visited')

namespace SameLive

variable {includes : List Directive → Bool} {met : String → List Directive → Prop}
  {visited visited' : List String}

theorem cons (h : SameLive includes met visited visited') (fragment : String) :
    SameLive includes met (fragment :: visited) (fragment :: visited') := by
  intro other directives hmet hincluded
  simp only [List.mem_cons, h other directives hmet hincluded]

theorem cons_right (h : SameLive includes met visited visited') {fragment : String}
    (excluded : ∀ directives, met fragment directives → includes directives = false) :
    SameLive includes met visited (fragment :: visited') := by
  intro other directives hmet hincluded
  have hne : other ≠ fragment := by
    rintro rfl
    simp [excluded directives hmet] at hincluded
  simp only [List.mem_cons, hne, false_or, h other directives hmet hincluded]

/-- Meeting a fragment that all spreads exclude makes no difference. -/
theorem cons_left (h : SameLive includes met visited visited') {fragment : String}
    (excluded : ∀ directives, met fragment directives → includes directives = false) :
    SameLive includes met (fragment :: visited) visited' := by
  intro other directives hmet hincluded
  have hne : other ≠ fragment := by
    rintro rfl
    simp [excluded directives hmet] at hincluded
  simp only [List.mem_cons, hne, false_or, h other directives hmet hincluded]

end SameLive

/-- A spread is kept if some spread of its fragment is included. -/
theorem keeps_or_excluded {met : String → List Directive → Prop}
    (safe : ∀ fragment directives, met fragment directives → keeps directives = false →
      ∀ directives', met fragment directives' → scope.includes directives' = false)
    {fragment : String} {directives : List Directive} (hmet : met fragment directives) :
    (keeps directives = true ∧
        ∃ directives', met fragment directives' ∧ scope.includes directives' = true) ∨
      ∀ directives', met fragment directives' → scope.includes directives' = false := by
  by_cases hlive : ∃ directives', met fragment directives' ∧ scope.includes directives' = true
  · refine .inl ⟨?_, hlive⟩
    obtain ⟨directives', hmet', hincluded⟩ := hlive
    cases hkeeps : keeps directives with
    | true => rfl
    | false => simp [safe fragment directives hmet hkeeps directives' hmet'] at hincluded
  · refine .inr fun directives' hmet' => ?_
    cases hincluded : scope.includes directives' with
    | false => rfl
    | true => exact absurd ⟨directives', hmet', hincluded⟩ hlive

namespace Scope.Walk

/-- A spread that is excluded is passed over, whether or not it is kept. -/
theorem pass_excluded {met : String → List Directive → Prop} {fragment : String}
    {directives : List Directive} (excluded : scope.includes directives = false)
    (dead : ∀ directives', met fragment directives' → scope.includes directives' = false)
    {visited last visited' : List String} {rest : List Selection} {nodes : List FieldNode}
    (same : SameLive scope.includes met visited visited')
    (tail : ∀ visited', SameLive scope.includes met visited visited' →
      ∃ last', (scope.prune keeps).Walk visited' rest nodes last' ∧
        SameLive scope.includes met last last') :
    ∃ last', (scope.prune keeps).Walk visited'
        (Selection.prune scope.includes keeps (.spread fragment directives) ++ rest) nodes last' ∧
      SameLive scope.includes met last last' := by
  rw [Selection.prune]
  by_cases hkeeps : keeps directives = true
  · by_cases hmem : fragment ∈ visited'
    · obtain ⟨last', hwalk, hlast⟩ := tail visited' same
      exact ⟨last', by simpa [hkeeps] using hwalk.again hmem, hlast⟩
    · have hclosed : (scope.prune keeps).spreadSelections? fragment directives = none := by
        rw [spreadSelections?_prune, spreadSelections?_of_excluded excluded]
        rfl
      obtain ⟨last', hwalk, hlast⟩ := tail (fragment :: visited') (same.cons_right dead)
      exact ⟨last', by simpa [hkeeps] using hwalk.dropped hmem hclosed, hlast⟩
  · simpa [hkeeps] using tail visited' same

/-- The walk through what is left finds what is left of the same fields. It is enough that the
spreads that are deleted belong to fragments which all spreads exclude. -/
theorem prune {met : String → List Directive → Prop}
    (safe : ∀ fragment directives, met fragment directives → keeps directives = false →
      ∀ directives', met fragment directives' → scope.includes directives' = false)
    {visited last visited' : List String} {selections : List Selection} {nodes : List FieldNode}
    (h : scope.Walk visited selections nodes last)
    (hmet : ∀ fragment directives, scope.Meets selections fragment directives →
      met fragment directives)
    (same : SameLive scope.includes met visited visited') :
    ∃ last', (scope.prune keeps).Walk visited' (Selection.pruneAll scope.includes keeps selections)
        (nodes.map (FieldNode.prune scope.includes keeps)) last' ∧
      SameLive scope.includes met last last' := by
  induction h generalizing visited' with
  | nil => exact ⟨visited', .nil visited', same⟩
  | field included _ ih =>
      obtain ⟨last', hwalk, hlast⟩ := ih (fun _ _ hmeets => hmet _ _ (.later hmeets)) same
      refine ⟨last', ?_, hlast⟩
      simp only [Selection.pruneAll, Selection.prune, included, ite_true]
      exact .field included hwalk
  | excluded excluded _ ih =>
      obtain ⟨last', hwalk, hlast⟩ := ih (fun _ _ hmeets => hmet _ _ (.later hmeets)) same
      refine ⟨last', ?_, hlast⟩
      simpa [Selection.pruneAll, Selection.prune, excluded] using hwalk
  | again hagain _ ih =>
      have htail {visited'} := @ih visited' fun _ _ hmeets => hmet _ _ (.later hmeets)
      rcases keeps_or_excluded safe (hmet _ _ .here) with ⟨hkeeps, _, hlive, hincluded⟩ | hdead
      · obtain ⟨last', hwalk, hlast⟩ := htail same
        refine ⟨last', ?_, hlast⟩
        -- Some spread of the fragment is included, so both walks agree on having met it.
        simp only [Selection.pruneAll, Selection.prune, hkeeps, ite_true]
        exact .again ((same _ _ hlive hincluded).mp hagain) hwalk
      · exact pass_excluded (hdead _ (hmet _ _ .here)) hdead same fun _ => htail
  | spread new opens _ _ ihbody ih =>
      have hincluded := includes_of_spreadSelections? opens
      rcases keeps_or_excluded safe (hmet _ _ .here) with ⟨hkeeps, -⟩ | hdead
      · have hnew := (not_congr (same _ _ (hmet _ _ .here) hincluded)).mp new
        obtain ⟨middle', hbody, hmiddle⟩ :=
          ihbody (fun _ _ hmeets => hmet _ _ (.spread opens hmeets)) (same.cons _)
        obtain ⟨last', htail, hlast⟩ := ih (fun _ _ hmeets => hmet _ _ (.later hmeets)) hmiddle
        refine ⟨last', ?_, hlast⟩
        simp only [Selection.pruneAll, Selection.prune, hkeeps, ite_true, List.map_append]
        refine .spread hnew ?_ hbody htail
        simp [spreadSelections?_prune, opens]
      · simp [hdead _ (hmet _ _ .here)] at hincluded
  | dropped new closed _ ih =>
      have htail {visited'} := @ih visited' fun _ _ hmeets => hmet _ _ (.later hmeets)
      rcases keeps_or_excluded safe (hmet _ _ .here) with ⟨hkeeps, _, hlive, hincluded⟩ | hdead
      · have hnew := (not_congr (same _ _ hlive hincluded)).mp new
        obtain ⟨last', hwalk, hlast⟩ := htail (same.cons _)
        refine ⟨last', ?_, hlast⟩
        simp only [Selection.pruneAll, Selection.prune, hkeeps, ite_true]
        refine .dropped hnew ?_ hwalk
        simp [spreadSelections?_prune, closed]
      · exact pass_excluded (hdead _ (hmet _ _ .here)) hdead (same.cons_left hdead) fun _ => htail
  | inline opens _ _ ihbody ih =>
      obtain ⟨middle', hbody, hmiddle⟩ :=
        ihbody (fun _ _ hmeets => hmet _ _ (.inline opens hmeets)) same
      obtain ⟨last', htail, hlast⟩ := ih (fun _ _ hmeets => hmet _ _ (.later hmeets)) hmiddle
      obtain ⟨hincluded, -⟩ := Bool.and_eq_true_iff.mp opens
      refine ⟨last', ?_, hlast⟩
      simp only [Selection.pruneAll, Selection.prune, hincluded, ite_true, List.map_append]
      exact .inline opens hbody htail
  | @closed visited condition? directives selections rest _ _ closed _ ih =>
      obtain ⟨last', htail, hlast⟩ := ih (fun _ _ hmeets => hmet _ _ (.later hmeets)) same
      refine ⟨last', ?_, hlast⟩
      cases hincluded : scope.includes directives with
      | true =>
          simp only [Selection.pruneAll, Selection.prune, hincluded, ite_true]
          exact .closed closed htail
      | false => simpa [Selection.pruneAll, Selection.prune, hincluded] using htail

end Scope.Walk

/-- What is left of selections is collected into what is left of the groups. -/
theorem Scope.collectFields_pruneAll {selections : List Selection}
    (safe : ∀ fragment directives, scope.Meets selections fragment directives →
      keeps directives = false → ∀ directives', scope.Meets selections fragment directives' →
        scope.includes directives' = false) :
    (scope.prune keeps).collectFields (Selection.pruneAll scope.includes keeps selections) =
      (scope.collectFields selections).map (FieldGroup.prune scope.includes keeps) := by
  obtain ⟨nodes, last, hwalk⟩ := scope.exists_walk [] selections
  obtain ⟨last', hpruned, -⟩ := hwalk.prune safe (fun _ _ hmeets => hmeets) fun _ _ _ _ => Iff.rfl
  rw [hwalk.collectFields_eq, hpruned.collectFields_eq, FieldGroup.map_prune_addAll]
  rfl

end

/-- Selections that are excluded by their directives may be deleted at every depth, without changing
what is collected: all fields and inline fragments in any case, and spreads too, provided that no
fragment is met both in an excluded and in an included spread. -/
theorem Scope.collectFields_pruned (scope : Scope) (selections : List Selection) :
    (scope.prune fun _ => true).collectFields
        (Selection.pruneAll scope.includes (fun _ => true) selections) =
      (scope.collectFields selections).map (FieldGroup.prune scope.includes fun _ => true) ∧
    ((∀ fragment directives directives', scope.Meets selections fragment directives →
        scope.Meets selections fragment directives' →
          scope.includes directives = scope.includes directives') →
      (scope.prune scope.includes).collectFields
          (Selection.pruneAll scope.includes scope.includes selections) =
        (scope.collectFields selections).map (FieldGroup.prune scope.includes scope.includes)) := by
  constructor
  · exact collectFields_pruneAll nofun
  · intro agree
    apply collectFields_pruneAll
    intro fragment directives hmeets hexcluded directives' hmeets'
    rw [← agree fragment directives directives' hmeets hmeets', hexcluded]

/-! ## A fragment on a small schema -/

namespace Sample

def letters : ObjectType :=
  { name := "Query", fields := ⟨[{ name := "a", type := .named "Int" false }], by decide⟩ }

def letterSchema : Schema :=
  { query? := some "Query"
    types := ⟨[.scalar "Int", .scalar "Boolean", .object letters], by decide⟩
    directives :=
      ⟨[{ name := "skip", arguments := [{ name := "if", type := .named "Boolean" true }] }],
        by decide⟩ }

def skipTrue : Directive := { name := "skip", arguments := [("if", .bool true)] }

def letterHead : FieldHead := { name := "a", location := ⟨1, 53⟩ }

/-- The scope of queries in a document with `fragment F on Query { a }`. -/
def letterScope : Scope where
  includes := letterSchema.includes []
  applies := letterSchema.conditionApplies letters
  fragments := ⟨[⟨"F", "Query", [.field letterHead []]⟩], by decide⟩

theorem excluded_skipTrue : letterScope.includes [skipTrue] = false := by rfl

theorem included_nil : letterScope.includes [] = true := by rfl

theorem opens_letters : letterScope.spreadSelections? "F" [] = some [.field letterHead []] := by
  rfl

/-- The selections of `{ a @skip(if: true) ...F }`. -/
def letterSelections : List Selection :=
  [.field { letterHead with directives := [skipTrue] } [], .spread "F" []]

theorem meets_letters {fragment : String} {directives : List Directive}
    (h : letterScope.Meets letterSelections fragment directives) : directives = [] := by
  cases h with
  | later h =>
      cases h with
      | here => rfl
      | later h => cases h
      | spread opens h =>
          cases opens_letters.symm.trans opens
          cases h with
          | later h => cases h

theorem letters_pruned :
    (letterScope.prune fun _ => true).collectFields
        (Selection.pruneAll letterScope.includes (fun _ => true) letterSelections) =
      (letterScope.collectFields letterSelections).map
        (FieldGroup.prune letterScope.includes fun _ => true) ∧
    (letterScope.prune letterScope.includes).collectFields
        (Selection.pruneAll letterScope.includes letterScope.includes letterSelections) =
      (letterScope.collectFields letterSelections).map
        (FieldGroup.prune letterScope.includes letterScope.includes) := by
  obtain ⟨hkept, hdeleted⟩ := letterScope.collectFields_pruned letterSelections
  refine ⟨hkept, hdeleted fun fragment directives directives' hmeets hmeets' => ?_⟩
  rw [meets_letters hmeets, meets_letters hmeets']

/-- In `{ ...F @skip(if: true) ...F }` the excluded spread hides the fields of the other one. They
are collected once the excluded spread is deleted. -/
theorem excluded_spread_hides :
    letterScope.collectFields [.spread "F" [skipTrue], .spread "F" []] = [] ∧
    (letterScope.prune letterScope.includes).collectFields
        (Selection.pruneAll letterScope.includes letterScope.includes
          [.spread "F" [skipTrue], .spread "F" []]) =
      [⟨"a", ⟨letterHead, []⟩, []⟩] := by
  constructor
  · have hwalk : letterScope.Walk [] [.spread "F" [skipTrue], .spread "F" []] [] ["F"] :=
      .dropped List.not_mem_nil (Scope.spreadSelections?_of_excluded excluded_skipTrue)
        (.again List.mem_cons_self (.nil _))
    exact hwalk.collectFields_eq
  · have hwalk : (letterScope.prune letterScope.includes).Walk [] [.spread "F" []]
        [⟨letterHead, []⟩] ["F"] :=
      .spread List.not_mem_nil rfl (.field included_nil (.nil _)) (.nil _)
    exact hwalk.collectFields_eq

end Sample

end GraphQL
