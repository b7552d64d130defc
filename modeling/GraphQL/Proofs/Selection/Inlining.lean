import GraphQL.Proofs.Document.Inlining
import GraphQL.Proofs.Selection.Repetition
import GraphQL.Proofs.Selection.Walk

/-! # Collecting inlined selections

Collecting opens each fragment once. With inline fragments in place of spreads, the selections of a
fragment are gone through wherever it is spread. From the second time on they give only fields that
have been met before. -/

namespace GraphQL

namespace Scope

mutual

/-- The fields that a selection without spreads gives. -/
def plainField (scope : Scope) : Selection → List FieldNode
  | .field head selections =>
    if scope.includes head.directives then [⟨head, selections⟩] else []
  | .spread _ _ => []
  | .inlineFragment condition? directives selections =>
    if scope.opensInline condition? directives then scope.plainFields selections else []

def plainFields (scope : Scope) : List Selection → List FieldNode
  | [] => []
  | selection :: rest => scope.plainField selection ++ scope.plainFields rest

end

section

variable {scope : Scope}

theorem plainFields_append (first second : List Selection) :
    scope.plainFields (first ++ second) = scope.plainFields first ++ scope.plainFields second := by
  induction first with
  | nil => rfl
  | cons selection rest ih => simp [plainFields, ih]

theorem plainFields_of_included {head : FieldHead}
    (included : scope.includes head.directives = true) (selections rest : List Selection) :
    scope.plainFields (.field head selections :: rest) =
      ⟨head, selections⟩ :: scope.plainFields rest := by
  simp [plainFields, plainField, included]

theorem plainFields_of_excluded {head : FieldHead}
    (excluded : scope.includes head.directives = false) (selections rest : List Selection) :
    scope.plainFields (.field head selections :: rest) = scope.plainFields rest := by
  simp [plainFields, plainField, excluded]

theorem plainFields_of_opens {condition? : Option String} {directives : List Directive}
    (opens : scope.opensInline condition? directives = true) (selections rest : List Selection) :
    scope.plainFields (.inlineFragment condition? directives selections :: rest) =
      scope.plainFields selections ++ scope.plainFields rest := by
  simp [plainFields, plainField, opens]

theorem plainFields_of_closed {condition? : Option String} {directives : List Directive}
    (closed : scope.opensInline condition? directives = false) (selections rest : List Selection) :
    scope.plainFields (.inlineFragment condition? directives selections :: rest) =
      scope.plainFields rest := by
  simp [plainFields, plainField, closed]

theorem walk_inline {fragments : Catalog Fragment} {condition? : Option String}
    {directives : List Directive} {selections rest : List Selection} {visited : List String}
    (hbelow : ({ scope with fragments } : Scope).Walk visited selections
      (scope.plainFields selections) visited)
    (tail : ({ scope with fragments } : Scope).Walk visited rest (scope.plainFields rest) visited) :
    ({ scope with fragments } : Scope).Walk visited
      (.inlineFragment condition? directives selections :: rest)
      (scope.plainFields (.inlineFragment condition? directives selections :: rest)) visited := by
  cases hopens : scope.opensInline condition? directives with
  | true =>
      rw [plainFields_of_opens hopens]
      exact .inline hopens hbelow tail
  | false =>
      rw [plainFields_of_closed hopens]
      exact .closed hopens tail

/-- Inlined selections need no fragments. -/
theorem walk_inlined {selections selections' : List Selection}
    (h : Inlines scope.includes scope.fragments selections selections')
    (fragments : Catalog Fragment) (visited : List String) :
    ({ scope with fragments } : Scope).Walk visited selections' (scope.plainFields selections')
      visited := by
  induction h with
  | nil => exact .nil visited
  | undefined _ _ ih => exact ih
  | @field head _ _ _ _ _ _ _ ih =>
      cases hincluded : scope.includes head.directives with
      | true =>
          rw [plainFields_of_included hincluded]
          exact .field hincluded ih
      | false =>
          rw [plainFields_of_excluded hincluded]
          exact .excluded hincluded ih
  | spread _ _ _ _ ihbelow ih => exact walk_inline ihbelow ih
  | inline _ _ ihbelow ih => exact walk_inline ihbelow ih

end

end Scope

/-- The same field, with its sub-selections inlined. -/
structure FieldNode.Inlined (includes : List Directive → Bool) (fragments : Catalog Fragment)
    (node node' : FieldNode) : Prop where
  head : node.toFieldHead = node'.toFieldHead
  selections : Inlines includes fragments node.selections node'.selections

theorem FieldNode.Inlined.key {includes : List Directive → Bool} {fragments : Catalog Fragment}
    {node node' : FieldNode} (h : node.Inlined includes fragments node') : node.key = node'.key :=
  congrArg FieldHead.key h.head

/-- All fields of the fragment have been seen, if it has any to give. -/
def Scope.Settled (scope : Scope) (seen : List FieldNode) (fragment : String) : Prop :=
  ∀ definition body, scope.fragments.find? fragment = some definition →
    scope.applies definition.condition = true →
    Inlines scope.includes scope.fragments definition.selections body →
    scope.plainFields body ⊆ seen

/-- A fragment that has been met is settled, or the inlined selections are small enough to lie
within its body. -/
def Scope.Known (scope : Scope) (seen : List FieldNode) (selections' : List Selection)
    (fragment : String) : Prop :=
  scope.Settled seen fragment ∨
    ∃ definition body, scope.fragments.find? fragment = some definition ∧
      Inlines scope.includes scope.fragments definition.selections body ∧
      Selection.weights selections' ≤ Selection.weights body

section

variable {scope : Scope} {seen more : List FieldNode} {selections' inner : List Selection}
  {fragment : String} {definition : Fragment} {body : List Selection}

namespace Scope

theorem Settled.mono (h : scope.Settled seen fragment) (hsub : seen ⊆ more) :
    scope.Settled more fragment :=
  fun definition body found applies hbody =>
    List.Subset.trans (h definition body found applies hbody) hsub

theorem Settled.of_undefined (h : scope.fragments.find? fragment = none) :
    scope.Settled seen fragment := by
  intro definition body found
  simp [h] at found

theorem Settled.of_inapplicable (found : scope.fragments.find? fragment = some definition)
    (inapplicable : scope.applies definition.condition = false) : scope.Settled seen fragment := by
  intro definition' body found' applies
  obtain rfl := Option.some.inj (found.symm.trans found')
  simp [inapplicable] at applies

theorem Settled.of_subset (found : scope.fragments.find? fragment = some definition)
    (hbody : Inlines scope.includes scope.fragments definition.selections body)
    (hsub : scope.plainFields body ⊆ seen) : scope.Settled seen fragment := by
  intro definition' body' found' _ hbody'
  obtain rfl := Option.some.inj (found.symm.trans found')
  obtain rfl := hbody.deterministic hbody'
  exact hsub

theorem Known.mono (h : scope.Known seen selections' fragment) (hsub : seen ⊆ more)
    (hle : Selection.weights inner ≤ Selection.weights selections') :
    scope.Known more inner fragment := by
  rcases h with hsettled | ⟨definition, body, found, hbody, hweights⟩
  · exact .inl (hsettled.mono hsub)
  · exact .inr ⟨definition, body, found, hbody, Nat.le_trans hle hweights⟩

theorem Known.rest {selection : Selection} (h : scope.Known seen (selection :: inner) fragment) :
    scope.Known seen inner fragment :=
  h.mono (List.Subset.refl _) (by simp [Selection.weights])

theorem Known.below {condition? : Option String} {directives : List Directive}
    {rest' : List Selection}
    (h : scope.Known seen (.inlineFragment condition? directives inner :: rest') fragment) :
    scope.Known seen inner fragment :=
  h.mono (List.Subset.refl _) (by simp only [Selection.weights, Selection.weight]; omega)

/-- A fragment does not lie within its own body. If it is met here and known, it is settled. -/
theorem Known.settled {condition? : Option String} {directives : List Directive}
    {rest' : List Selection}
    (h : scope.Known seen (.inlineFragment condition? directives body :: rest') fragment)
    (found : scope.fragments.find? fragment = some definition)
    (hbody : Inlines scope.includes scope.fragments definition.selections body) :
    scope.Settled seen fragment := by
  rcases h with hsettled | ⟨definition', body', found', hbody', hweights⟩
  · exact hsettled
  · obtain rfl := Option.some.inj (found.symm.trans found')
    obtain rfl := hbody.deterministic hbody'
    -- The selections here are all of the body and at least one more.
    simp only [Selection.weights, Selection.weight] at hweights
    omega

variable (scope) in
/-- The fields on the way from some fragments to others are those of inlined selections, which may
repeat what has been seen. The fragments that are met on the way are settled afterwards. -/
structure Covers (visited last : List String) (seen nodes nodes' : List FieldNode) : Prop where
  repeats : Repeats (FieldNode.Inlined scope.includes scope.fragments) seen nodes nodes'
  settled : ∀ fragment ∈ last, fragment ∈ visited ∨ scope.Settled (nodes' ++ seen) fragment

namespace Covers

variable {visited middle last : List String} {below below' nodes nodes' : List FieldNode}

theorem of_subset (visited : List String) (hsub : nodes' ⊆ seen) :
    scope.Covers visited visited seen [] nodes' :=
  ⟨.of_subset hsub, fun _ hmem => .inl hmem⟩

theorem append (h : scope.Covers visited middle seen below below')
    (htail : scope.Covers middle last (below' ++ seen) nodes nodes') :
    scope.Covers visited last seen (below ++ nodes) (below' ++ nodes') := by
  refine ⟨h.repeats.append htail.repeats, fun fragment hmem => ?_⟩
  have hsub : nodes' ++ (below' ++ seen) ⊆ below' ++ nodes' ++ seen := by
    intro node hnode
    simpa [or_assoc, or_left_comm] using hnode
  rcases htail.settled fragment hmem with hmiddle | hsettled
  · exact (h.settled fragment hmiddle).imp_right fun hsettled =>
      hsettled.mono (List.Subset.trans (List.subset_append_right _ _) hsub)
  · exact .inr (hsettled.mono hsub)

/-- The fragments that have been met are known where it goes on. -/
theorem known (h : scope.Covers visited middle seen below below') {rest' : List Selection}
    (hvisited : ∀ fragment ∈ visited, scope.Known seen rest' fragment) :
    ∀ fragment ∈ middle, scope.Known (below' ++ seen) rest' fragment := by
  intro fragment hmem
  rcases h.settled fragment hmem with hmet | hsettled
  · exact (hvisited fragment hmet).mono (List.subset_append_right _ _) (Nat.le_refl _)
  · exact .inl hsettled

/-- A fragment that is met for the first time is settled by its own body. -/
theorem cons (h : scope.Covers (fragment :: visited) last seen nodes nodes')
    (hsettled : scope.Settled (nodes' ++ seen) fragment) :
    scope.Covers visited last seen nodes nodes' := by
  refine ⟨h.repeats, fun other hmem => ?_⟩
  rcases h.settled other hmem with hmet | hother
  · rcases List.mem_cons.mp hmet with rfl | hmet
    · exact .inr hsettled
    · exact .inl hmet
  · exact .inr hother

end Covers

section

variable {visited middle last : List String} {below nodes nodes' : List FieldNode}
  {directives : List Directive} {rest' : List Selection}

/-- A fragment that has been met gives nothing new. -/
theorem covers_again (met : fragment ∈ visited)
    (found : scope.fragments.find? fragment = some definition)
    (included : scope.includes directives = true)
    (hbody : Inlines scope.includes scope.fragments definition.selections body)
    (hvisited : ∀ other ∈ visited, scope.Known seen
      (.inlineFragment (some definition.condition) directives body :: rest') other)
    (htail : ∀ seen, (∀ other ∈ visited, scope.Known seen rest' other) →
      scope.Covers visited last seen nodes (scope.plainFields rest')) :
    scope.Covers visited last seen nodes
      (scope.plainFields
        (.inlineFragment (some definition.condition) directives body :: rest')) := by
  have hrest : ∀ other ∈ visited, scope.Known seen rest' other :=
    fun other hmem => (hvisited other hmem).rest
  cases hopens : scope.opensInline (some definition.condition) directives with
  | true =>
      have happlies : scope.applies definition.condition = true := by
        simpa [opensInline, included] using hopens
      have hsettled := (hvisited fragment met).settled found hbody
      have hbelow : scope.Covers visited visited seen [] (scope.plainFields body) :=
        .of_subset visited (hsettled definition body found happlies hbody)
      rw [plainFields_of_opens hopens]
      exact hbelow.append (htail _ (hbelow.known hrest))
  | false =>
      rw [plainFields_of_closed hopens]
      exact htail seen hrest

/-- A fragment that is met for the first time is gone through. -/
theorem covers_first (found : scope.fragments.find? fragment = some definition)
    (opens : scope.opensInline (some definition.condition) directives = true)
    (hbody : Inlines scope.includes scope.fragments definition.selections body)
    (hvisited : ∀ other ∈ visited, scope.Known seen
      (.inlineFragment (some definition.condition) directives body :: rest') other)
    (hbelow : (∀ other ∈ fragment :: visited, scope.Known seen body other) →
      scope.Covers (fragment :: visited) middle seen below (scope.plainFields body))
    (htail : ∀ seen, (∀ other ∈ middle, scope.Known seen rest' other) →
      scope.Covers middle last seen nodes (scope.plainFields rest')) :
    scope.Covers visited last seen (below ++ nodes)
      (scope.plainFields
        (.inlineFragment (some definition.condition) directives body :: rest')) := by
  have hknown : ∀ other ∈ fragment :: visited, scope.Known seen body other := by
    refine List.forall_mem_cons.mpr ⟨.inr ⟨definition, body, found, hbody, Nat.le_refl _⟩, ?_⟩
    exact fun other hmem => (hvisited other hmem).below
  have hcovers := (hbelow hknown).cons
    (.of_subset found hbody (List.subset_append_left _ _))
  rw [plainFields_of_opens opens]
  exact hcovers.append (htail _ (hcovers.known fun other hmem => (hvisited other hmem).rest))

/-- A fragment that has nothing to give is passed over. -/
theorem covers_nothing (hsettled : ∀ seen, scope.Settled seen fragment)
    (hvisited : ∀ other ∈ visited, scope.Known seen rest' other)
    (htail : (∀ other ∈ fragment :: visited, scope.Known seen rest' other) →
      scope.Covers (fragment :: visited) last seen nodes nodes') :
    scope.Covers visited last seen nodes nodes' :=
  (htail (List.forall_mem_cons.mpr ⟨.inl (hsettled seen), hvisited⟩)).cons (hsettled _)

/-- The fields of inlined selections are those of the selections, with repetitions. -/
theorem Walk.covers {selections : List Selection} (h : scope.Walk visited selections nodes last)
    (hinlines : Inlines scope.includes scope.fragments selections selections')
    (hvisited : ∀ fragment ∈ visited, scope.Known seen selections' fragment) :
    scope.Covers visited last seen nodes (scope.plainFields selections') := by
  induction h generalizing selections' seen with
  | nil =>
      cases hinlines
      exact .of_subset _ (List.nil_subset _)
  | @field visited head selections _ _ _ included _ ih =>
      cases hinlines with
      | @field _ _ below' _ _ below tail =>
          have hhead : scope.Covers visited visited seen [⟨head, selections⟩] [⟨head, below'⟩] :=
            ⟨.next ⟨rfl, below⟩ (.nil _), fun _ hmem => .inl hmem⟩
          rw [plainFields_of_included included]
          exact hhead.append
            (ih tail (hhead.known fun fragment hmem => (hvisited fragment hmem).rest))
  | excluded excluded _ ih =>
      cases hinlines with
      | field _ tail =>
          rw [plainFields_of_excluded excluded]
          exact ih tail fun fragment hmem => (hvisited fragment hmem).rest
  | again met _ ih =>
      cases hinlines with
      | undefined _ tail => exact ih tail hvisited
      | spread found included below tail =>
          exact covers_again met found included below hvisited fun _ => ih tail
  | @spread _ _ directives _ _ _ _ _ _ new opens _ _ ihbody ih =>
      cases hinlines with
      | undefined undefined _ => simp [spreadSelections?_of_undefined undefined] at opens
      | @spread _ _ definition _ _ _ found included below tail =>
          rw [spreadSelections?_of_found found included] at opens
          cases hopens : scope.opensInline (some definition.condition) directives with
          | true =>
              obtain rfl : definition.selections = _ := by simpa [hopens] using opens
              exact covers_first found hopens below hvisited (ihbody below) fun _ => ih tail
          | false => simp [hopens] at opens
  | @dropped _ _ directives _ _ _ new closed _ ih =>
      cases hinlines with
      | undefined undefined tail =>
          exact covers_nothing (fun _ => .of_undefined undefined) hvisited (ih tail)
      | @spread _ _ definition _ _ _ found included below tail =>
          rw [spreadSelections?_of_found found included] at closed
          cases hopens : scope.opensInline (some definition.condition) directives with
          | true => simp [hopens] at closed
          | false =>
              have happlies : scope.applies definition.condition = false := by
                simpa [opensInline, included] using hopens
              rw [plainFields_of_closed hopens]
              exact covers_nothing (fun _ => .of_inapplicable found happlies)
                (fun fragment hmem => (hvisited fragment hmem).rest) (ih tail)
  | inline opens _ _ ihbody ih =>
      cases hinlines with
      | inline below tail =>
          have hbody := ihbody below fun fragment hmem => (hvisited fragment hmem).below
          rw [plainFields_of_opens opens]
          exact hbody.append
            (ih tail (hbody.known fun fragment hmem => (hvisited fragment hmem).rest))
  | closed closed _ ih =>
      cases hinlines with
      | inline _ tail =>
          rw [plainFields_of_closed closed]
          exact ih tail fun fragment hmem => (hvisited fragment hmem).rest

end

/-- Sub-selections of a field that comes again give nothing new. -/
theorem repeats_flatMap {earlier nodes nodes' below : List FieldNode} {visited last : List String}
    (h : Repeats (FieldNode.Inlined scope.includes scope.fragments) earlier nodes nodes')
    (hwalk : scope.Walk visited (nodes.flatMap FieldNode.selections) below last)
    (hvisited : ∀ fragment ∈ visited, scope.Settled seen fragment)
    (hearlier : ∀ node ∈ earlier, scope.plainFields node.selections ⊆ seen) :
    Repeats (FieldNode.Inlined scope.includes scope.fragments) seen below
      (scope.plainFields (nodes'.flatMap FieldNode.selections)) := by
  induction h generalizing visited seen below with
  | nil =>
      cases hwalk
      exact .nil seen
  | @next _ node _ node' rest' head _ ih =>
      obtain ⟨first, middle, later, hfirst, hlater, rfl⟩ := hwalk.split
      have hcovers := hfirst.covers head.selections fun fragment hmem =>
        .inl (hvisited fragment hmem)
      rw [List.flatMap_cons, plainFields_append]
      refine hcovers.repeats.append (ih hlater ?_ (List.forall_mem_cons.mpr ⟨?_, ?_⟩))
      · intro fragment hmem
        rcases hcovers.settled fragment hmem with hmet | hsettled
        · exact (hvisited fragment hmet).mono (List.subset_append_right _ _)
        · exact hsettled
      · exact List.subset_append_left _ _
      · intro other hmem
        exact List.Subset.trans (hearlier other hmem) (List.subset_append_right _ _)
  | @again _ _ node' rest' old _ ih =>
      rw [List.flatMap_cons, plainFields_append]
      have hsub := hearlier node' old
      refine Repeats.append (.of_subset hsub) ((ih hwalk hvisited hearlier).mono ?_)
      exact List.subset_append_right _ _

theorem walk_flatMap {nodes' : List FieldNode} (fragments : Catalog Fragment)
    (h : ∀ node' ∈ nodes', ∃ node : FieldNode,
      node.Inlined scope.includes scope.fragments node') :
    ({ scope with fragments } : Scope).Walk [] (nodes'.flatMap FieldNode.selections)
      (scope.plainFields (nodes'.flatMap FieldNode.selections)) [] := by
  induction nodes' with
  | nil => exact .nil []
  | cons node' rest' ih =>
      obtain ⟨⟨node, hnode⟩, hrest⟩ := List.forall_mem_cons.mp h
      rw [List.flatMap_cons, plainFields_append]
      exact (walk_inlined hnode.selections fragments []).append (ih hrest)

variable (scope) in
/-- Groups of inlined selections repeat the fields of the groups of the selections. -/
theorem repeating_of_inlines {selections selections' : List Selection}
    (h : Inlines scope.includes scope.fragments selections selections')
    (fragments : Catalog Fragment) :
    List.Forall₂ (FieldGroup.Repeating (FieldNode.Inlined scope.includes scope.fragments))
      (scope.collectFields selections)
      (({ scope with fragments } : Scope).collectFields selections') := by
  obtain ⟨nodes, last, hwalk⟩ := scope.exists_walk [] selections
  rw [hwalk.collectFields_eq, (walk_inlined h fragments []).collectFields_eq]
  exact FieldGroup.repeating_addAll (fun _ _ => FieldNode.Inlined.key)
    (hwalk.covers h (by simp)).repeats

variable (scope) in
/-- So do the groups of their sub-selections. -/
theorem repeating_of_repeats {nodes nodes' : List FieldNode}
    (h : Repeats (FieldNode.Inlined scope.includes scope.fragments) [] nodes nodes')
    (fragments : Catalog Fragment) :
    List.Forall₂ (FieldGroup.Repeating (FieldNode.Inlined scope.includes scope.fragments))
      (scope.collectFields (nodes.flatMap FieldNode.selections))
      (({ scope with fragments } : Scope).collectFields
        (nodes'.flatMap FieldNode.selections)) := by
  obtain ⟨below, last, hwalk⟩ := scope.exists_walk [] (nodes.flatMap FieldNode.selections)
  have hnodes' : ∀ node' ∈ nodes', ∃ node : FieldNode,
      node.Inlined scope.includes scope.fragments node' :=
    h.forall_mem (fun node _ hinlined => ⟨node, hinlined⟩) (by simp)
  rw [hwalk.collectFields_eq, (walk_flatMap fragments hnodes').collectFields_eq]
  exact FieldGroup.repeating_addAll (fun _ _ => FieldNode.Inlined.key)
    (repeats_flatMap h hwalk (by simp) (by simp))

end Scope

end

end GraphQL
