import GraphQL.Proofs.Document.Rewriting
import GraphQL.Proofs.Selection.Occurrences
import GraphQL.Proofs.Selection.Repetition

/-! # Fields that are split

A field can be written as two fields that share its sub-selections, as long as nothing between them
contributes to its response key. Collecting puts the two together again: there are the same groups
with the same first fields, and their sub-selections are the same, split in turn. -/

namespace GraphQL

/-- The same field, perhaps at another place of the text. -/
inductive FieldHead.Moved (head : FieldHead) : FieldHead → Prop
  | to (location : Location) : Moved head { head with location }

theorem FieldHead.Moved.key {head head' : FieldHead} (h : head.Moved head') :
    head'.key = head.key := by
  cases h
  rfl

/-! ## Where selections stand -/

/-- Where selections stand in a document, as far as it matters for collecting them: in which scopes
they are collected, and which fragments have been met then. -/
abbrev Site := Scope → List String → Prop

namespace Site

/-- The selections of an operation. -/
def start (scopes : Scope → Prop) : Site := fun scope visited => scopes scope ∧ visited = []

/-- The sub-selections of a field, which may be collected after those of other fields. -/
def below (scopes : Scope → Prop) : Site := fun scope _ => scopes scope

/-- The selections of a fragment that is opened by a spread. -/
def body (scopes : Scope → Prop) (fragment : Fragment) : Site := fun scope visited =>
  scopes scope ∧ fragment.name ∈ visited ∧ scope.applies fragment.condition = true

/-- The selections of an inline fragment that is opened. -/
def inside (site : Site) (condition? : Option String) (directives : List Directive) : Site :=
  fun scope visited => site scope visited ∧ scope.opensInline condition? directives = true

/-- What comes after some selections. -/
def after (site : Site) (selections : List Selection) : Site := fun scope visited =>
  ∃ earlier nodes, site scope earlier ∧ scope.Walk earlier selections nodes visited

/-- None of the selections contributes to the response key. -/
def KeepsApart (site : Site) (key : String) (selections : List Selection) : Prop :=
  ∀ scope visited nodes last, site scope visited → scope.Walk visited selections nodes last →
    ∀ node ∈ nodes, node.key ≠ key

end Site

/-- The second list of selections is the first one with fields that are split in two, at every
depth: the one part stands in the place of the field, the other one later, with nothing in between
that contributes to the response key. -/
inductive Splits (scopes : Scope → Prop) : Site → List Selection → List Selection → Prop
  | nil (site) : Splits scopes site [] []
  | field {site head head' selections selections' rest rest'} (moved : FieldHead.Moved head head')
      (below : Splits scopes (.below scopes) selections selections')
      (tail : Splits scopes site rest rest') :
      Splits scopes site (.field head selections :: rest) (.field head' selections' :: rest')
  | split {site head head' head'' earlier earlier' later later' between between' rest rest'}
      (moved : FieldHead.Moved head head') (added : FieldHead.Moved head head'')
      (first : Splits scopes (.below scopes) earlier earlier')
      (second : Splits scopes (.below scopes) later later')
      (apart : site.KeepsApart head.key between)
      (middle : Splits scopes site between between')
      (tail : Splits scopes (site.after between) rest rest') :
      Splits scopes site (.field head (earlier ++ later) :: (between ++ rest))
        (.field head' earlier' :: (between' ++ .field head'' later' :: rest'))
  | spread {site fragment directives rest rest'}
      (tail : Splits scopes (site.after [.spread fragment directives]) rest rest') :
      Splits scopes site (.spread fragment directives :: rest)
        (.spread fragment directives :: rest')
  | inline {site condition? directives selections selections' rest rest'}
      (below : Splits scopes (site.inside condition? directives) selections selections')
      (tail : Splits scopes (site.after [.inlineFragment condition? directives selections]) rest
        rest') :
      Splits scopes site (.inlineFragment condition? directives selections :: rest)
        (.inlineFragment condition? directives selections' :: rest')

variable {scopes : Scope → Prop} {site site' : Site} {scope : Scope} {visited last : List String}
  {selections selections' : List Selection}

namespace Site

theorem after_mono (hsite : ∀ scope visited, site' scope visited → site scope visited)
    (selections : List Selection) :
    ∀ scope visited, site'.after selections scope visited →
      site.after selections scope visited := by
  intro scope visited h
  obtain ⟨earlier, nodes, hearlier, hwalk⟩ := h
  exact ⟨earlier, nodes, hsite scope earlier hearlier, hwalk⟩

theorem after_append (first second : List Selection) :
    ∀ scope visited, (site.after first).after second scope visited →
      site.after (first ++ second) scope visited := by
  intro scope visited h
  obtain ⟨middle, later, ⟨earlier, nodes, hearlier, hfirst⟩, hsecond⟩ := h
  exact ⟨earlier, nodes ++ later, hearlier, hfirst.append hsecond⟩

theorem after_field (head : FieldHead) (below : List Selection) :
    ∀ scope visited, site scope visited → site.after [.field head below] scope visited := by
  intro scope visited h
  cases hincluded : scope.includes head.directives with
  | true => exact ⟨visited, _, h, .field hincluded (.nil visited)⟩
  | false => exact ⟨visited, _, h, .excluded hincluded (.nil visited)⟩

theorem after_nil : ∀ scope visited, site scope visited → site.after [] scope visited :=
  fun _ visited h => ⟨visited, [], h, .nil visited⟩

theorem after_below (selections : List Selection) :
    ∀ scope visited, (below scopes).after selections scope visited →
      below scopes scope visited := by
  intro scope visited h
  obtain ⟨_, _, hscope, _⟩ := h
  exact hscope

end Site

namespace Splits

/-- What is split for some sites is split for fewer. -/
theorem mono (h : Splits scopes site selections selections')
    (hsite : ∀ scope visited, site' scope visited → site scope visited) :
    Splits scopes site' selections selections' := by
  induction h generalizing site' with
  | nil => exact .nil site'
  | field moved below _ _ ih => exact .field moved below (ih hsite)
  | split moved added first second apart _ _ _ _ ihmiddle ih =>
      have hapart := fun scope visited nodes last h =>
        apart scope visited nodes last (hsite scope visited h)
      exact .split moved added first second hapart (ihmiddle hsite) (ih (Site.after_mono hsite _))
  | spread _ ih => exact .spread (ih (Site.after_mono hsite _))
  | inline _ _ ihbelow ih =>
      refine .inline (ihbelow fun scope visited h => ?_) (ih (Site.after_mono hsite _))
      exact ⟨hsite scope visited h.1, h.2⟩

theorem append (h : Splits scopes site selections selections') {later later' : List Selection}
    (hlater : Splits scopes (site.after selections) later later') :
    Splits scopes site (selections ++ later) (selections' ++ later') := by
  induction h with
  | nil => exact hlater.mono Site.after_nil
  | @field site head _ below _ rest _ moved hbelow _ _ ih =>
      refine .field moved hbelow (ih (hlater.mono fun scope visited h => ?_))
      exact Site.after_append [.field head below] rest _ _
        (Site.after_mono (Site.after_field head below) rest _ _ h)
  | @split site head _ _ earlier _ later _ between _ rest _ moved added first second apart middle _
      _ _ _ ih =>
      have hrest := ih (hlater.mono fun scope visited h => by
        have hbetween := Site.after_append between rest scope visited h
        exact Site.after_append [.field head (earlier ++ later)] (between ++ rest) _ _
          (Site.after_mono (Site.after_field head (earlier ++ later)) _ _ _ hbetween))
      simpa using Splits.split moved added first second apart middle hrest
  | spread _ ih => exact .spread (ih (hlater.mono (Site.after_append _ _)))
  | inline below _ _ ih => exact .inline below (ih (hlater.mono (Site.after_append _ _)))

/-- Sub-selections of several fields are split if those of each of them are. -/
theorem append_below (h : Splits scopes (.below scopes) selections selections')
    {later later' : List Selection} (hlater : Splits scopes (.below scopes) later later') :
    Splits scopes (.below scopes) (selections ++ later) (selections' ++ later') :=
  h.append (hlater.mono (Site.after_below selections))

end Splits

/-! ## Fields on a walk -/

/-- The second list of fields is the first one with fields that are split in two. -/
inductive NodesSplit (scopes : Scope → Prop) : List FieldNode → List FieldNode → Prop
  | nil : NodesSplit scopes [] []
  | node {node node' rest rest'} (moved : node.toFieldHead.Moved node'.toFieldHead)
      (below : Splits scopes (.below scopes) node.selections node'.selections)
      (tail : NodesSplit scopes rest rest') : NodesSplit scopes (node :: rest) (node' :: rest')
  | split {head head' head'' earlier earlier' later later' between between' rest rest'}
      (moved : FieldHead.Moved head head') (added : FieldHead.Moved head head'')
      (first : Splits scopes (.below scopes) earlier earlier')
      (second : Splits scopes (.below scopes) later later')
      (apart : ∀ node ∈ between, node.key ≠ head.key)
      (middle : NodesSplit scopes between between') (tail : NodesSplit scopes rest rest') :
      NodesSplit scopes (⟨head, earlier ++ later⟩ :: (between ++ rest))
        (⟨head', earlier'⟩ :: (between' ++ ⟨head'', later'⟩ :: rest'))

namespace NodesSplit

variable {nodes nodes' : List FieldNode}

theorem append (h : NodesSplit scopes nodes nodes') {later later' : List FieldNode}
    (hlater : NodesSplit scopes later later') :
    NodesSplit scopes (nodes ++ later) (nodes' ++ later') := by
  induction h with
  | nil => exact hlater
  | node moved below _ ih => exact .node moved below ih
  | split moved added first second apart middle _ _ ih =>
      simpa using NodesSplit.split moved added first second apart middle ih

theorem head {node node' : FieldNode} (h : NodesSplit scopes (node :: nodes) (node' :: nodes')) :
    node.toFieldHead.Moved node'.toFieldHead := by
  cases h with
  | node moved | split moved => exact moved

/-- Splitting makes no new keys. -/
theorem keys (h : NodesSplit scopes nodes nodes') (seen : List String) :
    Repeats Eq seen (nodes.map fun node => node.key) (nodes'.map fun node => node.key) := by
  induction h generalizing seen with
  | nil => exact .nil seen
  | node moved _ _ ih =>
      rw [List.map_cons, List.map_cons, moved.key]
      exact .next rfl (ih _)
  | @split head _ _ _ _ _ _ between between' rest rest' moved added _ _ _ _ _ ihmiddle ih =>
      simp only [List.map_cons, List.map_append, moved.key, added.key]
      refine .next rfl ((ihmiddle _).append (.again ?_ (ih _)))
      exact List.mem_append_right _ List.mem_cons_self

/-- Fields of one key are split among themselves. -/
theorem filter (h : NodesSplit scopes nodes nodes') (key : String) :
    NodesSplit scopes (nodes.filter fun node => node.key = key)
      (nodes'.filter fun node => node.key = key) := by
  induction h with
  | nil => exact .nil
  | node moved below _ ih =>
      simp only [List.filter_cons, moved.key]
      split
      · exact .node moved below ih
      · exact ih
  | @split head _ _ earlier _ later _ between between' _ _ moved added first second apart _ _
      ihmiddle ih =>
      simp only [List.filter_cons, List.filter_append, moved.key, added.key]
      by_cases hkey : head.key = key
      · simp only [hkey, decide_true, ite_true]
        refine .split moved added first second (fun node hmem => ?_) ihmiddle ih
        exact apart node (List.mem_of_mem_filter hmem)
      · simp only [hkey, decide_false, Bool.false_eq_true, ite_false]
        exact ihmiddle.append ih

/-- The sub-selections of fields that are put together are split. -/
theorem subselections {key : String} (h : NodesSplit scopes nodes nodes')
    (hkeys : ∀ node ∈ nodes, node.key = key) :
    Splits scopes (.below scopes) (nodes.flatMap FieldNode.selections)
      (nodes'.flatMap FieldNode.selections) := by
  induction h with
  | nil => exact .nil _
  | node _ below _ ih =>
      have hrest := (List.forall_mem_cons.mp hkeys).2
      exact below.append_below (ih hrest)
  | @split head _ _ earlier earlier' later later' between between' rest rest' _ _ first second apart
      middle _ _ ih =>
      obtain ⟨hhead, hothers⟩ := List.forall_mem_cons.mp hkeys
      obtain ⟨hbetween, hrest⟩ := List.forall_mem_append.mp hothers
      -- The two parts of the field are next to each other among the fields of its key.
      have hnone : between = [] := by
        refine List.eq_nil_iff_forall_not_mem.mpr fun node hmem => ?_
        exact apart node hmem ((hbetween node hmem).trans hhead.symm)
      subst hnone
      cases middle
      have hsplit := (first.append_below second).append_below (ih hrest)
      simpa [List.flatMap_cons, List.append_assoc] using hsplit

end NodesSplit

/-! ## Walks through split selections -/

theorem Scope.unmet_le_of_subset (scope : Scope) {earlier later : List String}
    (hsub : earlier ⊆ later) : scope.unmet later ≤ scope.unmet earlier := by
  refine List.Sublist.length_le (List.monotone_filter_right _ fun fragment h => ?_)
  simp only [decide_not, Bool.not_eq_true', decide_eq_false_iff_not] at h ⊢
  exact fun hmem => h (hsub hmem)

/-- The fragments of a scope with fields split in their bodies. -/
def FragmentsSplit (scopes : Scope → Prop) (fragments fragments' : Catalog Fragment) : Prop :=
  ∀ name, Option.Rel (Fragment.Rewritten fun fragment => Splits scopes (.body scopes fragment))
    (fragments.find? name) (fragments'.find? name)

section

variable {fragments' : Catalog Fragment} {fragment : String} {directives : List Directive}

theorem FragmentsSplit.opens (h : FragmentsSplit scopes scope.fragments fragments')
    {body : List Selection} (opens : scope.spreadSelections? fragment directives = some body) :
    ∃ definition body', definition.name = fragment ∧ scope.applies definition.condition = true ∧
      ({ scope with fragments := fragments' } : Scope).spreadSelections? fragment directives =
        some body' ∧
      Splits scopes (.body scopes definition) body body' := by
  have hincluded := Scope.includes_of_spreadSelections? opens
  rcases optionRel_cases (h fragment) with
    ⟨hnone, -⟩ | ⟨definition, definition', hfound, hfound', hsplits⟩
  · simp [Scope.spreadSelections?_of_undefined hnone] at opens
  · obtain ⟨hbelow⟩ := hsplits
    have happlies : scope.applies definition.condition = true := by
      by_contra hnot
      simp [Scope.spreadSelections?, hincluded, hfound, hnot] at opens
    have hbody : definition.selections = body := by
      simpa [Scope.spreadSelections?, hincluded, hfound, happlies] using opens
    subst hbody
    refine ⟨definition, _, Catalog.name_of_find? hfound, happlies, ?_, hbelow⟩
    simp [Scope.spreadSelections?, hincluded, hfound', happlies]

theorem FragmentsSplit.closed (h : FragmentsSplit scopes scope.fragments fragments')
    (closed : scope.spreadSelections? fragment directives = none) :
    ({ scope with fragments := fragments' } : Scope).spreadSelections? fragment directives =
      none := by
  rcases optionRel_cases (h fragment) with
    ⟨hnone, hnone'⟩ | ⟨definition, definition', hfound, hfound', hsplits⟩
  · exact Scope.spreadSelections?_of_undefined hnone'
  · obtain ⟨-⟩ := hsplits
    simpa [Scope.spreadSelections?, hfound, hfound'] using closed

variable (scopes scope fragments') in
/-- A walk goes alike through other selections: it finds the fields split and meets the same
fragments. -/
def Follows (selections' : List Selection) (visited : List String) (nodes : List FieldNode)
    (last : List String) : Prop :=
  ∃ nodes', ({ scope with fragments := fragments' } : Scope).Walk visited selections' nodes' last ∧
    NodesSplit scopes nodes nodes'

theorem Follows.append {first second : List Selection} {middle : List String}
    {nodes later : List FieldNode} (h : Follows scopes scope fragments' first visited nodes middle)
    (hsecond : Follows scopes scope fragments' second middle later last) :
    Follows scopes scope fragments' (first ++ second) visited (nodes ++ later) last := by
  obtain ⟨nodes', hwalk, hsplit⟩ := h
  obtain ⟨later', hlater, hsplit'⟩ := hsecond
  exact ⟨_, hwalk.append hlater, hsplit.append hsplit'⟩

variable {head head' head'' : FieldHead} {nodes : List FieldNode}

theorem follows_excluded (moved : head.Moved head') (below : List Selection)
    (excluded : scope.includes head.directives = false) :
    Follows scopes scope fragments' [.field head' below] visited [] visited := by
  obtain ⟨location⟩ := moved
  exact ⟨[], .excluded excluded (.nil visited), .nil⟩

theorem follows_field {below below' : List Selection} (moved : head.Moved head')
    (hbelow : Splits scopes (.below scopes) below below')
    (hwalk : scope.Walk visited [.field head below] nodes last) :
    Follows scopes scope fragments' [.field head' below'] visited nodes last := by
  cases hwalk with
  | field included tail =>
      cases tail
      obtain ⟨location⟩ := moved
      exact ⟨_, .field included (.nil visited), .node (.to location) hbelow .nil⟩
  | excluded excluded tail =>
      cases tail
      exact follows_excluded moved below' excluded

/-- The two parts of a field stand around what is between them. -/
theorem follows_split {earlier earlier' later later' between between' : List Selection}
    (moved : head.Moved head') (added : head.Moved head'')
    (first : Splits scopes (.below scopes) earlier earlier')
    (second : Splits scopes (.below scopes) later later')
    (apart : site.KeepsApart head.key between) (hsite : site scope visited)
    (hwalk : scope.Walk visited (.field head (earlier ++ later) :: between) nodes last)
    (hbetween : ∀ nodes, scope.Walk visited between nodes last →
      Follows scopes scope fragments' between' visited nodes last) :
    Follows scopes scope fragments'
      (.field head' earlier' :: (between' ++ [.field head'' later'])) visited nodes last := by
  cases hwalk with
  | @field _ _ _ _ nodes _ included tail =>
      obtain ⟨location⟩ := moved
      obtain ⟨location'⟩ := added
      obtain ⟨nodes', hwalk', hsplit⟩ := hbetween nodes tail
      have hkeys := apart scope visited nodes last hsite tail
      have hnodes : NodesSplit scopes (⟨head, earlier ++ later⟩ :: (nodes ++ [])) _ :=
        .split (.to location) (.to location') first second hkeys hsplit .nil
      rw [List.append_nil] at hnodes
      exact ⟨_, .field included (hwalk'.append (.field included (.nil last))), hnodes⟩
  | excluded excluded tail =>
      have hfirst : Follows scopes scope fragments' [.field head' earlier'] visited [] visited :=
        follows_excluded moved earlier' excluded
      have hsecond : Follows scopes scope fragments' [.field head'' later'] last [] last :=
        follows_excluded added later' excluded
      simpa using (hfirst.append (hbetween nodes tail)).append hsecond

/-- A spread leads into the body of its fragment, from where one fragment fewer is left. -/
theorem follows_spread (hscope : scopes scope)
    (hfragments : FragmentsSplit scopes scope.fragments fragments')
    (bodies : ∀ {site selections selections' visited' nodes last},
      scope.unmet visited' < scope.unmet visited → Splits scopes site selections selections' →
      site scope visited' → scope.Walk visited' selections nodes last →
      Follows scopes scope fragments' selections' visited' nodes last)
    (hwalk : scope.Walk visited [.spread fragment directives] nodes last) :
    Follows scopes scope fragments' [.spread fragment directives] visited nodes last := by
  cases hwalk with
  | again met tail =>
      cases tail
      exact ⟨[], .again met (.nil visited), .nil⟩
  | spread new opens hbody tail =>
      cases tail
      obtain ⟨definition, body', hname, happlies, hopens, hsplits⟩ := hfragments.opens opens
      obtain ⟨found, hfound⟩ := Scope.find?_of_spreadSelections? opens
      obtain ⟨nodes', hbody', hsplit⟩ := bodies (scope.unmet_cons_lt hfound new) hsplits
        ⟨hscope, hname ▸ List.mem_cons_self, happlies⟩ hbody
      exact ⟨_, .spread new hopens hbody' (.nil last), hsplit.append .nil⟩
  | dropped new closed tail =>
      cases tail
      exact ⟨[], .dropped new (hfragments.closed closed) (.nil _), .nil⟩

theorem follows_inline {condition? : Option String} {below below' : List Selection}
    (hbelow : ∀ nodes, scope.opensInline condition? directives = true →
      scope.Walk visited below nodes last →
      Follows scopes scope fragments' below' visited nodes last)
    (hwalk : scope.Walk visited [.inlineFragment condition? directives below] nodes last) :
    Follows scopes scope fragments' [.inlineFragment condition? directives below'] visited nodes
      last := by
  cases hwalk with
  | inline opens body tail =>
      cases tail
      obtain ⟨nodes', hbody', hsplit⟩ := hbelow _ opens body
      exact ⟨_, .inline opens hbody' (.nil last), hsplit.append .nil⟩
  | closed closed tail =>
      cases tail
      exact ⟨[], .closed closed (.nil visited), .nil⟩

/-- A walk goes alike through split selections: induction on the fragments that are not met yet, and
on the selections. -/
theorem Splits.follows (hscope : scopes scope)
    (hfragments : FragmentsSplit scopes scope.fragments fragments') (unmet : Nat)
    (h : Splits scopes site selections selections') (hunmet : scope.unmet visited ≤ unmet)
    (hsite : site scope visited) (hwalk : scope.Walk visited selections nodes last) :
    Follows scopes scope fragments' selections' visited nodes last := by
  induction unmet using Nat.strongRecOn generalizing site selections selections' visited last
    nodes with
  | _ unmet bodies =>
    have hleft {visited middle : List String} {selections : List Selection}
        {nodes : List FieldNode} (h : scope.Walk visited selections nodes middle)
        (hunmet : scope.unmet visited ≤ unmet) : scope.unmet middle ≤ unmet :=
      Nat.le_trans (scope.unmet_le_of_subset h.visited_subset) hunmet
    induction h generalizing visited last nodes with
    | nil =>
        cases hwalk
        exact ⟨[], .nil _, .nil⟩
    | @field site head _ below _ rest _ moved hbelow _ _ ih =>
        have hparts : scope.Walk visited ([.field head below] ++ rest) nodes last := hwalk
        obtain ⟨earlier, middle, later, hfirst, hrest, rfl⟩ := hparts.split
        have hmiddle : visited = middle := by
          cases hfirst with
          | field _ tail | excluded _ tail =>
              cases tail
              rfl
        subst hmiddle
        exact (follows_field moved hbelow hfirst).append (ih hunmet hsite hrest)
    | @split site head _ _ earlier _ later _ between _ rest _ moved added first second apart _ _ _ _
        ihmiddle ih =>
        have hparts : scope.Walk visited ((.field head (earlier ++ later) :: between) ++ rest) nodes
            last := hwalk
        obtain ⟨_, middle, _, hfirst, hrest, rfl⟩ := hparts.split
        have hsite' : site.after between scope middle := by
          cases hfirst with
          | field _ tail | excluded _ tail => exact ⟨visited, _, hsite, tail⟩
        have hsplit := follows_split moved added first second apart hsite hfirst
          fun nodes hbetween => ihmiddle hunmet hsite hbetween
        simpa using hsplit.append (ih (hleft hfirst hunmet) hsite' hrest)
    | @spread site fragment directives rest _ _ ih =>
        have hparts : scope.Walk visited ([.spread fragment directives] ++ rest) nodes last := hwalk
        obtain ⟨_, middle, _, hfirst, hrest, rfl⟩ := hparts.split
        have hspread := follows_spread hscope hfragments (fun hfewer hsplits =>
          bodies _ (Nat.lt_of_lt_of_le hfewer hunmet) hsplits (Nat.le_refl _)) hfirst
        exact hspread.append (ih (hleft hfirst hunmet) ⟨visited, _, hsite, hfirst⟩ hrest)
    | @inline site condition? directives below _ rest _ _ _ ihbelow ih =>
        have hparts : scope.Walk visited
            ([.inlineFragment condition? directives below] ++ rest) nodes last := hwalk
        obtain ⟨_, middle, _, hfirst, hrest, rfl⟩ := hparts.split
        have hinline := follows_inline
          (fun nodes opens hbody => ihbelow hunmet ⟨hsite, opens⟩ hbody) hfirst
        exact hinline.append (ih (hleft hfirst hunmet) ⟨visited, _, hsite, hfirst⟩ hrest)

end

/-! ## Groups -/

/-- The groups of split selections have the same keys and the same first fields, and their
sub-selections are split. -/
structure FieldGroup.Splits (scopes : Scope → Prop) (group group' : FieldGroup) : Prop where
  key : group.key = group'.key
  first : group.first.toFieldHead.Moved group'.first.toFieldHead
  selections : GraphQL.Splits scopes (.below scopes) group.selections group'.selections

theorem eraseDups_of_repeats {seen keys keys' : List String} (h : Repeats Eq seen keys keys')
    (earlier : List String) (hseen : seen ⊆ earlier) :
    (earlier ++ keys').eraseDups = (earlier ++ keys).eraseDups := by
  induction h generalizing earlier with
  | nil => rfl
  | @next _ key rest _ rest' head _ ih =>
      subst head
      have hrest := ih (earlier ++ [key]) (by
        refine List.cons_subset.mpr ⟨List.mem_append_right _ List.mem_cons_self, ?_⟩
        exact List.Subset.trans hseen (List.subset_append_left _ _))
      simpa using hrest
  | @again _ _ key rest' old _ ih =>
      have hremove : (key :: rest').removeAll earlier = rest'.removeAll earlier := by
        simp [List.removeAll, hseen old]
      rw [List.eraseDups_append, hremove, ← List.eraseDups_append]
      exact ih earlier hseen

theorem FieldGroup.splits_addAll {nodes nodes' : List FieldNode}
    (h : NodesSplit scopes nodes nodes') :
    List.Forall₂ (FieldGroup.Splits scopes) (addAll [] nodes) (addAll [] nodes') := by
  have hmap : (addAll [] nodes).map key = (addAll [] nodes').map key := by
    rw [map_key_addAll, map_key_addAll]
    exact (eraseDups_of_repeats (h.keys []) [] (List.Subset.refl _)).symm
  refine (forall₂_addAll hmap).imp fun group group' hgroups => ?_
  obtain ⟨hkey, hnodes, hnodes'⟩ := hgroups
  have hsplit : NodesSplit scopes group.nodes group'.nodes := by
    rw [hnodes, hnodes']
    exact h.filter group.key
  have hnodeKeys : ∀ node ∈ group.nodes, node.key = group.key := by
    intro node hmem
    rw [hnodes] at hmem
    exact of_decide_eq_true (List.mem_filter.mp hmem).2
  exact ⟨hkey, hsplit.head, hsplit.subselections hnodeKeys⟩

/-- Collecting puts the parts of a field together again. -/
theorem Scope.splits_collectFields (hscope : scopes scope) {fragments' : Catalog Fragment}
    (hfragments : FragmentsSplit scopes scope.fragments fragments')
    (h : Splits scopes site selections selections') (hsite : site scope []) :
    List.Forall₂ (FieldGroup.Splits scopes) (scope.collectFields selections)
      (({ scope with fragments := fragments' } : Scope).collectFields selections') := by
  obtain ⟨nodes, last, hwalk⟩ := scope.exists_walk [] selections
  obtain ⟨nodes', hwalk', hsplit⟩ := h.follows hscope hfragments _ (Nat.le_refl _) hsite hwalk
  rw [hwalk.collectFields_eq, hwalk'.collectFields_eq]
  exact FieldGroup.splits_addAll hsplit

end GraphQL
