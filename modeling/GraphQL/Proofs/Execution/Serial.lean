import GraphQL.Proofs.Execution.Run
import GraphQL.Proofs.Selection.Walk
import Mathlib.Data.List.Basic

/-! # Execution in sequence

Selections that share no response key and no fragment are executed one part after the other: the
second part starts from the state that the first one has left behind, with everything below its
fields, and does not start at all if a null ends the first one. -/

namespace GraphQL

variable {State Object Item : Type}

namespace Scope

/-- The fragments of which a spread is met when the fields of selections are collected. -/
def met (scope : Scope) (selections : List Selection) : List String :=
  (scope.collect {} selections).visited

/-- Selections without a common key or fragment are collected independently of one another. -/
theorem collectFields_append {scope : Scope} {first second : List Selection}
    (keys : ((scope.collectFields first).map FieldGroup.key).Disjoint
      ((scope.collectFields second).map FieldGroup.key))
    (fragments : (scope.met first).Disjoint (scope.met second)) :
    scope.collectFields (first ++ second) =
      scope.collectFields first ++ scope.collectFields second := by
  obtain ⟨nodes, last, hfirst⟩ := scope.exists_walk [] first
  obtain ⟨later, last', hsecond⟩ := scope.exists_walk [] second
  have hapart : ∀ fragment ∈ last, fragment ∉ last' := by
    intro fragment hmem hmem'
    have hmet : fragment ∈ scope.met first := by rwa [met, hfirst.collect_eq]
    have hmet' : fragment ∈ scope.met second := by rwa [met, hsecond.collect_eq]
    exact fragments hmet hmet'
  have hwalk := hfirst.append (hsecond.frame hapart)
  rw [hfirst.collectFields_eq, hsecond.collectFields_eq] at keys ⊢
  rw [hwalk.collectFields_eq, FieldGroup.addAll_append]
  have hnew : ∀ node ∈ later, node.key ∉ (FieldGroup.addAll [] nodes).map FieldGroup.key := by
    intro node hnode hmem
    exact keys hmem ((FieldGroup.mem_map_key_addAll _ _ _).mpr (.inr ⟨node, hnode, rfl⟩))
  simpa using FieldGroup.addAll_append_of_notMem hnew []

end Scope

namespace Environment

variable (env : Environment State Object Item)

theorem executeGroups_append (execute : ObjectExecutor State Object Item) (path : Path)
    (type : ObjectType) (source : Resolved Object Item) (groups later : List FieldGroup) :
    env.executeGroups execute path type source (groups ++ later) = (do
      let members ← env.executeGroups execute path type source groups
      let others ← env.executeGroups execute path type source later
      pure (members ++ others)) := by
  induction groups with
  | nil => simp [executeGroups]
  | cons group rest ih =>
      simp only [List.cons_append, executeGroups]
      cases env.schema.field? type.name group.first.name with
      | none => exact ih
      | some definition => simp [ih]

end Environment

/-- The whole is the first part and then the second, which starts from the state that the first one
has left behind. A null that ends the first part keeps the second from being executed. -/
structure InSequence (first second whole : Exec State Members) : Prop where
  eq : whole = (do
    let members ← first
    let others ← second
    pure (members ++ others))
  joins : ∀ {state members errors middle others later next},
    first state = some ⟨.value members, errors, middle⟩ →
    second middle = some ⟨.value others, later, next⟩ →
    whole state = some ⟨.value (members ++ others), errors ++ later, next⟩
  nulled : ∀ {state members errors middle later next},
    first state = some ⟨.value members, errors, middle⟩ →
    second middle = some ⟨.nulled, later, next⟩ →
    whole state = some ⟨.nulled, errors ++ later, next⟩
  stops : ∀ {state errors next}, first state = some ⟨.nulled, errors, next⟩ →
    whole state = some ⟨.nulled, errors, next⟩

theorem InSequence.of_eq {first second whole : Exec State Members}
    (h : whole = (do
      let members ← first
      let others ← second
      pure (members ++ others))) : InSequence first second whole where
  eq := h
  joins := by
    intro state members errors middle others later next hfirst hsecond
    rw [h, Exec.bind_of_value hfirst, Exec.bind_of_value hsecond]
    change some _ = some _
    simp
  nulled := by
    intro state members errors middle later next hfirst hsecond
    rw [h, Exec.bind_of_value hfirst, Exec.bind_of_nulled hsecond]
    rfl
  stops := by
    intro state errors next hfirst
    rw [h, Exec.bind_of_nulled hfirst]

namespace Environment

variable (env : Environment State Object Item)

/-- Selections without a common key or fragment are executed in sequence. So are the fields of an
operation, wherever their list is cut: a field is completed, with everything below it, before the
next one is resolved. -/
theorem executeSelections_append (depth : Nat) (path : Path) (type : ObjectType)
    (source : Resolved Object Item) {first second : List Selection}
    (keys : (((env.scope type).collectFields first).map FieldGroup.key).Disjoint
      (((env.scope type).collectFields second).map FieldGroup.key))
    (fragments : ((env.scope type).met first).Disjoint ((env.scope type).met second)) :
    InSequence (env.executeSelections depth path type source first)
      (env.executeSelections depth path type source second)
      (env.executeSelections depth path type source (first ++ second)) ∧
    ∀ earlier later,
      (env.scope type).collectFields env.request.operation.selections = earlier ++ later →
      InSequence
        (env.executeGroups (env.executeSelections depth) [] type env.request.root earlier)
        (env.executeGroups (env.executeSelections depth) [] type env.request.root later)
        (env.run (depth + 1) type) := by
  constructor
  · apply InSequence.of_eq
    cases depth with
    | zero => rfl
    | succ depth =>
        simp only [executeSelections, Scope.collectFields_append keys fragments,
          executeGroups_append]
  · intro earlier later hgroups
    apply InSequence.of_eq
    simp only [run, executeSelections, hgroups, executeGroups_append]

end Environment

namespace Sample

def typenameHead : FieldHead := { name := "__typename", location := ⟨1, 17⟩ }

theorem walk_user (answer : ResolverResult Empty Empty) :
    ((environment answer).scope query).Walk [] selections [⟨userHead, [.field nameHead []]⟩] [] :=
  .field rfl (.nil [])

/-- The spread of a fragment that the document lacks counts as met. -/
theorem walk_typename (answer : ResolverResult Empty Empty) :
    ((environment answer).scope query).Walk [] [.spread "Details" [], .field typenameHead []]
      [⟨typenameHead, []⟩] ["Details"] :=
  .dropped List.not_mem_nil rfl (.field rfl (.nil _))

/-- The selections of `{ user { name } ...Details __typename }` in two parts. -/
theorem user_then_typename :
    InSequence
      ((environment nameless).executeSelections 2 [] query (.json .null) selections)
      ((environment nameless).executeSelections 2 [] query (.json .null)
        [.spread "Details" [], .field typenameHead []])
      ((environment nameless).executeSelections 2 [] query (.json .null)
        (selections ++ [.spread "Details" [], .field typenameHead []])) ∧
    ∀ earlier later,
      ((environment nameless).scope query).collectFields
        (environment nameless).request.operation.selections = earlier ++ later →
      InSequence
        ((environment nameless).executeGroups ((environment nameless).executeSelections 2) [] query
          (environment nameless).request.root earlier)
        ((environment nameless).executeGroups ((environment nameless).executeSelections 2) [] query
          (environment nameless).request.root later)
        ((environment nameless).run 3 query) := by
  apply Environment.executeSelections_append
  · rw [(walk_user nameless).collectFields_eq, (walk_typename nameless).collectFields_eq]
    exact List.disjoint_singleton.mpr (by decide)
  · rw [Scope.met, Scope.met, (walk_user nameless).collect_eq]
    exact List.disjoint_nil_left _

end Sample

end GraphQL
