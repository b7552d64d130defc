import GraphQL.Execution.Request
import GraphQL.Proofs.Coercion.Shape
import GraphQL.Proofs.Schema.Catalogs
import GraphQL.Proofs.Selection.Walk

/-! # Documents without aliases

In a document without aliases the response key of a field is its name. That holds of every field
that is collected for an operation of the document, through whatever fragments it is reached. -/

namespace GraphQL

/-- No field in the selection has an alias that differs from its name. -/
inductive Selection.Unaliased : Selection → Prop
  | field {head selections} (own : FieldHead.key head = head.name)
      (below : ∀ selection ∈ selections, Unaliased selection) :
      Unaliased (.field head selections)
  | spread (fragment directives) : Unaliased (.spread fragment directives)
  | inlineFragment {condition? directives selections}
      (body : ∀ selection ∈ selections, Unaliased selection) :
      Unaliased (.inlineFragment condition? directives selections)

def Definition.selections : Definition → List Selection
  | .operation op => op.selections
  | .fragment body => body.selections
  | .typeSystem _ _ => []

def Document.Unaliased (document : Document) : Prop :=
  ∀ definition ∈ document, ∀ selection ∈ definition.selections, selection.Unaliased

def Catalog.Unaliased (fragments : Catalog Fragment) : Prop :=
  ∀ name fragment, fragments.find? name = some fragment →
    ∀ selection ∈ fragment.selections, selection.Unaliased

namespace Document

/-- The operation that a scan comes to is one of the document, unless it was found before. -/
theorem mem_of_scanOperations {name? : Option String} {found? : Option Operation}
    {document : Document} {operation : Operation}
    (h : scanOperations name? found? document = .ok (some operation)) :
    .operation operation ∈ document ∨ found? = some operation := by
  induction document generalizing found? with
  | nil => exact .inr (Except.ok.inj h)
  | cons definition rest ih =>
      cases definition with
      | operation first =>
          cases name? with
          | none =>
              simp only [scanOperations] at h
              split at h
              · cases h
              · rcases ih h with hmem | heq
                · exact .inl (List.mem_cons_of_mem _ hmem)
                · exact .inl (Option.some.inj heq ▸ List.mem_cons_self)
          | some name =>
              rcases ih h with hmem | heq
              · exact .inl (List.mem_cons_of_mem _ hmem)
              · split at heq
                · exact .inl (Option.some.inj heq ▸ List.mem_cons_self)
                · exact .inr heq
      | fragment fragment =>
          exact (ih h).imp_left (List.mem_cons_of_mem _)
      | typeSystem kind location => cases h

theorem mem_of_selectOperation {document : Document} {name? : Option String}
    {operation : Operation} (h : document.selectOperation name? = .ok operation) :
    .operation operation ∈ document := by
  obtain ⟨found?, hscan, hfound⟩ := bind_eq_ok_iff.mp h
  cases found? with
  | none => cases name? <;> cases hfound
  | some found =>
      cases name? <;> cases hfound <;> exact (mem_of_scanOperations hscan).resolve_right nofun

theorem mem_of_find?_fragments {document : Document} {name : String} {fragment : Fragment}
    (h : document.fragments.find? name = some fragment) : .fragment fragment ∈ document := by
  obtain ⟨definition, hmem, hfragment⟩ :=
    List.mem_filterMap.mp (Catalog.mem_ofList (Catalog.mem_of_find? h))
  cases definition with
  | fragment found =>
      obtain rfl := Option.some.inj hfragment
      exact hmem
  | _ => cases hfragment

theorem Unaliased.fragments {document : Document} (h : document.Unaliased) :
    document.fragments.Unaliased :=
  fun _ fragment found => h (.fragment fragment) (mem_of_find?_fragments found)

end Document

/-- A field that is collected has its name for a key, and so do those below it. -/
theorem Scope.unaliased_collectFields {scope : Scope} (fragments : scope.fragments.Unaliased)
    {selections : List Selection} (unaliased : ∀ selection ∈ selections, selection.Unaliased) :
    ∀ group ∈ scope.collectFields selections,
      group.first.name = group.key ∧ ∀ selection ∈ group.selections, selection.Unaliased := by
  intro group hmem
  have hnodes : ∀ node ∈ group.nodes,
      (Selection.field node.toFieldHead node.selections).Unaliased := by
    refine scope.forall_collectFields ?_ ?_ unaliased group hmem
    · intro fragment directives definition found _
      exact fragments fragment definition found
    · intro condition? directives selections hinline
      cases hinline with
      | inlineFragment body => exact body
  refine ⟨?_, fun selection hselection => ?_⟩
  · have hkey := scope.keyed_collectFields selections group hmem group.first List.mem_cons_self
    cases hnodes group.first List.mem_cons_self with
    | field own => exact own.symm.trans hkey
  · obtain ⟨node, hnode, hselection⟩ := List.mem_flatMap.mp hselection
    cases hnodes node hnode with
    | field _ below => exact below selection hselection

end GraphQL
