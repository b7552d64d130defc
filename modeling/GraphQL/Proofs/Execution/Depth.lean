import GraphQL.Proofs.Document.Aliases
import GraphQL.Proofs.Execution.Termination
import GraphQL.Proofs.Selection.Trace

/-! # How deep executions go

Fields nest no deeper than there are field nodes in the selections and in the fragments that these
can come to. If no fragment reaches itself then each one is opened at most once on the way down, so
that the field nodes of the whole document are enough. -/

namespace GraphQL

namespace Scope

variable {scope : Scope}

/-- The number of field nodes in the fragments that have not been opened yet. -/
def unopenedFields (scope : Scope) (opened : List String) : Nat :=
  ((scope.fragments.entries.filter fun fragment => fragment.name ∉ opened).map
    fun fragment => Selection.fieldCounts fragment.selections).sum

/-- To open a fragment moves its field nodes from those that are left to those that are met. -/
theorem unopenedFields_cons_le {fragment : String} {opened : List String} {definition : Fragment}
    (found : scope.fragments.find? fragment = some definition) (new : fragment ∉ opened) :
    Selection.fieldCounts definition.selections + scope.unopenedFields (fragment :: opened) ≤
      scope.unopenedFields opened :=
  unopened_cons_of_found found new Selection.fieldCounts

end Scope

/-! ## Selections nest as deep as their spreads and their own fields -/

section

variable {fragments : Catalog Fragment} {depth : Nat}

mutual

theorem Selection.nests_of_spreads (selection : Selection)
    (hspreads : ∀ spread ∈ selection.spreads,
      (Selection.spread spread.1 spread.2).Nests fragments depth) :
    selection.Nests fragments (selection.fieldCount + depth) := by
  cases selection with
  | field head selections =>
      rw [Selection.spreads] at hspreads
      rw [Selection.fieldCount, Nat.add_assoc, Nat.add_comm]
      exact .field (Selection.nests_of_spreadsAll selections hspreads)
  | spread fragment directives =>
      rw [Selection.spreads] at hspreads
      rw [Selection.fieldCount, Nat.zero_add]
      exact hspreads _ List.mem_cons_self
  | inlineFragment condition? directives selections =>
      rw [Selection.spreads] at hspreads
      rw [Selection.fieldCount]
      exact .inlineFragment (Selection.nests_of_spreadsAll selections hspreads)

theorem Selection.nests_of_spreadsAll (selections : List Selection)
    (hspreads : ∀ spread ∈ Selection.spreadsAll selections,
      (Selection.spread spread.1 spread.2).Nests fragments depth) :
    ∀ selection ∈ selections,
      selection.Nests fragments (Selection.fieldCounts selections + depth) := by
  cases selections with
  | nil => simp
  | cons selection rest =>
      rw [Selection.spreadsAll] at hspreads
      rw [Selection.fieldCounts]
      have ⟨hselection, hrest⟩ := List.forall_mem_append.mp hspreads
      have hhead := Selection.nests_of_spreads selection hselection
      have htail := Selection.nests_of_spreadsAll rest hrest
      refine List.forall_mem_cons.mpr ⟨hhead.mono (by omega), fun other hmem => ?_⟩
      exact (htail other hmem).mono (by omega)

end

end

namespace Scope

variable {scope : Scope}

/-- A spread opens fields no deeper than there are field nodes in fragments that have not been
opened around it: induction on the number of these fragments. -/
theorem nests_spread (acyclic : scope.fragments.Acyclic) (levels : Nat) (opened : List String)
    (hlevels : scope.unmet opened ≤ levels) (spread : String × List Directive)
    (hopened : ∀ outer ∈ opened, Relation.TransGen scope.fragments.Spreads outer spread.1) :
    (Selection.spread spread.1 spread.2).Nests scope.fragments (scope.unopenedFields opened) := by
  induction levels generalizing opened spread with
  | zero =>
      refine .spread fun definition found => ?_
      have hnew : spread.1 ∉ opened := fun hmem => acyclic spread.1 (hopened spread.1 hmem)
      have hfewer := scope.unmet_cons_lt found hnew
      omega
  | succ levels ih =>
      refine .spread fun definition found selection hmem => ?_
      have hnew : spread.1 ∉ opened := fun hmem => acyclic spread.1 (hopened spread.1 hmem)
      have hfewer := scope.unmet_cons_lt found hnew
      have hfields := unopenedFields_cons_le found hnew
      have hbody : ∀ inner ∈ Selection.spreadsAll definition.selections,
          (Selection.spread inner.1 inner.2).Nests scope.fragments
            (scope.unopenedFields (spread.1 :: opened)) := by
        intro inner hinner
        have hstep : scope.fragments.Spreads spread.1 inner.1 :=
          ⟨definition, inner.2, found, hinner⟩
        refine ih (spread.1 :: opened) (by omega) inner ?_
        refine List.forall_mem_cons.mpr ⟨.single hstep, fun outer houter => ?_⟩
        exact (hopened outer houter).tail hstep
      exact (Selection.nests_of_spreadsAll _ hbody selection hmem).mono hfields

end Scope

/-- Without cycles, fields nest no deeper than there are field nodes in the selections and in all
fragments. -/
theorem Catalog.Acyclic.nests {fragments : Catalog Fragment} (acyclic : fragments.Acyclic)
    (selections : List Selection) :
    ∀ selection ∈ selections, selection.Nests fragments
      (Selection.fieldCounts selections +
        (fragments.entries.map fun fragment => Selection.fieldCounts fragment.selections).sum) := by
  -- Only the fragments of a scope matter here.
  let scope : Scope := { includes := fun _ => true, applies := fun _ => true, fragments }
  have hall : scope.unopenedFields [] =
      (fragments.entries.map fun fragment => Selection.fieldCounts fragment.selections).sum := by
    simp [Scope.unopenedFields, scope]
  rw [← hall]
  refine Selection.nests_of_spreadsAll selections fun spread _ => ?_
  exact scope.nests_spread acyclic _ [] (Nat.le_refl _) spread nofun

namespace Document

/-- The field nodes of an operation and of the fragments are field nodes of the document. -/
theorem fieldCounts_le {document : Document} {operation : Operation}
    (hmem : .operation operation ∈ document) :
    Selection.fieldCounts operation.selections +
        (document.fragments.entries.map
          fun fragment => Selection.fieldCounts fragment.selections).sum ≤
      (document.map Definition.fieldCount).sum := by
  have hdistinct : (Definition.operation operation ::
      document.fragments.entries.map Definition.fragment).Nodup := by
    refine List.nodup_cons.mpr ⟨by simp, ?_⟩
    exact List.Nodup.map (fun _ _ => Definition.fragment.inj) document.fragments.nodup_entries
  have hsubset : Definition.operation operation ::
      document.fragments.entries.map Definition.fragment ⊆ document := by
    refine List.cons_subset.mpr ⟨hmem, fun definition hdefinition => ?_⟩
    obtain ⟨fragment, hfragment, rfl⟩ := List.mem_map.mp hdefinition
    exact mem_of_find?_fragments (Catalog.find?_of_mem hfragment)
  have hsum := sum_map_le_of_subset hdistinct hsubset Definition.fieldCount
  simpa [Function.comp_def, Definition.fieldCount] using hsum

end Document

namespace Request

variable {State Object Item : Type} {executable : ExecutableSchema State Object Item}
  {service : Service State Object Item} {request : Request State Object Item}
  {env : Environment State Object Item} {type : ObjectType}

theorem fieldCounts_lt_depthBound (request : Request State Object Item) :
    (request.document.map Definition.fieldCount).sum < request.depthBound := by
  rw [depthBound, ← List.foldl_map, ← List.sum_eq_foldl]
  omega

/-- If no fragment of the document reaches itself, the request is executed to an end. -/
theorem ends_of_acyclic (prepared : request.prepare executable service = .ok (env, type))
    (acyclic : env.request.fragments.Acyclic) : (env.run request.depthBound type).Ends := by
  obtain ⟨operation, coerced, hselected, -, -, rfl⟩ := prepare_eq_ok_iff.mp prepared
  have hfields := Document.fieldCounts_le (Document.mem_of_selectOperation hselected)
  have hbound := request.fieldCounts_lt_depthBound
  exact Environment.ends_of_nests (acyclic.nests operation.selections)
    (Nat.lt_of_le_of_lt hfields hbound) [] type _

end Request

end GraphQL
