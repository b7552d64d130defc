import GraphQL.Execution.Request
import Mathlib.Logic.Relation

/-! # Inlined documents

In a document whose fragments do not reach themselves, every spread can be replaced by an inline
fragment, with the selections of its fragment in which spreads are replaced in turn. -/

namespace GraphQL

mutual

/-- The spreads in a selection, at every depth. -/
def Selection.spreads : Selection → List (String × List Directive)
  | .field _ selections => Selection.spreadsAll selections
  | .spread fragment directives => [(fragment, directives)]
  | .inlineFragment _ _ selections => Selection.spreadsAll selections

def Selection.spreadsAll : List Selection → List (String × List Directive)
  | [] => []
  | selection :: rest => selection.spreads ++ Selection.spreadsAll rest

end

/-- No spread in the selections is excluded by its directives. -/
def Selection.SpreadsIncluded (includes : List Directive → Bool) (selections : List Selection) :
    Prop :=
  ∀ spread ∈ Selection.spreadsAll selections, includes spread.2 = true

mutual

/-- Puts other selections in the place of spreads, at every depth. -/
def Selection.replace (become : String → List Directive → List Selection) :
    Selection → List Selection
  | .field head selections => [.field head (Selection.replaceAll become selections)]
  | .spread fragment directives => become fragment directives
  | .inlineFragment condition? directives selections =>
    [.inlineFragment condition? directives (Selection.replaceAll become selections)]

def Selection.replaceAll (become : String → List Directive → List Selection) :
    List Selection → List Selection
  | [] => []
  | selection :: rest => selection.replace become ++ Selection.replaceAll become rest

end

namespace Catalog

/-- What stands in the place of a spread, if fragments nest no deeper than `levels`. -/
def inlineSpread (fragments : Catalog Fragment) :
    Nat → String → List Directive → List Selection
  | 0, _, _ => []
  | levels + 1, fragment, directives =>
    match fragments.find? fragment with
    | some definition =>
      [.inlineFragment (some definition.condition) directives
        (Selection.replaceAll (fragments.inlineSpread levels) definition.selections)]
    | none => []

/-- Replaces all spreads. Fragments that do not reach themselves cannot nest deeper than there are
fragments. -/
def inline (fragments : Catalog Fragment) (selections : List Selection) : List Selection :=
  Selection.replaceAll (fragments.inlineSpread fragments.entries.length) selections

/-- The body of one fragment has a spread of another one. -/
def Spreads (fragments : Catalog Fragment) (fragment other : String) : Prop :=
  ∃ definition directives, fragments.find? fragment = some definition ∧
    (other, directives) ∈ Selection.spreadsAll definition.selections

/-- No fragment reaches itself. -/
def Acyclic (fragments : Catalog Fragment) : Prop :=
  ∀ fragment, ¬Relation.TransGen fragments.Spreads fragment fragment

end Catalog

def Operation.inline (fragments : Catalog Fragment) (operation : Operation) : Operation :=
  { operation with selections := fragments.inline operation.selections }

def Definition.inline (fragments : Catalog Fragment) : Definition → Definition
  | .operation op => .operation (op.inline fragments)
  | .fragment body => .fragment { body with selections := fragments.inline body.selections }
  | .typeSystem kind location => .typeSystem kind location

/-- The document with inline fragments in place of its spreads. -/
def Document.inlined (document : Document) : Document :=
  document.map (Definition.inline document.fragments)

namespace Document

theorem scanOperations_inline (fragments : Catalog Fragment) (name? : Option String)
    (found? : Option Operation) (document : Document) :
    scanOperations name? (found?.map (Operation.inline fragments))
        (document.map (Definition.inline fragments)) =
      (scanOperations name? found? document).map (Option.map (Operation.inline fragments)) := by
  induction document generalizing found? with
  | nil => rfl
  | cons definition rest ih =>
      cases definition with
      | operation op =>
          cases name? with
          | none =>
              cases found? with
              | none => exact ih (some op)
              | some found => rfl
          | some name =>
              have hname : (op.inline fragments).name? = op.name? := rfl
              have hfound := ih (if op.name? = some name then some op else found?)
              by_cases h : op.name? = some name
              · simpa [Definition.inline, scanOperations, hname, h] using hfound
              · simpa [Definition.inline, scanOperations, hname, h] using hfound
      | fragment body => exact ih found?
      | typeSystem kind location => rfl

/-- The same operation is selected, or the request is refused for the same reason. -/
theorem selectOperation_inlined (document : Document) (name? : Option String) :
    document.inlined.selectOperation name? =
      (document.selectOperation name?).map (Operation.inline document.fragments) := by
  have hscan := scanOperations_inline document.fragments name? none document
  rw [Option.map_none] at hscan
  rw [selectOperation, selectOperation, inlined, hscan]
  cases scanOperations name? none document with
  | error error => rfl
  | ok found? =>
      cases found? with
      | none => cases name? <;> rfl
      | some operation => rfl

end Document

/-! ## Replacing spreads one by one -/

/-- The second list of selections is the first one without spreads: those of fragments are replaced
and all of them included, those of undefined fragments are deleted. -/
inductive Inlines (includes : List Directive → Bool) (fragments : Catalog Fragment) :
    List Selection → List Selection → Prop
  | nil : Inlines includes fragments [] []
  | field {head selections selections' rest rest'}
      (below : Inlines includes fragments selections selections')
      (tail : Inlines includes fragments rest rest') :
      Inlines includes fragments (.field head selections :: rest)
        (.field head selections' :: rest')
  | undefined {fragment directives rest rest'} (undefined : fragments.find? fragment = none)
      (tail : Inlines includes fragments rest rest') :
      Inlines includes fragments (.spread fragment directives :: rest) rest'
  | spread {fragment directives definition body rest rest'}
      (found : fragments.find? fragment = some definition) (included : includes directives = true)
      (below : Inlines includes fragments definition.selections body)
      (tail : Inlines includes fragments rest rest') :
      Inlines includes fragments (.spread fragment directives :: rest)
        (.inlineFragment (some definition.condition) directives body :: rest')
  | inline {condition? directives selections selections' rest rest'}
      (below : Inlines includes fragments selections selections')
      (tail : Inlines includes fragments rest rest') :
      Inlines includes fragments (.inlineFragment condition? directives selections :: rest)
        (.inlineFragment condition? directives selections' :: rest')

section

variable {includes : List Directive → Bool} {fragments : Catalog Fragment}

namespace Inlines

theorem deterministic {selections first second : List Selection}
    (h : Inlines includes fragments selections first)
    (h' : Inlines includes fragments selections second) : second = first := by
  induction h generalizing second with
  | nil =>
      cases h'
      rfl
  | field _ _ ihbelow ih =>
      cases h' with
      | field below tail => rw [ihbelow below, ih tail]
  | undefined undefined _ ih =>
      cases h' with
      | undefined _ tail => exact ih tail
      | spread found => simp [undefined] at found
  | spread found _ _ _ ihbelow ih =>
      cases h' with
      | undefined undefined => simp [found] at undefined
      | spread found' _ below tail =>
          cases found.symm.trans found'
          rw [ihbelow below, ih tail]
  | inline _ _ ihbelow ih =>
      cases h' with
      | inline below tail => rw [ihbelow below, ih tail]

/-- Selections may come to stand in the place of a spread. -/
def Replaces (includes : List Directive → Bool) (fragments : Catalog Fragment)
    (spread : String × List Directive) (replacement : List Selection) : Prop :=
  ∀ rest rest', Inlines includes fragments rest rest' →
    Inlines includes fragments (.spread spread.1 spread.2 :: rest) (replacement ++ rest')

variable {become : String → List Directive → List Selection}

mutual

theorem replace (selection : Selection)
    (hspreads : ∀ spread ∈ selection.spreads,
      Replaces includes fragments spread (become spread.1 spread.2))
    {rest rest' : List Selection} (tail : Inlines includes fragments rest rest') :
    Inlines includes fragments (selection :: rest) (selection.replace become ++ rest') := by
  cases selection with
  | field head selections =>
      rw [Selection.spreads] at hspreads
      rw [Selection.replace]
      exact .field (replaceAll selections hspreads) tail
  | spread fragment directives =>
      rw [Selection.spreads] at hspreads
      rw [Selection.replace]
      exact hspreads _ List.mem_cons_self rest rest' tail
  | inlineFragment condition? directives selections =>
      rw [Selection.spreads] at hspreads
      rw [Selection.replace]
      exact .inline (replaceAll selections hspreads) tail

theorem replaceAll (selections : List Selection)
    (hspreads : ∀ spread ∈ Selection.spreadsAll selections,
      Replaces includes fragments spread (become spread.1 spread.2)) :
    Inlines includes fragments selections (Selection.replaceAll become selections) := by
  cases selections with
  | nil =>
      rw [Selection.replaceAll]
      exact .nil
  | cons selection rest =>
      rw [Selection.spreadsAll] at hspreads
      rw [Selection.replaceAll]
      obtain ⟨hselection, hrest⟩ := List.forall_mem_append.mp hspreads
      exact replace selection hselection (replaceAll rest hrest)

end

end Inlines

end

namespace Scope

variable {scope : Scope}

/-- A spread is replaced as it should be, as long as no more fragments are left to be opened than
levels: the fragments that have been opened around it all reach it, so it is none of them. -/
theorem replaces_inlineSpread (acyclic : scope.fragments.Acyclic)
    (hincluded : ∀ definition ∈ scope.fragments.entries,
      Selection.SpreadsIncluded scope.includes definition.selections)
    (levels : Nat) (opened : List String) (hlevels : scope.unmet opened ≤ levels)
    (spread : String × List Directive) (included : scope.includes spread.2 = true)
    (hopened : ∀ outer ∈ opened, Relation.TransGen scope.fragments.Spreads outer spread.1) :
    Inlines.Replaces scope.includes scope.fragments spread
      (scope.fragments.inlineSpread levels spread.1 spread.2) := by
  induction levels generalizing opened spread with
  | zero =>
      intro rest rest' tail
      have hnew : spread.1 ∉ opened := fun hmem => acyclic spread.1 (hopened spread.1 hmem)
      cases hfound : scope.fragments.find? spread.1 with
      | none => exact .undefined hfound tail
      | some definition =>
          -- Without a level left, all fragments of the document have been opened.
          have hlt := scope.unmet_cons_lt hfound hnew
          omega
  | succ levels ih =>
      intro rest rest' tail
      have hnew : spread.1 ∉ opened := fun hmem => acyclic spread.1 (hopened spread.1 hmem)
      rw [Catalog.inlineSpread]
      cases hfound : scope.fragments.find? spread.1 with
      | none => exact .undefined hfound tail
      | some definition =>
          have hlt := scope.unmet_cons_lt hfound hnew
          refine .spread hfound included (Inlines.replaceAll definition.selections ?_) tail
          intro inner hmem
          have hinner : scope.fragments.Spreads spread.1 inner.1 :=
            ⟨definition, inner.2, hfound, hmem⟩
          refine ih (spread.1 :: opened) (by omega) inner
            (hincluded definition (Catalog.mem_of_find? hfound) inner hmem) ?_
          refine List.forall_mem_cons.mpr ⟨.single hinner, fun outer houter => ?_⟩
          exact (hopened outer houter).tail hinner

variable (scope) in
/-- Without cycles, and with all spreads included, inlining replaces all spreads. -/
theorem inlines_inline (acyclic : scope.fragments.Acyclic)
    (hincluded : ∀ definition ∈ scope.fragments.entries,
      Selection.SpreadsIncluded scope.includes definition.selections)
    {selections : List Selection}
    (hspreads : Selection.SpreadsIncluded scope.includes selections) :
    Inlines scope.includes scope.fragments selections (scope.fragments.inline selections) := by
  apply Inlines.replaceAll
  intro spread hmem
  have hlevels : scope.unmet [] ≤ scope.fragments.entries.length := List.length_filter_le _ _
  exact replaces_inlineSpread acyclic hincluded _ [] hlevels spread (hspreads spread hmem)
    (by simp)

end Scope

end GraphQL
