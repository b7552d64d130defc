import GraphQL.Proofs.Execution.Correspondence
import GraphQL.Proofs.Execution.Run

/-! # Rewritten documents

A document may be rewritten definition by definition, so that nothing but selections changes. Then
the same operation is selected, its variables get the same values, and under every name there is the
rewritten fragment. -/

namespace GraphQL

/-- The same operation with other selections. -/
inductive Operation.Rewritten (related : List Selection → List Selection → Prop)
    (operation : Operation) : Operation → Prop
  | mk {selections} (below : related operation.selections selections) :
      Rewritten related operation { operation with selections }

/-- The same fragment with other selections. What they are may depend on the fragment. -/
inductive Fragment.Rewritten (related : Fragment → List Selection → List Selection → Prop)
    (fragment : Fragment) : Fragment → Prop
  | mk {selections} (below : related fragment fragment.selections selections) :
      Rewritten related fragment { fragment with selections }

section

variable (operations : List Selection → List Selection → Prop)
  (bodies : Fragment → List Selection → List Selection → Prop)

inductive Definition.Rewritten : Definition → Definition → Prop
  | operation {op op'} (rewritten : op.Rewritten operations op') :
      Rewritten (.operation op) (.operation op')
  | fragment {body body'} (rewritten : body.Rewritten bodies body') :
      Rewritten (.fragment body) (.fragment body')
  | typeSystem (kind location) : Rewritten (.typeSystem kind location) (.typeSystem kind location)

/-- The same definitions in the same order, with other selections. -/
def Document.Rewritten (document document' : Document) : Prop :=
  List.Forall₂ (Definition.Rewritten operations bodies) document document'

end

/-! ## Fragments -/

namespace Catalog

variable {α : Type} [Named α] {related : α → α → Prop} {catalog catalog' : Catalog α}
  {entry entry' : α}

theorem map_name_eq (named : ∀ entry entry', related entry entry' →
      Named.name entry = Named.name entry')
    {entries entries' : List α} (h : List.Forall₂ related entries entries') :
    entries.map Named.name = entries'.map Named.name := by
  induction h with
  | nil => rfl
  | cons head _ ih => rw [List.map_cons, List.map_cons, named _ _ head, ih]

theorem forall₂_put (named : ∀ entry entry', related entry entry' →
      Named.name entry = Named.name entry')
    (h : List.Forall₂ related catalog.entries catalog'.entries) (hentry : related entry entry') :
    List.Forall₂ related (catalog.put entry).entries (catalog'.put entry').entries := by
  have hnames := map_name_eq named h
  rw [put, put]
  by_cases hold : Named.name entry ∈ catalog.entries.map Named.name
  · have hold' : Named.name entry' ∈ catalog'.entries.map Named.name := by
      rwa [← named entry entry' hentry, ← hnames]
    simp only [hold, hold', dite_true]
    refine List.forall₂_map_left_iff.mpr (List.forall₂_map_right_iff.mpr (h.imp ?_))
    intro other other' hother
    rw [named other other' hother, named entry entry' hentry]
    split
    · exact hentry
    · exact hother
  · have hold' : ¬Named.name entry' ∈ catalog'.entries.map Named.name := by
      rwa [← named entry entry' hentry, ← hnames]
    simp only [hold, hold', dite_false]
    exact List.rel_append h (.cons hentry .nil)

theorem forall₂_ofList (named : ∀ entry entry', related entry entry' →
      Named.name entry = Named.name entry')
    {entries entries' : List α} (h : List.Forall₂ related entries entries') :
    List.Forall₂ related (ofList entries).entries (ofList entries').entries := by
  suffices hfold : ∀ catalog catalog' : Catalog α,
      List.Forall₂ related catalog.entries catalog'.entries →
      List.Forall₂ related (entries.foldl put catalog).entries
        (entries'.foldl put catalog').entries from
    hfold _ _ .nil
  induction h with
  | nil => exact fun _ _ => id
  | cons head _ ih => exact fun _ _ hcatalog => ih _ _ (forall₂_put named hcatalog head)

theorem find?_forall₂ (named : ∀ entry entry', related entry entry' →
      Named.name entry = Named.name entry')
    (h : List.Forall₂ related catalog.entries catalog'.entries) (name : String) :
    Option.Rel related (catalog.find? name) (catalog'.find? name) := by
  rw [find?, find?]
  generalize catalog.entries = entries at h
  generalize catalog'.entries = entries' at h
  induction h with
  | nil => exact .none
  | @cons first first' _ _ head _ ih =>
      rw [List.find?_cons, List.find?_cons, named first first' head]
      split
      · exact .some head
      · exact ih

end Catalog

theorem Fragment.Rewritten.name_eq {bodies : Fragment → List Selection → List Selection → Prop}
    (fragment fragment' : Fragment) (h : fragment.Rewritten bodies fragment') :
    Named.name fragment = Named.name fragment' := by
  cases h
  rfl

namespace Document

variable {operations : List Selection → List Selection → Prop}
  {bodies : Fragment → List Selection → List Selection → Prop} {document document' : Document}

theorem Rewritten.fragments (h : document.Rewritten operations bodies document') :
    List.Forall₂ (Fragment.Rewritten bodies) document.fragments.entries
      document'.fragments.entries := by
  refine Catalog.forall₂_ofList Fragment.Rewritten.name_eq ?_
  · refine List.rel_filterMap ?_ h
    intro definition definition' hrewritten
    cases hrewritten with
    | operation => exact .none
    | fragment rewritten => exact .some rewritten
    | typeSystem => exact .none

/-- Under every name there is the rewritten fragment, if there is one. -/
theorem Rewritten.find? (h : document.Rewritten operations bodies document') (name : String) :
    Option.Rel (Fragment.Rewritten bodies) (document.fragments.find? name)
      (document'.fragments.find? name) :=
  Catalog.find?_forall₂ Fragment.Rewritten.name_eq h.fragments name

/-! ## Operations -/

/-- The rewritten document is scanned to the same end. -/
inductive ScannedAlike (operations : List Selection → List Selection → Prop) :
    Except RequestError (Option Operation) → Except RequestError (Option Operation) → Prop
  | refused (error : RequestError) : ScannedAlike operations (.error error) (.error error)
  | found {found? found?'}
      (rewritten : Option.Rel (Operation.Rewritten operations) found? found?') :
      ScannedAlike operations (.ok found?) (.ok found?')

theorem Rewritten.scanOperations (h : document.Rewritten operations bodies document')
    (name? : Option String) {found? found?' : Option Operation}
    (hfound : Option.Rel (Operation.Rewritten operations) found? found?') :
    ScannedAlike operations (Document.scanOperations name? found? document)
      (Document.scanOperations name? found?' document') := by
  induction h generalizing found? found?' with
  | nil => exact .found hfound
  | cons head _ ih =>
      cases head with
      | @operation op op' rewritten =>
          cases name? with
          | none =>
              cases hfound with
              | none => exact ih (.some rewritten)
              | some => exact .refused .ambiguousOperation
          | some name =>
              have hname : op'.name? = op.name? := by
                cases rewritten
                rfl
              simp only [Document.scanOperations, hname]
              refine ih ?_
              split
              · exact .some rewritten
              · exact hfound
      | fragment rewritten => exact ih hfound
      | typeSystem kind location => exact .refused _

/-- The rewritten operation is selected, or the request is refused for the same reason. -/
theorem Rewritten.selectOperation (h : document.Rewritten operations bodies document')
    (name? : Option String) :
    (∃ error, document.selectOperation name? = .error error ∧
      document'.selectOperation name? = .error error) ∨
    ∃ operation operation', document.selectOperation name? = .ok operation ∧
      document'.selectOperation name? = .ok operation' ∧
      operation.Rewritten operations operation' := by
  have hscan := h.scanOperations name? .none
  rw [Document.selectOperation, Document.selectOperation]
  generalize Document.scanOperations name? none document = scanned at hscan
  generalize Document.scanOperations name? none document' = scanned' at hscan
  cases hscan with
  | refused error => exact .inl ⟨error, rfl, rfl⟩
  | found rewritten =>
      cases rewritten with
      | none => cases name? <;> exact .inl ⟨_, rfl, rfl⟩
      | some rewritten => exact .inr ⟨_, _, rfl, rfl, rewritten⟩

end Document

/-! ## Requests -/

variable {State Object Item : Type}

/-- The environment for another operation in a document with other fragments. -/
def Environment.rewrite (env : Environment State Object Item) (operation : Operation)
    (fragments : Catalog Fragment) : Environment State Object Item :=
  { env with request := { env.request with operation, fragments } }

namespace Request

variable {operations : List Selection → List Selection → Prop}
  {bodies : Fragment → List Selection → List Selection → Prop}
  {request : Request State Object Item} {document' : Document}

/-- The request with the rewritten document is refused for the same reason, or goes through with the
rewritten operation and the same values for its variables. -/
theorem prepare_rewritten (executable : ExecutableSchema State Object Item)
    (service : Service State Object Item)
    (h : request.document.Rewritten operations bodies document') :
    (∃ error, request.prepare executable service = .error error ∧
      ({ request with document := document' } : Request State Object Item).prepare executable
        service = .error error) ∨
    ∃ env type operation', request.prepare executable service = .ok (env, type) ∧
      ({ request with document := document' } : Request State Object Item).prepare executable
        service = .ok (env.rewrite operation' document'.fragments, type) ∧
      env.request.operation.Rewritten operations operation' := by
  rw [prepare, prepare]
  rcases h.selectOperation request.operationName? with
    ⟨error, hselect, hselect'⟩ | ⟨operation, operation', hselect, hselect', hrewritten⟩
  · rw [hselect, hselect']
    exact .inl ⟨error, rfl, rfl⟩
  · obtain ⟨below⟩ := hrewritten
    rw [hselect, hselect']
    simp only [bind, Except.bind]
    cases executable.schema.coerceVariables operation.variableDefinitions
      request.variableValues with
    | error error => exact .inl ⟨_, rfl, rfl⟩
    | ok variableValues =>
        simp only [Except.mapError]
        cases executable.schema.rootType? operation.kind with
        | none => exact .inl ⟨_, rfl, rfl⟩
        | some type => exact .inr ⟨_, type, _, rfl, rfl, .mk below⟩

end Request

end GraphQL
