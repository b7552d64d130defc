import GraphQL.Execution.Request
import GraphQL.Proofs.Schema.Catalogs

/-! # The operation that a request selects

A document is read in order, up to the first definition that stands in the way of the request. If
there is none, then the operation is the only one of the document, or the last one of the name that
the request gives. -/

namespace GraphQL

namespace Document

def operation? : Definition → Option Operation
  | .operation operation => some operation
  | _ => none

/-- The operations of a document in order. -/
def operations (document : Document) : List Operation := document.filterMap operation?

/-- The document describes no part of a service. -/
def Executable (document : Document) : Prop :=
  ∀ kind location, .typeSystem kind location ∉ document

/-- Nothing in the document stands in the way of a request: it describes no part of a service, and
if the request gives no name it has at most one operation. -/
structure Admissible (document : Document) (name? : Option String) : Prop where
  executable : document.Executable
  single : name? = none → document.operations.length ≤ 1

/-- The first definition that stands in the way of a request, and the error that it makes. -/
inductive Blocked (document : Document) (name? : Option String) : RequestError → Prop
  | unsupported {before after : Document} {kind location}
      (order : document = before ++ .typeSystem kind location :: after)
      (earlier : before.Admissible name?) :
      Blocked document name? (.unsupportedDefinition kind location)
  | ambiguous {before after : Document} {first second}
      (order : document = before ++ .operation second :: after) (unnamed : name? = none)
      (earlier : before.Admissible name?) (found : before.operations = [first]) :
      Blocked document name? .ambiguousOperation

/-- The operation that a request selects. -/
inductive Selects (document : Document) : Option String → Operation → Prop
  | only {operation} (admissible : document.Admissible none)
      (only : document.operations = [operation]) : Selects document none operation
  | last {name operation} (admissible : document.Admissible (some name))
      (last : LastWith (fun other => other.name? = some name) document.operations operation) :
      Selects document (some name) operation

/-- Why a request selects no operation. -/
inductive Refuses (document : Document) : Option String → RequestError → Prop
  | blocked {name? error} (blocked : document.Blocked name? error) : Refuses document name? error
  | unknown {name} (admissible : document.Admissible (some name))
      (nobody : ∀ operation ∈ document.operations, operation.name? ≠ some name) :
      Refuses document (some name) (.unknownOperation name)
  | nothing (admissible : document.Admissible none) (nobody : document.operations = []) :
      Refuses document none .noOperation

/-! ## Every document selects an operation or refuses the request -/

theorem operations_append (document rest : Document) :
    operations (document ++ rest) = document.operations ++ operations rest :=
  List.filterMap_append

theorem operations_operation (operation : Operation) (rest : Document) :
    operations (.operation operation :: rest) = operation :: rest.operations := rfl

theorem operations_fragment (fragment : Fragment) (rest : Document) :
    operations (.fragment fragment :: rest) = rest.operations := rfl

namespace Admissible

variable {document : Document} {name? : Option String}

theorem nil (name? : Option String) : Admissible [] name? := ⟨nofun, fun _ => Nat.zero_le 1⟩

theorem append_fragment (h : document.Admissible name?) (fragment : Fragment) :
    Admissible (document ++ [.fragment fragment]) name? where
  executable kind location := by simpa using h.executable kind location
  single hname := by
    rw [operations_append, operations_fragment]
    simpa [operations] using h.single hname

theorem append_operation (h : document.Admissible name?) (operation : Operation)
    (first : name? = none → document.operations = []) :
    Admissible (document ++ [.operation operation]) name? where
  executable kind location := by simpa using h.executable kind location
  single hname := by
    rw [operations_append, first hname, List.nil_append, operations_operation]
    exact Nat.le_refl 1

theorem cases_none (h : document.Admissible none) :
    document.operations = [] ∨ ∃ operation, document.operations = [operation] := by
  have hlength := h.single rfl
  cases hoperations : document.operations with
  | nil => exact .inl rfl
  | cons operation rest =>
      rw [hoperations, List.length_cons] at hlength
      obtain rfl : rest = [] := List.eq_nil_of_length_eq_zero (by omega)
      exact .inr ⟨operation, rfl⟩

end Admissible

theorem Blocked.append {document : Document} {name? : Option String} {error : RequestError}
    (h : document.Blocked name? error) (rest : Document) :
    Blocked (document ++ rest) name? error := by
  cases h with
  | @unsupported before after kind location order earlier =>
      have horder : document ++ rest = before ++ .typeSystem kind location :: (after ++ rest) := by
        simp [order]
      exact .unsupported horder earlier
  | @ambiguous before after first second order unnamed earlier found =>
      have horder : document ++ rest = before ++ .operation second :: (after ++ rest) := by
        simp [order]
      exact .ambiguous horder unnamed earlier found

/-- A document is admissible, or else some definition is the first that is not: induction on the
document from its end. -/
theorem admissible_or_blocked (document : Document) (name? : Option String) :
    document.Admissible name? ∨ ∃ error, document.Blocked name? error := by
  induction document using List.reverseRecOn with
  | nil => exact .inl (.nil name?)
  | append_singleton document last ih =>
      rcases ih with hadmissible | ⟨error, hblocked⟩
      · cases last with
        | fragment fragment => exact .inl (hadmissible.append_fragment fragment)
        | typeSystem kind location => exact .inr ⟨_, .unsupported rfl hadmissible⟩
        | operation operation =>
            cases name? with
            | some name => exact .inl (hadmissible.append_operation operation nofun)
            | none =>
                rcases hadmissible.cases_none with hnobody | ⟨first, hfound⟩
                · exact .inl (hadmissible.append_operation operation fun _ => hnobody)
                · exact .inr ⟨_, .ambiguous rfl rfl hadmissible hfound⟩
      · exact .inr ⟨error, hblocked.append [last]⟩

theorem selects_or_refuses (document : Document) (name? : Option String) :
    (∃ operation, document.Selects name? operation) ∨ ∃ error, document.Refuses name? error := by
  rcases document.admissible_or_blocked name? with hadmissible | ⟨error, hblocked⟩
  · cases name? with
    | none =>
        rcases hadmissible.cases_none with hnobody | ⟨operation, honly⟩
        · exact .inr ⟨_, .nothing hadmissible hnobody⟩
        · exact .inl ⟨operation, .only hadmissible honly⟩
    | some name =>
        rcases LastWith.exists_or_none (fun other : Operation => other.name? = some name)
          document.operations with ⟨operation, hlast⟩ | hnobody
        · exact .inl ⟨operation, .last hadmissible hlast⟩
        · exact .inr ⟨_, .unknown hadmissible hnobody⟩
  · exact .inr ⟨error, .blocked hblocked⟩

/-! ## The scan -/

theorem Executable.tail {definition : Definition} {document : Document}
    (h : Executable (definition :: document)) : document.Executable :=
  fun kind location hmem => h kind location (List.mem_cons_of_mem _ hmem)

/-- Fragments make no difference to what has been found. -/
theorem scanOperations_of_fragments {document : Document} (executable : document.Executable)
    (nobody : document.operations = []) (name? : Option String) (found? : Option Operation)
    (rest : Document) :
    scanOperations name? found? (document ++ rest) = scanOperations name? found? rest := by
  induction document with
  | nil => rfl
  | cons definition document ih =>
      cases definition with
      | operation operation => cases nobody
      | fragment fragment => exact ih executable.tail nobody
      | typeSystem kind location => exact absurd List.mem_cons_self (executable kind location)

/-- Up to a second operation, the scan for an unnamed one keeps the first. -/
theorem Admissible.scanOperations_none {document : Document} (h : document.Admissible none)
    (rest : Document) :
    scanOperations none none (document ++ rest) =
      scanOperations none document.operations.head? rest := by
  induction document with
  | nil => rfl
  | cons definition document ih =>
      have hexecutable := h.executable.tail
      cases definition with
      | operation operation =>
          have hnobody : operations document = [] := by
            have hlength := h.single rfl
            rw [operations_operation, List.length_cons] at hlength
            exact List.eq_nil_of_length_eq_zero (by omega)
          exact scanOperations_of_fragments hexecutable hnobody none (some operation) rest
      | fragment fragment => exact ih ⟨hexecutable, h.single⟩
      | typeSystem kind location => exact absurd List.mem_cons_self (h.executable kind location)

/-- The scan for a name comes to the end of what describes no part of a service. -/
theorem exists_scanOperations {document : Document} (executable : document.Executable)
    (name : String) (found? : Option Operation) (rest : Document) :
    ∃ later?, scanOperations (some name) found? (document ++ rest) =
      scanOperations (some name) later? rest := by
  induction document generalizing found? with
  | nil => exact ⟨found?, rfl⟩
  | cons definition document ih =>
      cases definition with
      | operation operation => exact ih executable.tail _
      | fragment fragment => exact ih executable.tail found?
      | typeSystem kind location => exact absurd List.mem_cons_self (executable kind location)

/-- If nobody bears the name, what was found before is kept. -/
theorem scanOperations_nobody {document : Document} (executable : document.Executable)
    {name : String} (nobody : ∀ operation ∈ document.operations, operation.name? ≠ some name)
    (found? : Option Operation) : scanOperations (some name) found? document = .ok found? := by
  induction document with
  | nil => rfl
  | cons definition document ih =>
      cases definition with
      | operation operation =>
          obtain ⟨hother, hnobody⟩ := List.forall_mem_cons.mp nobody
          rw [scanOperations, if_neg hother]
          exact ih executable.tail hnobody
      | fragment fragment => exact ih executable.tail nobody
      | typeSystem kind location => exact absurd List.mem_cons_self (executable kind location)

/-- The scan for a name comes to the last operation that bears it. -/
theorem scanOperations_last {document : Document} (executable : document.Executable) {name : String}
    {operation : Operation}
    (last : LastWith (fun other => other.name? = some name) document.operations operation)
    (found? : Option Operation) :
    scanOperations (some name) found? document = .ok (some operation) := by
  induction document generalizing found? with
  | nil => simp [LastWith, operations] at last
  | cons definition document ih =>
      cases definition with
      | operation first =>
          rcases LastWith.cons_iff.mp last with hlast | ⟨rfl, hnamed, hnobody⟩
          · exact ih executable.tail hlast _
          · rw [scanOperations, if_pos hnamed]
            exact scanOperations_nobody executable.tail hnobody _
      | fragment fragment => exact ih executable.tail last found?
      | typeSystem kind location => exact absurd List.mem_cons_self (executable kind location)

theorem Blocked.scanOperations_eq {document : Document} {name? : Option String}
    {error : RequestError} (h : document.Blocked name? error) :
    scanOperations name? none document = .error error := by
  cases h with
  | unsupported order earlier =>
      rw [order]
      cases name? with
      | none => rw [earlier.scanOperations_none, scanOperations]
      | some name =>
          obtain ⟨later?, hscan⟩ := exists_scanOperations earlier.executable name none _
          rw [hscan, scanOperations]
  | ambiguous order unnamed earlier found =>
      subst unnamed
      rw [order, earlier.scanOperations_none, found]
      rfl

/-- The scan of an admissible document without a name comes to its only operation. -/
theorem Admissible.scanOperations_eq {document : Document} (h : document.Admissible none) :
    scanOperations none none document = .ok document.operations.head? := by
  have hscan := h.scanOperations_none []
  rwa [List.append_nil] at hscan

/-! ## What is selected -/

variable {document : Document} {name? : Option String} {operation : Operation}
  {error : RequestError}

theorem Selects.selectOperation_eq (h : document.Selects name? operation) :
    document.selectOperation name? = .ok operation := by
  cases h with
  | only admissible only =>
      rw [selectOperation, admissible.scanOperations_eq, only]
      rfl
  | last admissible last =>
      rw [selectOperation, scanOperations_last admissible.executable last]
      rfl

theorem Refuses.selectOperation_eq (h : document.Refuses name? error) :
    document.selectOperation name? = .error error := by
  cases h with
  | blocked blocked =>
      rw [selectOperation, blocked.scanOperations_eq]
      rfl
  | unknown admissible nobody =>
      rw [selectOperation, scanOperations_nobody admissible.executable nobody]
      rfl
  | nothing admissible nobody =>
      rw [selectOperation, admissible.scanOperations_eq, nobody]
      rfl

theorem selectOperation_eq_ok_iff :
    document.selectOperation name? = .ok operation ↔ document.Selects name? operation := by
  refine ⟨fun h => ?_, Selects.selectOperation_eq⟩
  rcases document.selects_or_refuses name? with ⟨other, hselects⟩ | ⟨error, hrefuses⟩
  · obtain rfl := Except.ok.inj (hselects.selectOperation_eq.symm.trans h)
    exact hselects
  · cases hrefuses.selectOperation_eq.symm.trans h

theorem selectOperation_eq_error_iff :
    document.selectOperation name? = .error error ↔ document.Refuses name? error := by
  refine ⟨fun h => ?_, Refuses.selectOperation_eq⟩
  rcases document.selects_or_refuses name? with ⟨other, hselects⟩ | ⟨other, hrefuses⟩
  · cases hselects.selectOperation_eq.symm.trans h
  · obtain rfl := Except.error.inj (hrefuses.selectOperation_eq.symm.trans h)
    exact hrefuses

-- Whether the second operation or the schema comes first depends on the request.
example (first second : Operation) (location : Location) :
    selectOperation [.operation first, .operation second, .typeSystem .schemaDefinition location]
        none = .error .ambiguousOperation ∧
      selectOperation [.operation first, .operation second, .typeSystem .schemaDefinition location]
        (some "Users") = .error (.unsupportedDefinition .schemaDefinition location) :=
  ⟨rfl, rfl⟩

/-- The fragment of a name is the last one of that name in the document. -/
theorem find?_fragments_iff {name : String} {fragment : Fragment} :
    document.fragments.find? name = some fragment ↔
      LastWith (fun other => other.name = name) (document.filterMap fragment?) fragment :=
  Catalog.find?_ofList _

end Document

end GraphQL
