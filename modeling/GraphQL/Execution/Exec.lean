import GraphQL.Execution.Failure

/-! Computations that execute parts of a request. They change the service's state, record field
errors in order, and may end by sending a null to the nearest place that can hold it. -/

namespace GraphQL

/-- How a part of a request ends: with a value, or with a null that looks for a nullable place. -/
inductive Outcome (α : Type) where
  | value (value : α)
  | nulled

structure Step (State α : Type) where
  outcome : Outcome α
  errors : List FieldError
  state : State

/-- A computation on the service's state. It gives no step at all if selection sets nest deeper
than execution may go. -/
def Exec (State α : Type) := State → Option (Step State α)

namespace Exec

variable {State α β : Type}

@[ext] theorem ext {first second : Exec State α} (h : ∀ state, first state = second state) :
    first = second :=
  funext h

def pure (value : α) : Exec State α := fun state => some ⟨.value value, [], state⟩

/-- Goes on with the value of a computation. A null on its way skips everything up to the place
that takes it. -/
def bind (first : Exec State α) (next : α → Exec State β) : Exec State β := fun state =>
  match first state with
  | none => none
  | some ⟨.nulled, errors, state⟩ => some ⟨.nulled, errors, state⟩
  | some ⟨.value value, errors, state⟩ =>
    (next value state).map fun step => ⟨step.outcome, errors ++ step.errors, step.state⟩

instance : Monad (Exec State) where
  pure := pure
  bind := bind

theorem bind_assoc {γ : Type} (first : Exec State α) (next : α → Exec State β)
    (last : β → Exec State γ) :
    bind (bind first next) last = bind first fun value => bind (next value) last := by
  ext1 state
  simp only [bind]
  cases first state with
  | none => rfl
  | some step =>
      obtain ⟨outcome, errors, state⟩ := step
      cases outcome with
      | nulled => rfl
      | value value =>
          simp only
          cases next value state with
          | none => rfl
          | some step =>
              obtain ⟨outcome, later, state⟩ := step
              cases outcome with
              | nulled => rfl
              | value value =>
                  simp only [Option.map_some, Option.map_map]
                  cases last value state with
                  | none => rfl
                  | some step => simp [List.append_assoc]

theorem bind_pure (first : Exec State α) : bind first pure = first := by
  ext1 state
  simp only [bind, pure]
  cases first state with
  | none => rfl
  | some step =>
      obtain ⟨outcome, errors, state⟩ := step
      cases outcome <;> simp

theorem pure_bind (value : α) (next : α → Exec State β) : bind (pure value) next = next value := by
  ext1 state
  simp [bind, pure]

instance : LawfulMonad (Exec State) :=
  LawfulMonad.mk' (Exec State) bind_pure pure_bind bind_assoc

/-- Calls a hook. -/
def call (hook : StateM State α) : Exec State α := fun state =>
  let (value, state) := hook.run state
  some ⟨.value value, [], state⟩

/-- Records an error and sends a null in place of the value. -/
def fail (error : FieldError) : Exec State α := fun state => some ⟨.nulled, [error], state⟩

def tooDeep : Exec State α := fun _ => none

/-- The place of a value of this type: if the type is nullable, a null on its way stays here. -/
def nullify (type : TypeRef) (computation : Exec State Json) : Exec State Json := fun state =>
  (computation state).map fun step =>
    match step.outcome with
    | .value value => ⟨.value value, step.errors, step.state⟩
    | .nulled => ⟨if type.nonNull then .nulled else .value .null, step.errors, step.state⟩

end Exec

end GraphQL
