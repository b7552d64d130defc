import GraphQL.Proofs.Calls.Recording
import GraphQL.Proofs.Schema.PossibleTypes

/-! # The object type of a value

A value of an abstract type is completed as an object of a possible type. A type resolver names the
type, and then the predicate of that type alone may still reject the value. Without a type resolver
the predicates of the possible types are called in order, up to the first that accepts. -/

namespace GraphQL

variable {State Object Item α β : Type}

/-- The type whose predicate is called. -/
def Call.predicateOf? {Info : Type} : Call Object Item Info → Option String
  | .typePredicate type _ _ => some type
  | _ => none

/-- A call goes on from the value and the state of the one before it. -/
theorem run_bind_of_run {first : StateM State α} {next : α → StateM State β} {state middle : State}
    {value : α} (h : first.run state = (value, middle)) :
    (first >>= next).run state = (next value).run middle := by
  change (next (first.run state).1).run (first.run state).2 = _
  rw [h]

namespace Completion

variable (env : Environment State Object Item) (info : ResolveInfo Object Item)

/-- The predicates of these types are called in order and reject the value, all of them. Types
without a predicate are passed over. -/
inductive Rejected (value : Resolved Object Item) : List ObjectType → State → State → Prop
  | nil (state) : Rejected value [] state state
  | unchecked {type rest state next}
      (unchecked : env.executable.typePredicate? type.name = none)
      (tail : Rejected value rest state next) : Rejected value (type :: rest) state next
  | rejected {type rest state accepts middle next}
      (checked : env.executable.typePredicate? type.name = some accepts)
      (call : (accepts value info).run state = (false, middle))
      (tail : Rejected value rest middle next) : Rejected value (type :: rest) state next

/-- One call of its predicate for each of the types that has one, in order. -/
def predicateCalls (value : Resolved Object Item) (types : List ObjectType) :
    CallLog Object Item :=
  (types.filter fun type => (env.executable.typePredicate? type.name).isSome).map
    fun type => .typePredicate type.name value info

/-- How a type resolver decides, and the predicate of the type that it names: the object type or
why there is none, the calls that are made, and the state after them. -/
inductive ChosenByName (abstract : String) (value : Resolved Object Item)
    (resolve : TypeResolver State Object Item) (state : State) :
    Except Failure ObjectType → CallLog Object Item → State → Prop
  | unnamed {next} (named : (resolve value info).run state = (none, next)) :
      ChosenByName abstract value resolve state
        (.error (.unresolvedType abstract info.parent.name info.fieldName))
        [.typeResolver abstract value info] next
  | noObject {name next} (named : (resolve value info).run state = (some name, next))
      (missing : ∀ type, env.schema.type? name ≠ some (.object type)) :
      ChosenByName abstract value resolve state
        (.error (.resolvedToNoObject abstract info.parent.name info.fieldName value.display name))
        [.typeResolver abstract value info] next
  | notPossible {type next} (named : (resolve value info).run state = (some type.name, next))
      (defined : env.schema.type? type.name = some (.object type))
      (excluded : type ∉ env.schema.possibleTypes abstract) :
      ChosenByName abstract value resolve state (.error (.notPossibleType abstract type.name))
        [.typeResolver abstract value info] next
  | unchecked {type next} (named : (resolve value info).run state = (some type.name, next))
      (possible : type ∈ env.schema.possibleTypes abstract)
      (unchecked : env.executable.typePredicate? type.name = none) :
      ChosenByName abstract value resolve state (.ok type) [.typeResolver abstract value info] next
  | accepted {type middle accepts next}
      (named : (resolve value info).run state = (some type.name, middle))
      (possible : type ∈ env.schema.possibleTypes abstract)
      (checked : env.executable.typePredicate? type.name = some accepts)
      (call : (accepts value info).run middle = (true, next)) :
      ChosenByName abstract value resolve state (.ok type)
        [.typeResolver abstract value info, .typePredicate type.name value info] next
  | rejected {type middle accepts next}
      (named : (resolve value info).run state = (some type.name, middle))
      (possible : type ∈ env.schema.possibleTypes abstract)
      (checked : env.executable.typePredicate? type.name = some accepts)
      (call : (accepts value info).run middle = (false, next)) :
      ChosenByName abstract value resolve state
        (.error (.rejectedByType type.name value.display))
        [.typeResolver abstract value info, .typePredicate type.name value info] next

/-- How the predicates of types decide: the first type whose predicate accepts the value, if there
is one, the calls that are made, and the state after them. -/
inductive FirstAccepting (value : Resolved Object Item) (types : List ObjectType) (state : State) :
    Option ObjectType → CallLog Object Item → State → Prop
  | accepted {before type rest middle accepts next} (order : types = before ++ type :: rest)
      (earlier : Rejected env info value before state middle)
      (checked : env.executable.typePredicate? type.name = some accepts)
      (call : (accepts value info).run middle = (true, next)) :
      FirstAccepting value types state (some type)
        (predicateCalls env info value (before ++ [type])) next
  | nobody {next} (rejected : Rejected env info value types state next) :
      FirstAccepting value types state none (predicateCalls env info value types) next

/-- The object type as which a value of an abstract type is completed, or why there is none. If
there is a type resolver it is asked and no other predicate than that of its type. Otherwise there
is but one way to fail. -/
structure Chosen (abstract : String) (value : Resolved Object Item) (state : State)
    (choice : Except Failure ObjectType) (own : CallLog Object Item) (next : State) : Prop where
  possible : ∀ type, choice = .ok type →
    env.schema.type? type.name = some (.object type) ∧ type ∈ env.schema.possibleTypes abstract
  once : (own.filterMap Call.predicateOf?).Nodup
  byName : ∀ resolve, env.executable.typeResolver? abstract = some resolve →
    ChosenByName env info abstract value resolve state choice own next
  byPredicates : env.executable.typeResolver? abstract = none →
    ∃ type?, FirstAccepting env info value (env.schema.possibleTypes abstract) state type? own
        next ∧
      choice = type?.elim (.error (.unresolvedType abstract info.parent.name info.fieldName)) .ok

/-! ## Predicates in order -/

theorem predicateCalls_unchecked (value : Resolved Object Item) {type : ObjectType}
    (unchecked : env.executable.typePredicate? type.name = none) (rest : List ObjectType) :
    predicateCalls env info value (type :: rest) = predicateCalls env info value rest := by
  simp [predicateCalls, unchecked]

theorem predicateCalls_checked (value : Resolved Object Item) {type : ObjectType}
    {accepts : TypePredicate State Object Item}
    (checked : env.executable.typePredicate? type.name = some accepts) (rest : List ObjectType) :
    predicateCalls env info value (type :: rest) =
      .typePredicate type.name value info :: predicateCalls env info value rest := by
  simp [predicateCalls, checked]

theorem predicatesOf_predicateCalls (value : Resolved Object Item) (types : List ObjectType) :
    (predicateCalls env info value types).filterMap Call.predicateOf? =
      (types.filter fun type => (env.executable.typePredicate? type.name).isSome).map
        ObjectType.name := by
  rw [predicateCalls, List.filterMap_map, ← List.filterMap_eq_map]
  rfl

/-- The predicates of types of distinct names are called once each. -/
theorem nodup_predicateCalls (value : Resolved Object Item) {types : List ObjectType}
    (distinct : (types.map ObjectType.name).Nodup) :
    ((predicateCalls env info value types).filterMap Call.predicateOf?).Nodup := by
  rw [predicatesOf_predicateCalls]
  exact (List.filter_sublist.map ObjectType.name).nodup distinct

variable {env info}

namespace FirstAccepting

variable {value : Resolved Object Item} {type : ObjectType} {rest : List ObjectType}
  {state middle next : State} {type? : Option ObjectType} {own : CallLog Object Item}

theorem nodup_calls {types : List ObjectType} (distinct : (types.map ObjectType.name).Nodup)
    (h : FirstAccepting env info value types state type? own next) :
    (own.filterMap Call.predicateOf?).Nodup := by
  cases h with
  | nobody rejected => exact nodup_predicateCalls env info value distinct
  | @accepted before type rest _ _ _ order =>
      refine nodup_predicateCalls env info value ?_
      have hinitial : (before ++ [type]).Sublist types := by simp [order]
      exact (hinitial.map ObjectType.name).nodup distinct

theorem mem (h : FirstAccepting env info value rest state (some type) own next) : type ∈ rest := by
  cases h with
  | accepted order =>
      rw [order]
      exact List.mem_append_right _ List.mem_cons_self

theorem skip (unchecked : env.executable.typePredicate? type.name = none)
    (h : FirstAccepting env info value rest state type? own next) :
    FirstAccepting env info value (type :: rest) state type? own next := by
  cases h with
  | nobody rejected =>
      rw [← predicateCalls_unchecked env info value unchecked rest]
      exact .nobody (.unchecked unchecked rejected)
  | @accepted before found _ _ _ _ order earlier checked call =>
      rw [← predicateCalls_unchecked env info value unchecked (before ++ [found])]
      exact .accepted (congrArg (type :: ·) order) (.unchecked unchecked earlier) checked call

theorem reject {accepts : TypePredicate State Object Item}
    (checked : env.executable.typePredicate? type.name = some accepts)
    (call : (accepts value info).run state = (false, middle))
    (h : FirstAccepting env info value rest middle type? own next) :
    FirstAccepting env info value (type :: rest) state type?
      (.typePredicate type.name value info :: own) next := by
  cases h with
  | nobody rejected =>
      rw [← predicateCalls_checked env info value checked rest]
      exact .nobody (.rejected checked call rejected)
  | @accepted before found _ _ _ _ order earlier checked' call' =>
      rw [← predicateCalls_checked env info value checked (before ++ [found])]
      exact .accepted (congrArg (type :: ·) order) (.rejected checked call earlier) checked' call'

theorem accept {accepts : TypePredicate State Object Item}
    (checked : env.executable.typePredicate? type.name = some accepts)
    (call : (accepts value info).run state = (true, next)) (rest : List ObjectType) :
    FirstAccepting env info value (type :: rest) state (some type)
      [.typePredicate type.name value info] next := by
  have horder : type :: rest = [] ++ type :: rest := rfl
  have hcalls := predicateCalls_checked env info value checked []
  exact hcalls ▸ .accepted horder (.nil state) checked call

end FirstAccepting

variable (env info) in
/-- Predicates that note their calls are called like those that do not: induction on the types. -/
theorem run_firstAccepting (value : Resolved Object Item) (types : List ObjectType) (state : State)
    (calls : CallLog Object Item) :
    ∃ type? own next, FirstAccepting env info value types state type? own next ∧
      (firstAccepting env.recorded info value types).run (state, calls) =
        (type?.map ObjectType.name, (next, calls ++ own)) := by
  induction types generalizing state calls with
  | nil => exact ⟨none, [], state, .nobody (.nil state), by rw [List.append_nil]; rfl⟩
  | cons type rest ih =>
      rw [firstAccepting, Environment.executable_recorded,
        ExecutableSchema.typePredicate?_recorded]
      cases hchecked : env.executable.typePredicate? type.name with
      | none =>
          obtain ⟨type?, own, next, hfirst, hrun⟩ := ih state calls
          exact ⟨type?, own, next, hfirst.skip hchecked, hrun⟩
      | some accepts =>
          cases hcall : (accepts value info).run state with
          | mk accepted middle =>
              have hnoted : (TypePredicate.recorded type.name accepts value info).run
                  (state, calls) =
                    (accepted, (middle, calls ++ [.typePredicate type.name value info])) :=
                run_noting hcall calls
              rw [Option.map_some]
              simp only
              rw [run_bind_of_run hnoted]
              cases accepted with
              | true => exact ⟨some type, _, middle, .accept hchecked hcall rest, rfl⟩
              | false =>
                  obtain ⟨type?, own, next, hfirst, hrun⟩ :=
                    ih middle (calls ++ [.typePredicate type.name value info])
                  refine ⟨type?, _, next, hfirst.reject hchecked hcall, ?_⟩
                  rw [List.append_assoc] at hrun
                  exact hrun

/-! ## The choice of a type -/

/-- What is found at the place of a value once its object type has been looked for. -/
def Finding.ofChoice (value : Resolved Object Item) :
    Except Failure ObjectType → Finding State Object Item
  | .ok type => .object type value
  | .error failure => .failed failure

variable {abstract : String} {value : Resolved Object Item} {type : ObjectType}
  {state middle : State} {calls : CallLog Object Item}

/-- A value that a predicate has accepted already is not examined again. -/
theorem examineObject_accepted (env : Environment State Object Item)
    (info : ResolveInfo Object Item) (type : ObjectType) (value : Resolved Object Item) :
    examineObject env info ⟨type, true⟩ value = pure (.object type value) := by
  rw [examineObject]
  cases env.executable.typePredicate? type.name <;> rfl

theorem examineObject_unchecked (unchecked : env.executable.typePredicate? type.name = none)
    (value : Resolved Object Item) :
    examineObject env.recorded info ⟨type, false⟩ value = pure (.object type value) := by
  rw [examineObject, Environment.executable_recorded, ExecutableSchema.typePredicate?_recorded,
    unchecked]
  rfl

theorem run_examineObject_checked {accepts : TypePredicate State Object Item} {accepted : Bool}
    {next : State} (checked : env.executable.typePredicate? type.name = some accepts)
    (call : (accepts value info).run state = (accepted, next)) (calls : CallLog Object Item) :
    (examineObject env.recorded info ⟨type, false⟩ value).run (state, calls) =
      (if accepted then .object type value
        else .failed (.rejectedByType type.name value.display),
        (next, calls ++ [.typePredicate type.name value info])) := by
  have hnoted : (TypePredicate.recorded type.name accepts value info).run (state, calls) =
      (accepted, (next, calls ++ [.typePredicate type.name value info])) := run_noting call calls
  rw [examineObject, Environment.executable_recorded, ExecutableSchema.typePredicate?_recorded,
    checked, Option.map_some]
  simp only [Bool.false_eq_true, ite_false]
  rw [run_bind_of_run hnoted]
  cases accepted <;> rfl

section

variable {accepted : Bool} {name : String} {start next : State × CallLog Object Item}

theorem run_runtimeType_unnamed
    (named : (runtimeTypeName env.recorded info abstract value).run start =
      ((none, accepted), next)) :
    (runtimeType env.recorded info abstract value).run start =
      (.error (.unresolvedType abstract info.parent.name info.fieldName), next) := by
  rw [runtimeType, run_bind_of_run named]
  rfl

theorem run_runtimeType_noObject
    (named : (runtimeTypeName env.recorded info abstract value).run start =
      ((some name, accepted), next))
    (missing : env.schema.object? name = none) :
    (runtimeType env.recorded info abstract value).run start =
      (.error (.resolvedToNoObject abstract info.parent.name info.fieldName value.display name),
        next) := by
  rw [runtimeType, run_bind_of_run named]
  simp only [Environment.schema_recorded, missing]
  rfl

theorem run_runtimeType_notPossible
    (named : (runtimeTypeName env.recorded info abstract value).run start =
      ((some name, accepted), next))
    (defined : env.schema.object? name = some type)
    (excluded : env.schema.isPossibleType abstract name = false) :
    (runtimeType env.recorded info abstract value).run start =
      (.error (.notPossibleType abstract name), next) := by
  rw [runtimeType, run_bind_of_run named]
  simp only [Environment.schema_recorded, defined, excluded]
  rfl

theorem run_runtimeType_possible
    (named : (runtimeTypeName env.recorded info abstract value).run start =
      ((some type.name, accepted), next))
    (possible : type ∈ env.schema.possibleTypes abstract) :
    (runtimeType env.recorded info abstract value).run start = (.ok ⟨type, accepted⟩, next) := by
  obtain ⟨hobject, hpossible⟩ := env.schema.mem_possibleTypes_iff.mp possible
  rw [runtimeType, run_bind_of_run named]
  simp only [Environment.schema_recorded, hobject, hpossible]
  rfl

end

theorem defined_of_possible (possible : type ∈ env.schema.possibleTypes abstract) :
    env.schema.type? type.name = some (.object type) :=
  env.schema.object?_eq_some_iff.mp (env.schema.mem_possibleTypes_iff.mp possible).1

/-! ### By the predicates of the possible types -/

theorem FirstAccepting.chosen {type? : Option ObjectType} {own : CallLog Object Item} {next : State}
    (unresolved : env.executable.typeResolver? abstract = none)
    (h : FirstAccepting env info value (env.schema.possibleTypes abstract) state type? own next) :
    Chosen env info abstract value state
      (type?.elim (.error (.unresolvedType abstract info.parent.name info.fieldName)) .ok) own
      next where
  possible type hchoice := by
    cases type? with
    | none => cases hchoice
    | some found =>
        cases hchoice
        exact ⟨defined_of_possible h.mem, h.mem⟩
  once := h.nodup_calls (env.schema.nodup_name_possibleTypes abstract)
  byName resolve hresolve := by cases unresolved.symm.trans hresolve
  byPredicates _ := ⟨type?, h, rfl⟩

variable (info) in
theorem exists_chosen_byPredicates (unresolved : env.executable.typeResolver? abstract = none)
    (value : Resolved Object Item) (state : State) (calls : CallLog Object Item) :
    ∃ choice own next, Chosen env info abstract value state choice own next ∧
      (runtimeType env.recorded info abstract value >>= examineRuntime env.recorded info value).run
        (state, calls) = (Finding.ofChoice value choice, (next, calls ++ own)) := by
  obtain ⟨type?, own, next, hfirst, hrun⟩ :=
    run_firstAccepting env info value (env.schema.possibleTypes abstract) state calls
  have hname : (runtimeTypeName env.recorded info abstract value).run (state, calls) =
      ((type?.map ObjectType.name, true), (next, calls ++ own)) := by
    rw [runtimeTypeName, Environment.executable_recorded,
      ExecutableSchema.typeResolver?_recorded, unresolved]
    exact run_bind_of_run hrun
  refine ⟨_, own, next, hfirst.chosen unresolved, ?_⟩
  cases type? with
  | none => exact run_bind_of_run (run_runtimeType_unnamed hname)
  | some type =>
      rw [run_bind_of_run (run_runtimeType_possible hname hfirst.mem), examineRuntime,
        examineObject_accepted]
      rfl

/-! ### By a type resolver -/

namespace ChosenByName

variable {resolve : TypeResolver State Object Item} {choice : Except Failure ObjectType}
  {own : CallLog Object Item} {next : State}

theorem mem (h : ChosenByName env info abstract value resolve state (.ok type) own next) :
    type ∈ env.schema.possibleTypes abstract := by
  cases h with
  | unchecked _ possible => exact possible
  | accepted _ possible => exact possible

theorem nodup_calls (h : ChosenByName env info abstract value resolve state choice own next) :
    (own.filterMap Call.predicateOf?).Nodup := by
  cases h with
  | unnamed | noObject | notPossible | unchecked => exact List.nodup_nil
  | accepted | rejected => exact List.nodup_singleton _

theorem chosen (resolver : env.executable.typeResolver? abstract = some resolve)
    (h : ChosenByName env info abstract value resolve state choice own next) :
    Chosen env info abstract value state choice own next where
  possible type hchoice := by
    subst hchoice
    exact ⟨defined_of_possible h.mem, h.mem⟩
  once := h.nodup_calls
  byName resolve' hresolve := by
    obtain rfl := Option.some.inj (resolver.symm.trans hresolve)
    exact h
  byPredicates hnone := by cases resolver.symm.trans hnone

end ChosenByName

/-- Once a possible type has been named, its predicate has the last word. -/
theorem exists_chosenByName_possible {resolve : TypeResolver State Object Item}
    (named : (resolve value info).run state = (some type.name, middle))
    (possible : type ∈ env.schema.possibleTypes abstract) (calls : CallLog Object Item) :
    ∃ choice own next, ChosenByName env info abstract value resolve state choice own next ∧
      (examineObject env.recorded info ⟨type, false⟩ value).run
        (middle, calls ++ [.typeResolver abstract value info]) =
          (Finding.ofChoice value choice, (next, calls ++ own)) := by
  cases hchecked : env.executable.typePredicate? type.name with
  | none =>
      refine ⟨_, _, middle, .unchecked named possible hchecked, ?_⟩
      rw [examineObject_unchecked hchecked]
      rfl
  | some accepts =>
      cases hcall : (accepts value info).run middle with
      | mk accepted next =>
          have hrun := run_examineObject_checked hchecked hcall
            (calls ++ [.typeResolver abstract value info])
          rw [List.append_assoc] at hrun
          cases accepted with
          | true => exact ⟨_, _, next, .accepted named possible hchecked hcall, hrun⟩
          | false => exact ⟨_, _, next, .rejected named possible hchecked hcall, hrun⟩

variable (info) in
theorem exists_chosenByName {resolve : TypeResolver State Object Item}
    (resolver : env.executable.typeResolver? abstract = some resolve)
    (value : Resolved Object Item) (state : State) (calls : CallLog Object Item) :
    ∃ choice own next, ChosenByName env info abstract value resolve state choice own next ∧
      (runtimeType env.recorded info abstract value >>= examineRuntime env.recorded info value).run
        (state, calls) = (Finding.ofChoice value choice, (next, calls ++ own)) := by
  cases hcall : (resolve value info).run state with
  | mk name? middle =>
      have hnoted : (TypeResolver.recorded abstract resolve value info).run (state, calls) =
          (name?, (middle, calls ++ [.typeResolver abstract value info])) := run_noting hcall calls
      have hname : (runtimeTypeName env.recorded info abstract value).run (state, calls) =
          ((name?, false), (middle, calls ++ [.typeResolver abstract value info])) := by
        rw [runtimeTypeName, Environment.executable_recorded,
          ExecutableSchema.typeResolver?_recorded, resolver]
        exact run_bind_of_run hnoted
      cases name? with
      | none =>
          refine ⟨_, _, middle, .unnamed hcall, ?_⟩
          exact run_bind_of_run (run_runtimeType_unnamed hname)
      | some name =>
          cases hobject : env.schema.object? name with
          | none =>
              have hmissing : ∀ type, env.schema.type? name ≠ some (.object type) := by
                intro type htype
                cases hobject.symm.trans (env.schema.object?_eq_some_iff.mpr htype)
              refine ⟨_, _, middle, .noObject hcall hmissing, ?_⟩
              exact run_bind_of_run (run_runtimeType_noObject hname hobject)
          | some type =>
              obtain rfl : type.name = name := env.schema.name_of_object? hobject
              by_cases hpossible : type ∈ env.schema.possibleTypes abstract
              · obtain ⟨choice, own, next, hchosen, hrun⟩ :=
                  exists_chosenByName_possible hcall hpossible calls
                refine ⟨choice, own, next, hchosen, ?_⟩
                rw [run_bind_of_run (run_runtimeType_possible hname hpossible)]
                exact hrun
              · have hdefined := env.schema.object?_eq_some_iff.mp hobject
                have hexcluded : env.schema.isPossibleType abstract type.name = false := by
                  refine Bool.eq_false_iff.mpr fun hlisted => hpossible ?_
                  exact env.schema.mem_possibleTypes_iff.mpr ⟨hobject, hlisted⟩
                refine ⟨_, _, middle, .notPossible hcall hdefined hpossible, ?_⟩
                exact run_bind_of_run (run_runtimeType_notPossible hname hobject hexcluded)

/-! ## Completion of the value -/

/-- A value of an abstract type is completed as the object type that is chosen for it, whatever
executes the selections on it; or one error is recorded at its place and nothing of it is
executed. -/
theorem complete_abstract (env : Environment State Object Item) (info : ResolveInfo Object Item)
    {abstract : String} {definition : TypeDefinition}
    (found : env.schema.type? abstract = some definition)
    (isAbstract : definition.isAbstract = true) (nonNull : Bool) (path : Path)
    {value : Resolved Object Item} (present : value.isNull = false) (state : State)
    (calls : CallLog Object Item) :
    ∃ choice own next, Chosen env info abstract value state choice own next ∧
      ∀ execute : ObjectExecutor (State × CallLog Object Item) Object Item,
        (∀ type, choice = .ok type →
          complete env.recorded execute info (.named abstract nonNull) path (.ok value)
              (state, calls) =
            (Json.object <$> execute path type value info.group.selections)
              (next, calls ++ own)) ∧
        ∀ failure, choice = .error failure →
          complete env.recorded execute info (.named abstract nonNull) path (.ok value)
              (state, calls) =
            some ⟨.nulled, [⟨failure, path, info.locations⟩], (next, calls ++ own)⟩ := by
  have hchosen : ∃ choice own next, Chosen env info abstract value state choice own next ∧
      (runtimeType env.recorded info abstract value >>= examineRuntime env.recorded info value).run
        (state, calls) = (Finding.ofChoice value choice, (next, calls ++ own)) := by
    cases hresolver : env.executable.typeResolver? abstract with
    | none => exact exists_chosen_byPredicates info hresolver value state calls
    | some resolve =>
        obtain ⟨choice, own, next, hchosen, hrun⟩ :=
          exists_chosenByName info hresolver value state calls
        exact ⟨choice, own, next, hchosen.chosen hresolver, hrun⟩
  obtain ⟨choice, own, next, hchosen, hrun⟩ := hchosen
  have hexamine : (examine env.recorded info (.named abstract nonNull) (.ok value)).run
      (state, calls) = (Finding.ofChoice value choice, (next, calls ++ own)) := by
    simp only [examine, present, Bool.false_eq_true, ite_false, examinePresent, examineNamed,
      Environment.schema_recorded, found]
    cases definition with
    | interface | union => exact hrun
    | _ => cases isAbstract
  refine ⟨choice, own, next, hchosen, fun execute => ⟨?_, ?_⟩⟩
  · rintro type rfl
    rw [complete_apply, hexamine, Finding.ofChoice, conclude, bind_pure_comp]
  · rintro failure rfl
    rw [complete_apply, hexamine]
    rfl

end Completion

namespace Sample

def pet : InterfaceType := { name := "Pet", fields := .empty }

def dog : ObjectType := { name := "Dog", interfaces := ⟨["Pet"], by decide⟩, fields := .empty }

def cat : ObjectType := { name := "Cat", interfaces := ⟨["Pet"], by decide⟩, fields := .empty }

def pets : Schema :=
  { query? := none, types := ⟨[.interface pet, .object dog, .object cat], by decide⟩ }

/-- The value is JSON with a member of this name. -/
def has (member : String) : TypePredicate Unit Empty Empty := fun value _ =>
  match value with
  | .json (.object members) => pure ((Entries.keys members).contains member)
  | _ => pure false

/-- Dogs bark and cats meow. -/
def petsEnvironment : Environment Unit Empty Empty :=
  { environment nameless with
    executable :=
      { schema := pets, typePredicates := [("Dog", has "barks"), ("Cat", has "meows")] } }

def petInfo : ResolveInfo Empty Empty where
  request := petsEnvironment.request
  parent := query
  definition := { name := "pet", type := .named "Pet" false }
  group := ⟨"pet", ⟨{ name := "pet", location := ⟨1, 3⟩ }, [.field nameHead []]⟩, []⟩
  path := [.key "pet"]

def meowing : Resolved Empty Empty := .json (.object [("meows", .bool true)])

/-- The predicates of both types are called, and that of cats accepts. -/
theorem meowing_complete_abstract :
    (∃ choice own next, Completion.Chosen petsEnvironment petInfo "Pet" meowing () choice own next ∧
      ∀ execute : ObjectExecutor (Unit × CallLog Empty Empty) Empty Empty,
        (∀ type, choice = .ok type →
          Completion.complete petsEnvironment.recorded execute petInfo (.named "Pet" true)
              [.key "pet"] (.ok meowing) ((), []) =
            (Json.object <$> execute [.key "pet"] type meowing petInfo.group.selections)
              (next, [] ++ own)) ∧
        ∀ failure, choice = .error failure →
          Completion.complete petsEnvironment.recorded execute petInfo (.named "Pet" true)
              [.key "pet"] (.ok meowing) ((), []) =
            some ⟨.nulled, [⟨failure, [.key "pet"], [⟨1, 3⟩]⟩], (next, [] ++ own)⟩) ∧
    Completion.FirstAccepting petsEnvironment petInfo meowing [dog, cat] () (some cat)
      [.typePredicate "Dog" meowing petInfo, .typePredicate "Cat" meowing petInfo] () := by
  refine ⟨?_, ?_⟩
  · have hfound : petsEnvironment.schema.type? "Pet" = some (.interface pet) := rfl
    exact
      Completion.complete_abstract petsEnvironment petInfo hfound rfl true [.key "pet"] rfl () []
  · have hdog : Completion.Rejected petsEnvironment petInfo meowing [dog] () () :=
      .rejected rfl rfl (.nil ())
    have horder : [dog, cat] = [dog] ++ cat :: [] := rfl
    exact .accepted horder hdog rfl rfl

end Sample

end GraphQL
