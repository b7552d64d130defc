import GraphQL.Proofs.Coercion.Stability
import GraphQL.Proofs.Execution.Reach
import GraphQL.Proofs.Response.Conformance
import GraphQL.Proofs.Response.Data

/-! # Leaf values make the round trip

What a built-in scalar or an enum gives for a service's value is in a form that both directions
leave alone. The service may return it again, and a client may send it back for a variable of the
same type. So it is with every leaf of those types that a response holds. -/

namespace GraphQL

/-- Whether the language itself says which values a type has: those of built-in scalars and enums
are known, those of other scalars are up to the service. -/
def TypeDefinition.isSpecified : TypeDefinition → Bool
  | .scalar name => (BuiltInScalar.ofName? name).isSome
  | .enum _ => true
  | _ => false

theorem TypeDefinition.isLeaf_of_isSpecified {definition : TypeDefinition}
    (specified : definition.isSpecified = true) : definition.isLeaf = true := by
  cases definition with
  | scalar | enum => rfl
  | _ => cases specified

theorem TypeDefinition.isInput_of_isLeaf {definition : TypeDefinition}
    (leaf : definition.isLeaf = true) : definition.isInput = true := by
  cases definition with
  | scalar | enum => rfl
  | _ => cases leaf

/-- Serialization does not give null where the values are known. -/
theorem TypeDefinition.present_of_serialize? {definition : TypeDefinition} {raw value : Json}
    (specified : definition.isSpecified = true) (h : definition.serialize? raw = some value) :
    value.isNull = false := by
  cases definition with
  | scalar name =>
      obtain ⟨scalar, hscalar⟩ := Option.isSome_iff_exists.mp specified
      simp only [serialize?, hscalar] at h
      exact (BuiltInScalar.canonical_serialize? h).isNull_eq_false
  | enum type =>
      -- An enum takes nothing but its names, and those are no nulls.
      refine isNull_of_serialize? h ?_
      cases raw with
      | string text => rfl
      | _ => cases h
  | _ => cases specified

variable {State Object Item : Type}

namespace ExecutableSchema

/-- A value of a type is not changed on its way: serialized once more it is what it was, and so it
is when a client sends it, whether the type is nullable or not. -/
structure RoundTrips (executable : ExecutableSchema State Object Item)
    (definition : TypeDefinition) (value : Json) : Prop where
  serialized : executable.serialize? definition value = pure (some value)
  accepted : ∀ nonNull,
    executable.schema.coerceInput value (.named definition.name nonNull) = .ok value
  sent : ∀ (variableDefinition : VariableDefinition) nonNull,
    variableDefinition.type = .named definition.name nonNull →
      executable.schema.coerceVariables [variableDefinition]
          [(variableDefinition.name, value)] =
        .ok [(variableDefinition.name, value)]

section

variable {executable : ExecutableSchema State Object Item} {definition : TypeDefinition}
  {value : Json}

/-- Values of the form of the type are coerced to themselves. -/
theorem LeafForm.coerceInput_eq (form : executable.LeafForm definition value)
    (found : executable.schema.type? definition.name = some definition)
    (specified : definition.isSpecified = true)
    (unregistered : executable.serializer? definition.name = none) (nonNull : Bool) :
    executable.schema.coerceInput value (.named definition.name nonNull) = .ok value := by
  have hleaf : executable.schema.coerceInput value (.named definition.name nonNull) =
      Coercion.leafInput executable.schema value definition.name :=
    Coercion.inputWith_leaf found (TypeDefinition.isLeaf_of_isSpecified specified)
      form.isNull_eq_false nonNull
  rw [hleaf, Coercion.leafInput, found]
  cases form with
  | serialized _ registered => simp [unregistered] at registered
  | builtIn _ named canonical => exact Coercion.scalarInput_canonical named canonical
  | custom _ named => simp [TypeDefinition.isSpecified, named] at specified
  | enum _ member => simp [Coercion.enumInput, member]

theorem LeafForm.serialize?_eq (form : executable.LeafForm definition value)
    (specified : definition.isSpecified = true)
    (unregistered : executable.serializer? definition.name = none) :
    executable.serialize? definition value = pure (some value) := by
  rw [serialize?_of_unregistered unregistered]
  cases form with
  | serialized _ registered => simp [unregistered] at registered
  | builtIn _ named canonical =>
      simp only [TypeDefinition.serialize?, named, canonical.serialize?]
  | custom _ named => simp [TypeDefinition.isSpecified, named] at specified
  | enum _ member => simp [TypeDefinition.serialize?, member]

/-- A variable whose value needs no coercion is bound to what is sent for it. -/
theorem coerceVariables_of_accepted {schema : Schema} {variableDefinition : VariableDefinition}
    (input : schema.isInputType variableDefinition.type = true) (present : value.isNull = false)
    (accepted : schema.coerceInput value variableDefinition.type = .ok value) :
    schema.coerceVariables [variableDefinition] [(variableDefinition.name, value)] =
      .ok [(variableDefinition.name, value)] := by
  have hvalue : Coercion.variableInput schema variableDefinition (some value) =
      .ok (some value) := by
    simp [Coercion.variableInput, input, present, accepted]
  simp only [Schema.coerceVariables, List.foldlM_cons, List.foldlM_nil, Coercion.addVariable,
    Entries.get?, ite_true, hvalue, Entries.insert]
  rfl

theorem LeafForm.roundTrips (form : executable.LeafForm definition value)
    (found : executable.schema.type? definition.name = some definition)
    (specified : definition.isSpecified = true)
    (unregistered : executable.serializer? definition.name = none) :
    executable.RoundTrips definition value where
  serialized := form.serialize?_eq specified unregistered
  accepted := form.coerceInput_eq found specified unregistered
  sent variableDefinition nonNull typed := by
    have hinput : executable.schema.isInputType variableDefinition.type = true := by
      simp [typed, Schema.isInputType, TypeRef.innerName, found,
        TypeDefinition.isInput_of_isLeaf (TypeDefinition.isLeaf_of_isSpecified specified)]
    refine coerceVariables_of_accepted hinput form.isNull_eq_false ?_
    rw [typed]
    exact form.coerceInput_eq found specified unregistered nonNull

end

end ExecutableSchema

/-! ## Leaves of a response -/

/-- What the data of a response has at a place that was reached is what the place settles on. -/
theorem Slot.Valid.value?_of_at? {slot lower : Slot} (h : slot.Valid) {data value : Json}
    (hdata : slot.value? = some data) {path : Path} (hfind : slot.find? path = some lower)
    (hvalue : data.at? path = some value) : lower.value? = some value := by
  induction path generalizing slot data with
  | nil =>
      rw [Json.at?_nil] at hvalue
      obtain rfl := Option.some.inj hvalue
      obtain rfl := Option.some.inj hfind
      exact hdata
  | cons segment rest ih =>
      rw [Slot.find?_cons] at hfind
      obtain ⟨child, hchild, hlower⟩ := Option.bind_eq_some_iff.mp hfind
      rcases Slot.value?_eq_some.mp hdata with hplace | ⟨-, rfl, -⟩
      · obtain ⟨next, hnext, hat⟩ := h.at?_child hplace hchild
        rw [hat rest] at hvalue
        exact ih (h.child (Entries.mem_of_get? hchild)) hnext hlower hvalue
      · -- Nothing lies below a null.
        simp [Json.at?_null_cons] at hvalue

/-- What a response has at a place of a leaf type is null or of the form of the type. -/
theorem RunDerivation.leafForm {env : Environment State Object Item} {type : ObjectType}
    {state last middle : State} {record : Slot} (h : RunDerivation env type state record last)
    {path : Path} {pending : Pending State Object Item}
    {resolved : Except Failure (Resolved Object Item)}
    (asks : Asks env type state path pending resolved middle) {definition : TypeDefinition}
    {nonNull : Bool} (typed : pending.type = .named definition.name nonNull)
    (found : env.schema.type? definition.name = some definition)
    (leaf : definition.isLeaf = true) {value : Json}
    (hvalue : record.toResponse.data.toJson.at? path = some value) :
    value = .null ∨ env.executable.LeafForm definition value := by
  obtain ⟨place, next, hfind, hplace⟩ := asks.derivation h
  have hslot := h.valid.value?_of_at? h.value?_eq hfind hvalue
  have hconforms := hplace.conforms value hslot
  rw [typed] at hconforms
  cases hconforms with
  | null => exact .inl rfl
  | leaf found' form =>
      obtain rfl : definition = _ := Option.some.inj (found.symm.trans found')
      exact .inr form
  | object admits =>
      -- No objects are found at a leaf type.
      exfalso
      cases admits with
      | itself found' => simp [Option.some.inj (found.symm.trans found'),
          TypeDefinition.isLeaf] at leaf
      | possible _ possible =>
          rw [Schema.isPossibleType, found] at possible
          cases definition with
          | interface | union => cases leaf
          | _ => cases possible

/-- Whatever a built-in scalar or an enum without a serializer of its own gives for a value makes
the round trip. So does every value other than null that a response has at a place of such a
type. -/
theorem ExecutableSchema.serialize?_roundTrips (executable : ExecutableSchema State Object Item)
    {definition : TypeDefinition}
    (found : executable.schema.type? definition.name = some definition)
    (specified : definition.isSpecified = true)
    (unregistered : executable.serializer? definition.name = none) :
    (∀ raw value state next,
      (executable.serialize? definition raw).run state = (some value, next) →
        next = state ∧ executable.RoundTrips definition value) ∧
    ∀ (service : Service State Object Item) (request : Request State Object Item) depth state
      response next,
      request.executeWithin depth executable service state = some (.ok response, next) →
        ∃ env type, request.prepare executable service = .ok (env, type) ∧
          ∀ path pending resolved middle nonNull value,
            Asks env type state path pending resolved middle →
            pending.type = .named definition.name nonNull →
            response.data.toJson.at? path = some value →
              value = .null ∨ executable.RoundTrips definition value := by
  constructor
  · intro raw value state next h
    have hgiven : ((executable.serialize? definition raw).run state).1 = some value := by rw [h]
    rw [serialize?_of_unregistered unregistered] at h
    obtain ⟨hvalue, hstate⟩ := Prod.mk.inj h
    have hform : executable.LeafForm definition value :=
      leafForm_serialize? (TypeDefinition.isLeaf_of_isSpecified specified) hgiven
        (TypeDefinition.present_of_serialize? specified hvalue)
    exact ⟨hstate.symm, hform.roundTrips found specified unregistered⟩
  · intro service request depth state response next h
    obtain ⟨env, type, record, hprepare, hrecord, rfl⟩ := Request.executeWithin_derivation h
    have henv : env.executable = executable := by
      obtain ⟨_, _, -, -, -, rfl⟩ := Request.prepare_eq_ok_iff.mp hprepare
      rfl
    refine ⟨env, type, hprepare, ?_⟩
    intro path pending resolved middle nonNull value asks typed hvalue
    subst henv
    refine (hrecord.leafForm asks typed found
      (TypeDefinition.isLeaf_of_isSpecified specified) hvalue).imp_right ?_
    exact fun form => form.roundTrips found specified unregistered

namespace Sample

def catalogue : ExecutableSchema Unit Empty Empty := { schema := inputs }

/-- A whole number may come as text with blanks around it. -/
theorem serialize?_text :
    (catalogue.serialize? (.scalar "Int") (.string " -7 ")).run () = (some (.integer (-7)), ()) := by
  rfl

theorem integer_roundTrips :
    (catalogue.serialize? (.scalar "Int") (.string " -7 ")).run () = (some (.integer (-7)), ()) ∧
      catalogue.RoundTrips (.scalar "Int") (.integer (-7)) := by
  have hfound : catalogue.schema.type? (TypeDefinition.scalar "Int").name = some (.scalar "Int") :=
    rfl
  obtain ⟨hserialized, -⟩ := catalogue.serialize?_roundTrips hfound rfl rfl
  exact ⟨serialize?_text, (hserialized _ _ _ _ serialize?_text).2⟩

end Sample

end GraphQL
