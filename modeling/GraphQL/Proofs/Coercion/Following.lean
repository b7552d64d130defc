import GraphQL.Proofs.Coercion.Omission
import GraphQL.Proofs.Coercion.Stability
import Mathlib.Data.List.Count
import Mathlib.Order.Monotone.Basic

/-! # Following defaults

A default that leaves fields of an input object out needs the defaults of those fields, which may
need others in turn. Coercion that follows them to some depth may have to give up there. To follow
them deeper changes nothing but that; and as there are only so many defaults, each of them that can
be coerced at all is coerced within that depth. -/

namespace GraphQL

variable {α β : Type}

/-- Defaults were not followed deep enough. -/
def Reason.IsCutOff : Reason → Prop
  | .circularDefault => True
  | .within _ reason => reason.IsCutOff
  | _ => False

namespace Coercion

/-- The coercion gave up because defaults were not followed deep enough. -/
def CutOff : Except Reason α → Prop
  | .ok _ => False
  | .error reason => reason.IsCutOff

/-! ## Relations between results -/

/-- A relation between the results of coercions that wholes inherit from their parts. -/
structure Inherited (related : ∀ {α : Type}, Except Reason α → Except Reason α → Prop) : Prop where
  same {α : Type} {result : Except Reason α} (complete : ¬CutOff result) : related result result
  bind {α β : Type} {first second : Except Reason α} {next next' : α → Except Reason β}
    (h : related first second) (hnext : ∀ value, related (next value) (next' value)) :
    related (first >>= next) (second >>= next')
  within {α : Type} {first second : Except Reason α} (field : String) (h : related first second) :
    related (first.mapError (.within field)) (second.mapError (.within field))

/-- Two ways to coerce defaults give related results for the default of the field, if it has one. -/
def DefaultRelates (related : ∀ {α : Type}, Except Reason α → Except Reason α → Prop)
    (default default' : TypeRef → Literal → Except Reason Json) (field : InputValue) : Prop :=
  ∀ literal, field.default? = some literal →
    related (default field.type literal) (default' field.type literal)

namespace Inherited

variable {related : ∀ {α : Type}, Except Reason α → Except Reason α → Prop}

theorem map (inherited : Inherited related) {first second : Except Reason α}
    (h : related first second) (f : α → β) : related (first.map f) (second.map f) := by
  have heq (result : Except Reason α) : result.map f = result >>= fun value => .ok (f value) := by
    cases result <;> rfl
  rw [heq, heq]
  exact inherited.bind h fun value => inherited.same id

theorem of_singleItem (inherited : Inherited related)
    {coerce coerce' : String → Bool → Except Reason Json} {type : TypeRef}
    (h : ∀ nonNull, related (coerce type.innerName nonNull) (coerce' type.innerName nonNull)) :
    related (singleItem coerce type) (singleItem coerce' type) := by
  induction type with
  | named name nonNull => exact h nonNull
  | list item nonNull ih => exact inherited.map (ih h) _

variable {default default' : TypeRef → Literal → Except Reason Json}
  {provided? provided?' : InputValue → Option (Except Reason Json)}

theorem of_fillFields (inherited : Inherited related) {owner : String} {fields : List InputValue}
    (hprovided : ∀ field ∈ fields, Option.Rel related (provided? field) (provided?' field))
    (hdefault : ∀ field ∈ fields, provided? field = none →
      DefaultRelates related default default' field) :
    related (fillFields owner default provided? fields)
      (fillFields owner default' provided?' fields) := by
  induction fields with
  | nil => exact inherited.same id
  | cons field rest ih =>
      obtain ⟨hfield, hrest⟩ := List.forall_mem_cons.mp hprovided
      obtain ⟨hliteral, hliterals⟩ := List.forall_mem_cons.mp hdefault
      have hothers := ih hrest hliterals
      have hadd (value : Json) (others : Members) :
          related (.ok ((field.name, value) :: others)) (.ok ((field.name, value) :: others)) :=
        inherited.same id
      rw [fillFields, fillFields]
      generalize provided? field = first at hfield hliteral
      generalize provided?' field = second at hfield
      cases hfield with
      | some hrelated =>
          exact inherited.bind hrelated fun value => inherited.bind hothers fun others =>
            hadd value others
      | none =>
          cases hfielddefault : field.default? with
          | some literal =>
              exact inherited.bind (hliteral rfl literal hfielddefault) fun value =>
                inherited.bind hothers fun others => hadd value others
          | none =>
              cases field.type.nonNull with
              | true => exact inherited.same id
              | false => exact hothers

theorem of_fillObject (inherited : Inherited related) {type : InputObjectType} {keys : List String}
    (hprovided : ∀ field ∈ type.fields.entries,
      Option.Rel related (provided? field) (provided?' field))
    (hdefault : ∀ field ∈ type.fields.entries, provided? field = none →
      DefaultRelates related default default' field) :
    related (fillObject type default keys provided?)
      (fillObject type default' keys provided?') := by
  rw [fillObject, fillObject]
  cases undefinedField? type keys with
  | some key => exact inherited.same id
  | none => exact inherited.map (inherited.of_fillFields hprovided hdefault) _

end Inherited

/-! ## Leaves -/

theorem not_cutOff_ite {holds : Prop} [Decidable holds] {first second : Except Reason α}
    (hfirst : ¬CutOff first) (hsecond : ¬CutOff second) :
    ¬CutOff (if holds then first else second) := by
  split
  · exact hfirst
  · exact hsecond

theorem not_cutOff_intInput (value : Json) : ¬CutOff (intInput value) := by
  unfold intInput
  repeat' split
  all_goals exact id

theorem not_cutOff_leafInput (schema : Schema) (value : Json) (name : String) :
    ¬CutOff (leafInput schema value name) := by
  unfold leafInput scalarInput enumInput
  repeat' split
  all_goals first | exact not_cutOff_intInput _ | exact id

theorem not_cutOff_leafLiteral (schema : Schema) (bindings : Members) (literal : Literal)
    (name : String) (nonNull : Bool) :
    ¬CutOff (leafLiteral schema bindings literal name nonNull) := by
  unfold leafLiteral scalarLiteral
  repeat' split
  all_goals exact id

theorem not_cutOff_variableValue (bindings : Members) (name : String) (type : TypeRef) :
    ¬CutOff (variableValue bindings name type) := by
  unfold variableValue
  repeat' split
  all_goals exact id

end Coercion

/-! ## What is left out -/

theorem Schema.mem_defaults {schema : Schema} {name : String} {type : InputObjectType}
    (found : schema.type? name = some (.inputObject type)) {field : InputValue}
    (declared : field ∈ type.fields.entries) {literal : Literal}
    (hdefault : field.default? = some literal) : field ∈ schema.defaults := by
  refine List.mem_flatMap.mpr ⟨_, Catalog.mem_of_find? found, ?_⟩
  exact List.mem_filter.mpr ⟨declared, Option.isSome_of_eq_some hdefault⟩

/-- A literal at a type lacks a field of an input object, somewhere inside, that has a
default. -/
inductive Schema.Lacks (schema : Schema) (bindings : Members) :
    Literal → TypeRef → InputValue → Prop
  | item {items literal item nonNull field} (hmem : literal ∈ items)
      (below : Lacks schema bindings literal item field) :
      Lacks schema bindings (.list items) (.list item nonNull) field
  | missing {fields type object field}
      (found : schema.type? (TypeRef.innerName type) = some (.inputObject object))
      (declared : field ∈ object.fields.entries) (hdefault : field.default?.isSome = true)
      (missing : ∀ literal, Entries.get? field.name fields = some literal →
        Coercion.isAbsentVariable bindings literal = true) :
      Lacks schema bindings (.object fields) type field
  | within {fields type object given literal field}
      (found : schema.type? (TypeRef.innerName type) = some (.inputObject object))
      (declared : given ∈ object.fields.entries)
      (provided : Entries.get? given.name fields = some literal)
      (below : Lacks schema bindings literal given.type field) :
      Lacks schema bindings (.object fields) type field

/-! ## Coercion of values -/

namespace Coercion.Inherited

variable {related : ∀ {α : Type}, Except Reason α → Except Reason α → Prop} {schema : Schema}
  {default default' : TypeRef → Literal → Except Reason Json}

mutual

/-- What holds of the defaults of a schema holds of coerced JSON: induction on the value. -/
theorem of_inputWith (inherited : Inherited related)
    (hdefault : ∀ field ∈ schema.defaults, DefaultRelates related default default' field)
    (raw : Json) (type : TypeRef) :
    related (inputWith schema default raw type)
      (inputWith schema default' raw type) := by
  have hleaf (raw : Json) : related (singleItem (fun name _ => leafInput schema raw name) type)
      (singleItem (fun name _ => leafInput schema raw name) type) :=
    inherited.of_singleItem fun _ => inherited.same (not_cutOff_leafInput schema raw _)
  cases raw with
  | null => exact inherited.same (not_cutOff_ite id id)
  | array items =>
      cases type with
      | named name nonNull => exact hleaf (.array items)
      | list item nonNull =>
          rw [inputWith, inputWith]
          exact inherited.map (of_inputItemsWith inherited hdefault items item) _
  | object members =>
      rw [inputWith, inputWith]
      refine inherited.of_singleItem fun nonNull => ?_
      split
      · rename_i object hfound
        refine inherited.of_fillObject (fun field hfield => ?_)
          fun field hfield _ literal hliteral =>
            hdefault field (schema.mem_defaults hfound hfield hliteral) literal hliteral
        rw [get?_inputMembersWith, get?_inputMembersWith]
        cases hget : Entries.get? field.name members with
        | none => exact .none
        | some value =>
            have hvalue :=
              of_inputMembersWith inherited hdefault members _ (Entries.mem_of_get? hget)
            exact .some (inherited.within _ (hvalue field.type))
      · exact inherited.same (not_cutOff_leafInput schema _ _)
  | bool b => exact hleaf (.bool b)
  | number n => exact hleaf (.number n)
  | string text => exact hleaf (.string text)

theorem of_inputItemsWith (inherited : Inherited related)
    (hdefault : ∀ field ∈ schema.defaults, DefaultRelates related default default' field)
    (items : List Json) (type : TypeRef) :
    related (inputItemsWith schema default items type)
      (inputItemsWith schema default' items type) := by
  cases items with
  | nil => exact inherited.same id
  | cons item rest =>
      rw [inputItemsWith, inputItemsWith]
      exact inherited.bind (of_inputWith inherited hdefault item type) fun value =>
        inherited.bind (of_inputItemsWith inherited hdefault rest type) fun values =>
          inherited.same id

theorem of_inputMembersWith (inherited : Inherited related)
    (hdefault : ∀ field ∈ schema.defaults, DefaultRelates related default default' field)
    (members : Members) :
    ∀ member ∈ members, ∀ type,
      related (inputWith schema default member.2 type)
        (inputWith schema default' member.2 type) := by
  cases members with
  | nil => exact List.forall_mem_nil _
  | cons member rest =>
      obtain ⟨key, value⟩ := member
      exact List.forall_mem_cons.mpr
        ⟨of_inputWith inherited hdefault value, of_inputMembersWith inherited hdefault rest⟩

end

mutual

/-- What holds of the defaults that a literal needs holds of the coerced literal: induction on the
literal. -/
theorem of_literalWith (inherited : Inherited related) (bindings : Members) (literal : Literal)
    {type : TypeRef}
    (hdefault : ∀ field, schema.Lacks bindings literal type field →
      DefaultRelates related default default' field) :
    related (literalWith schema default bindings literal type)
      (literalWith schema default' bindings literal type) := by
  have hleaf (literal : Literal) : related (singleItem (leafLiteral schema bindings literal) type)
      (singleItem (leafLiteral schema bindings literal) type) :=
    inherited.of_singleItem fun nonNull =>
      inherited.same (not_cutOff_leafLiteral schema bindings literal _ nonNull)
  cases literal with
  | var name => exact inherited.same (not_cutOff_variableValue bindings name type)
  | null => exact inherited.same (not_cutOff_ite id id)
  | list items =>
      cases type with
      | named name nonNull => exact hleaf (.list items)
      | list item nonNull =>
          rw [literalWith, literalWith]
          have hitems := of_itemsWith inherited bindings items fun literal hmem field hlacks =>
            hdefault field (.item hmem hlacks)
          exact inherited.map hitems _
  | object fields =>
      rw [literalWith, literalWith]
      refine inherited.of_singleItem fun nonNull => ?_
      split
      · rename_i object hfound
        have hfields (field : InputValue) (hfield : field ∈ object.fields.entries) :
            Option.Rel related _ _ :=
          of_fieldsWith inherited bindings fields field fun literal hget other hlacks =>
            hdefault other (.within hfound hfield hget hlacks)
        refine inherited.of_fillObject hfields fun field hfield hmissing literal hliteral => ?_
        refine hdefault field ?_ literal hliteral
        refine .missing hfound hfield (Option.isSome_of_eq_some hliteral) ?_
        intro given hget
        rw [get?_fieldsWith, hget] at hmissing
        by_contra hpresent
        simp [hpresent] at hmissing
      · exact inherited.same (not_cutOff_leafLiteral schema bindings _ _ nonNull)
  | bool b => exact hleaf (.bool b)
  | int text => exact hleaf (.int text)
  | float text => exact hleaf (.float text)
  | string text => exact hleaf (.string text)
  | enum name => exact hleaf (.enum name)

theorem of_itemsWith (inherited : Inherited related) (bindings : Members) (items : List Literal)
    {type : TypeRef}
    (hdefault : ∀ literal ∈ items, ∀ field, schema.Lacks bindings literal type field →
      DefaultRelates related default default' field) :
    related (itemsWith schema default bindings items type)
      (itemsWith schema default' bindings items type) := by
  cases items with
  | nil => exact inherited.same id
  | cons item rest =>
      obtain ⟨hitem, hrest⟩ := List.forall_mem_cons.mp hdefault
      rw [itemsWith, itemsWith]
      exact inherited.bind (of_literalWith inherited bindings item hitem) fun value =>
        inherited.bind (of_itemsWith inherited bindings rest hrest) fun values =>
          inherited.same id

theorem of_fieldsWith (inherited : Inherited related) (bindings : Members)
    (fields : List (String × Literal)) (given : InputValue)
    (hdefault : ∀ literal, Entries.get? given.name fields = some literal →
      ∀ field, schema.Lacks bindings literal given.type field →
        DefaultRelates related default default' field) :
    Option.Rel related
      ((Entries.get? given.name (fieldsWith schema default bindings fields)).bind fun value =>
        value.map (· given.type))
      ((Entries.get? given.name (fieldsWith schema default' bindings fields)).bind fun value =>
        value.map (· given.type)) := by
  cases fields with
  | nil => exact .none
  | cons field rest =>
      obtain ⟨key, literal⟩ := field
      simp only [fieldsWith, Entries.get?] at hdefault ⊢
      split at hdefault
      · rename_i hkey
        simp only [hkey, ite_true, Option.bind_some]
        split
        · exact .none
        · exact .some (of_literalWith inherited bindings literal (hdefault literal rfl))
      · rename_i hkey
        simp only [hkey, ite_false]
        exact of_fieldsWith inherited bindings rest given hdefault

end

end Coercion.Inherited

/-! ## Following deeper -/

namespace Coercion

/-- The second coercion comes to the same result as the first, unless the first gave up. -/
def Refines (first second : Except Reason α) : Prop := CutOff first ∨ first = second

theorem Refines.not_cutOff {first second : Except Reason α} (h : Refines first second)
    (complete : ¬CutOff first) : ¬CutOff second := by
  rcases h with hcut | rfl
  · exact absurd hcut complete
  · exact complete

theorem inherited_refines : Inherited Refines where
  same _ := .inr rfl
  bind {α β first second next next'} h hnext := by
    rcases h with hcut | rfl
    · cases first with
      | ok value => exact hcut.elim
      | error reason => exact .inl hcut
    · cases first with
      | ok value => exact hnext value
      | error reason => exact .inr rfl
  within {α first second} field h := by
    rcases h with hcut | rfl
    · cases first with
      | ok value => exact hcut.elim
      | error reason => exact .inl hcut
    · exact .inr rfl

/-- A coercion gives up only if it does so for a part. -/
theorem inherited_complete : Inherited fun first _ => ¬CutOff first where
  same complete := complete
  bind {α β first second next next'} h hnext := by
    cases first with
    | ok value => exact hnext value
    | error reason => exact h
  within {α first second} field h := by
    cases first with
    | ok value => exact h
    | error reason => exact h

section

variable {schema : Schema} {default : TypeRef → Literal → Except Reason Json}

theorem not_cutOff_inputWith
    (hdefault : ∀ field ∈ schema.defaults, ∀ literal, field.default? = some literal →
      ¬CutOff (default field.type literal)) (raw : Json) (type : TypeRef) :
    ¬CutOff (inputWith schema default raw type) :=
  @Inherited.of_inputWith _ schema default default inherited_complete hdefault raw type

theorem not_cutOff_literalWith {bindings : Members} {literal : Literal} {type : TypeRef}
    (hdefault : ∀ field, schema.Lacks bindings literal type field → ∀ default',
      field.default? = some default' → ¬CutOff (default field.type default')) :
    ¬CutOff (literalWith schema default bindings literal type) :=
  @Inherited.of_literalWith _ schema default default inherited_complete bindings literal type
    hdefault

end

variable (schema : Schema)

/-- To follow defaults deeper changes nothing, except where coercion gave up: induction on the
depth. -/
theorem refines_defaultValue {depth depth' : Nat} (h : depth ≤ depth') (type : TypeRef)
    (literal : Literal) :
    Refines (defaultValue schema depth type literal) (defaultValue schema depth' type literal) := by
  induction depth generalizing depth' type literal with
  | zero => exact .inl trivial
  | succ depth ih =>
      obtain ⟨depth', rfl⟩ := Nat.exists_eq_add_of_le' (Nat.le_of_add_left_le h)
      exact inherited_refines.of_literalWith [] literal fun field _ default _ =>
        ih (Nat.le_of_succ_le_succ h) field.type default

/-- The default of the field is coerced, or refused, within that depth. -/
def Settled (depth : Nat) (field : InputValue) : Prop :=
  ∀ literal, field.default? = some literal → ¬CutOff (defaultValue schema depth field.type literal)

variable {schema}

theorem Settled.mono {depth depth' : Nat} {field : InputValue} (h : Settled schema depth field)
    (hle : depth ≤ depth') : Settled schema depth' field :=
  fun literal hliteral => (refines_defaultValue schema hle _ _).not_cutOff (h literal hliteral)

/-! ## As deep as there are defaults -/

theorem Lacks.mem_defaults {bindings : Members} {literal : Literal} {type : TypeRef}
    {field : InputValue} (h : schema.Lacks bindings literal type field) :
    field ∈ schema.defaults := by
  induction h with
  | item _ _ ih => exact ih
  | missing found declared hdefault =>
      obtain ⟨default, hdefault⟩ := Option.isSome_iff_exists.mp hdefault
      exact schema.mem_defaults found declared hdefault
  | within _ _ _ _ ih => exact ih

/-- One step deeper, no more defaults are settled. -/
def Stable (schema : Schema) (depth : Nat) : Prop :=
  ∀ field ∈ schema.defaults, Settled schema (depth + 1) field → Settled schema depth field

theorem Stable.refines {depth : Nat} (stable : Stable schema depth) (literal : Literal)
    (type : TypeRef) :
    Refines (literalWith schema (defaultValue schema (depth + 1)) [] literal type)
      (literalWith schema (defaultValue schema depth) [] literal type) := by
  refine inherited_refines.of_literalWith [] literal fun field hlacks default hdefault => ?_
  by_cases hcut : CutOff (defaultValue schema (depth + 1) field.type default)
  · exact .inl hcut
  · have hsettled : Settled schema (depth + 1) field := by
      intro literal hliteral
      cases hdefault.symm.trans hliteral
      exact hcut
    have hcomplete := stable field (Lacks.mem_defaults hlacks) hsettled default hdefault
    exact .inr ((refines_defaultValue schema (Nat.le_succ depth) _ _).resolve_left hcomplete).symm

theorem Stable.succ {depth : Nat} (stable : Stable schema depth) : Stable schema (depth + 1) :=
  fun _ _ hsettled literal hliteral =>
    (stable.refines literal _).not_cutOff (hsettled literal hliteral)

open Classical in
/-- The defaults that are settled at a depth. -/
noncomputable def settledDefaults (schema : Schema) (depth : Nat) : List InputValue :=
  schema.defaults.filter fun field => decide (Settled schema depth field)

theorem mem_settledDefaults {depth : Nat} {field : InputValue} :
    field ∈ settledDefaults schema depth ↔
      field ∈ schema.defaults ∧ Settled schema depth field := by
  simp [settledDefaults]

theorem settledDefaults_sublist {depth depth' : Nat} (h : depth ≤ depth') :
    (settledDefaults schema depth).Sublist (settledDefaults schema depth') :=
  List.monotone_filter_right _ fun field hsettled => by
    simpa using (show Settled schema depth field by simpa using hsettled).mono h

/-- Where the number of settled defaults does not grow, they are the same ones. -/
theorem settled_of_length_eq {depth depth' : Nat} (h : depth ≤ depth')
    (hlength : (settledDefaults schema depth).length = (settledDefaults schema depth').length)
    {field : InputValue} (hmem : field ∈ schema.defaults) (hsettled : Settled schema depth' field) :
    Settled schema depth field := by
  have hsame := (settledDefaults_sublist h).eq_of_length hlength
  exact (mem_settledDefaults.mp (hsame ▸ mem_settledDefaults.mpr ⟨hmem, hsettled⟩)).2

theorem Stable.settledDefaults_eq {depth : Nat} (stable : Stable schema depth) :
    settledDefaults schema depth = settledDefaults schema (depth + 1) := by
  refine List.filter_congr fun field hmem => ?_
  simp only [decide_eq_decide]
  exact ⟨fun h => h.mono (Nat.le_succ depth), stable field hmem⟩

/-- The number of settled defaults grows with the depth until it does not, and there are only so
many of them. So a default is settled within the number of all defaults, if it ever is. -/
theorem settled_of_settled {depth depth' : Nat} (hdepth : schema.defaults.length ≤ depth)
    {field : InputValue} (hmem : field ∈ schema.defaults) (hsettled : Settled schema depth' field) :
    Settled schema depth field := by
  have hgrows : Monotone fun depth => (settledDefaults schema depth).length :=
    fun _ _ h => (settledDefaults_sublist h).length_le
  have hbound (depth : Nat) : (settledDefaults schema depth).length ≤ schema.defaults.length :=
    List.length_filter_le _ _
  have hstays (depth : Nat)
      (h : (settledDefaults schema depth).length = (settledDefaults schema (depth + 1)).length) :
      (settledDefaults schema (depth + 1)).length =
        (settledDefaults schema (depth + 2)).length := by
    have stable : Stable schema depth := fun field hmem =>
      settled_of_length_eq (Nat.le_succ _) h hmem
    rw [stable.succ.settledDefaults_eq]
  have hlast := Nat.stabilises_of_monotone hgrows hbound hstays (Nat.le_max_left _ depth')
  refine (settled_of_length_eq (Nat.le_max_left _ depth') hlast.symm hmem ?_).mono hdepth
  exact hsettled.mono (Nat.le_max_right _ _)

theorem settled_of_not_cutOff {depth : Nat} {field : InputValue} {literal : Literal}
    (hliteral : field.default? = some literal)
    (complete : ¬CutOff (defaultValue schema depth field.type literal)) :
    Settled schema depth field := by
  intro other hother
  cases hliteral.symm.trans hother
  exact complete

/-- Once defaults are followed as deep as there are defaults, to follow them any deeper changes
nothing, nor does it keep coercion from giving up. -/
theorem defaultRelates_refines {depth : Nat} (hdepth : schema.defaults.length ≤ depth)
    (depth' : Nat) {field : InputValue} (hmem : field ∈ schema.defaults) :
    DefaultRelates Refines (defaultValue schema depth') (defaultValue schema depth) field := by
  intro literal hliteral
  by_cases hcut : CutOff (defaultValue schema depth' field.type literal)
  · exact .inl hcut
  · rcases Nat.le_total depth' depth with hle | hle
    · exact refines_defaultValue schema hle _ _
    · have hsettled := settled_of_settled hdepth hmem (settled_of_not_cutOff hliteral hcut)
      have hrefines := refines_defaultValue schema hle field.type literal
      exact .inr (hrefines.resolve_left (hsettled literal hliteral)).symm

/-! ## Results -/

/-- A coercion that follows defaults as deep as they go comes to a result. -/
def Returns (coerce : Nat → Except Reason Json) (result : Except Reason Json) : Prop :=
  ¬CutOff result ∧ ∃ bound, ∀ depth ≥ bound, coerce depth = result

/-- If neither more nor less depth changes anything but whether coercion gives up, it returns the
result at that depth, if it does not give up there. -/
theorem returns_iff {coerce : Nat → Except Reason Json} {depth : Nat}
    (hmono : ∀ depth' ≥ depth, Refines (coerce depth) (coerce depth'))
    (hlast : ∀ depth', Refines (coerce depth') (coerce depth)) {result : Except Reason Json} :
    Returns coerce result ↔ coerce depth = result ∧ ¬CutOff result := by
  constructor
  · rintro ⟨complete, bound, hbound⟩
    have hrefines := hlast bound
    rw [hbound bound (Nat.le_refl bound)] at hrefines
    exact ⟨(hrefines.resolve_left complete).symm, complete⟩
  · rintro ⟨rfl, complete⟩
    exact ⟨complete, depth, fun depth' hdepth => ((hmono depth' hdepth).resolve_left complete).symm⟩

end Coercion

namespace Schema

open Coercion

variable {schema : Schema}

theorem length_defaults_le_defaultDepth (schema : Schema) :
    schema.defaults.length ≤ schema.defaultDepth :=
  Nat.le_max_right _ _

/-- Coercion of JSON returns just if it does not give up, and then it returns its result. -/
theorem returns_inputWith_iff (value : Json) (type : TypeRef) (result : Except Reason Json) :
    Returns (fun depth => inputWith schema (Coercion.defaultValue schema depth) value type) result ↔
      schema.coerceInput value type = result ∧ ¬CutOff result := by
  refine returns_iff (fun depth hdepth => ?_) fun depth => ?_
  · exact inherited_refines.of_inputWith (fun field _ literal _ =>
      refines_defaultValue schema hdepth field.type literal) value type
  · exact inherited_refines.of_inputWith (fun field hmem =>
      defaultRelates_refines schema.length_defaults_le_defaultDepth depth hmem) value type

/-- Coercion of a literal returns just if it does not give up, and then it returns its result. -/
theorem returns_literalWith_iff (bindings : Members) (literal : Literal) (type : TypeRef)
    (result : Except Reason Json) :
    Returns (fun depth =>
        literalWith schema (Coercion.defaultValue schema depth) bindings literal type) result ↔
      schema.coerceLiteral bindings literal type = result ∧ ¬CutOff result := by
  refine returns_iff (fun depth hdepth => ?_) fun depth => ?_
  · exact inherited_refines.of_literalWith bindings literal fun field _ default _ =>
      refines_defaultValue schema hdepth field.type default
  · exact inherited_refines.of_literalWith bindings literal fun field hlacks =>
      defaultRelates_refines schema.length_defaults_le_defaultDepth depth
        (Lacks.mem_defaults hlacks)

end Schema

end GraphQL
