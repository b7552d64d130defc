import GraphQL.Proofs.Execution.Reach
import GraphQL.Proofs.Response.Data
import GraphQL.Proofs.Response.Failures
import Mathlib.Data.List.Induction

/-! # Where nulls come from

An error makes the nearest nullable place around it null, unless that place is lost in a null
further up. Every other null is what a resolver returned. -/

namespace GraphQL

variable {State Object Item : Type}

/-! ## Nulls of a record -/

namespace Slot

/-- The place below is recorded, and its type is nullable. -/
def Nullable (slot : Slot) (path : Path) : Prop :=
  ∃ lower, slot.find? path = some lower ∧ lower.1.nonNull = false

theorem nullable_nil (slot : Slot) : slot.Nullable [] ↔ slot.1.nonNull = false := by
  simp [Nullable]

theorem nullable_cons {slot child : Slot} {segment : PathSegment}
    (h : Entries.get? segment slot.2.children = some child) (rest : Path) :
    slot.Nullable (segment :: rest) ↔ child.Nullable rest := by
  simp [Nullable, find?_cons, h]

/-- A place that has no data has an error below it, with no nullable place on the way. -/
theorem Valid.error_of_data?_eq_none {slot : Slot} (h : slot.Valid) (hdata : slot.2.data? = none) :
    ∃ error ∈ slot.2.errors, ∀ path, path <+: error.path → slot.Nullable path → path = [] := by
  induction h using upwards with
  | failed type failure locations =>
      exact ⟨_, List.mem_singleton_self _, fun path hpath _ => List.prefix_nil.mp hpath⟩
  | holds slot hvalid hholds ih =>
      have hchild : ∃ child ∈ slot.2.children, child.2.value? = none := by
        obtain ⟨type, place⟩ := slot
        cases place with
        | failed failure locations => exact absurd rfl (hholds failure locations)
        | null | leaf => cases hdata
        | list items => exact Place.values?_eq_none (Option.map_eq_none_iff.mp hdata)
        | object fields => exact Place.values?_eq_none (Option.map_eq_none_iff.mp hdata)
      obtain ⟨child, hmem, hnone⟩ := hchild
      obtain ⟨hlower, hnonNull⟩ := Slot.value?_eq_none.mp hnone
      obtain ⟨error, herror, hbelow⟩ := ih child hmem hlower
      refine ⟨error.under [child.1], ?_, ?_⟩
      · exact (hholds.mem_errors _).mpr ⟨child, hmem, error, herror, rfl⟩
      · intro path hpath hnullable
        cases path with
        | nil => rfl
        | cons segment rest =>
            obtain ⟨rfl, hrest⟩ := List.cons_prefix_cons.mp hpath
            rw [nullable_cons (Entries.get?_of_mem hvalid.nodup_keys hmem)] at hnullable
            obtain rfl := hbelow rest hrest hnullable
            rw [nullable_nil, hnonNull] at hnullable
            cases hnullable

/-- Around an error there is a null at a nullable place. -/
theorem Valid.null_around_error {slot : Slot} (h : slot.Valid) {value : Json}
    (hvalue : slot.value? = some value) {error : FieldError} (herror : error ∈ slot.2.errors) :
    ∃ path, path <+: error.path ∧ slot.Nullable path ∧ value.at? path = some .null := by
  induction h using upwards generalizing value error with
  | failed type failure locations =>
      rcases value?_eq_some.mp hvalue with hdata | ⟨-, rfl, hnullable⟩
      · cases hdata
      · exact ⟨[], List.nil_prefix, (nullable_nil _).mpr hnullable, rfl⟩
  | holds slot hvalid hholds ih =>
      rcases value?_eq_some.mp hvalue with hdata | ⟨-, rfl, hnullable⟩
      · obtain ⟨child, hmem, origin, horigin, rfl⟩ := (hholds.mem_errors error).mp herror
        have hfind := Entries.get?_of_mem hvalid.nodup_keys hmem
        obtain ⟨lower, hlower, hat⟩ := hvalid.at?_child hdata hfind
        obtain ⟨path, hpath, hnullable, hnull⟩ := ih child hmem hlower horigin
        refine ⟨child.1 :: path, List.cons_prefix_cons.mpr ⟨rfl, hpath⟩, ?_, ?_⟩
        · exact (nullable_cons hfind path).mpr hnullable
        · rw [hat, hnull]
      · exact ⟨[], List.nil_prefix, (nullable_nil _).mpr hnullable, rfl⟩

theorem Valid.origin_of_value_null {slot : Slot} (h : slot.Valid)
    (hvalue : slot.value? = some .null) :
    slot.2 = .null ∨
      slot.Nullable [] ∧ ∃ error ∈ slot.2.errors,
        ∀ path, path <+: error.path → slot.Nullable path → path = [] := by
  rcases value?_eq_some.mp hvalue with hdata | ⟨hdata, -, hnullable⟩
  · left
    cases h with
    | failed => cases hdata
    | null => rfl
    | leaf hleaf =>
        cases Option.some.inj hdata
        cases hleaf
    | list | object =>
        obtain ⟨values, -, hvalues⟩ := Option.map_eq_some_iff.mp hdata
        cases hvalues
  · right
    exact ⟨(nullable_nil slot).mpr hnullable, h.error_of_data?_eq_none hdata⟩

/-- A null at a recorded place was found there, or comes from an error below it with no nullable
place on the way. -/
theorem Valid.origin_of_null {slot : Slot} (h : slot.Valid) {value : Json}
    (hvalue : slot.value? = some value) {path : Path} {lower : Slot}
    (hfind : slot.find? path = some lower) (hnull : value.at? path = some .null) :
    lower.2 = .null ∨
      slot.Nullable path ∧ ∃ error ∈ slot.2.errors, path <+: error.path ∧
        ∀ other, other <+: error.path → slot.Nullable other → other <+: path := by
  induction path generalizing slot value with
  | nil =>
      obtain rfl := Option.some.inj hfind
      obtain rfl : value = .null := by simpa using hnull
      refine (h.origin_of_value_null hvalue).imp_right ?_
      rintro ⟨hnullable, error, herror, hbelow⟩
      refine ⟨hnullable, error, herror, List.nil_prefix, ?_⟩
      intro other hother hother'
      obtain rfl := hbelow other hother hother'
      exact List.nil_prefix
  | cons segment rest ih =>
      obtain ⟨child, hchild, hrest⟩ := Option.bind_eq_some_iff.mp hfind
      have hmem := Entries.mem_of_get? hchild
      rcases value?_eq_some.mp hvalue with hdata | ⟨-, rfl, -⟩
      · obtain ⟨below, hbelow, hat⟩ := h.at?_child hdata hchild
        rw [hat] at hnull
        refine (ih (h.child hmem) hbelow hrest hnull).imp_right ?_
        rintro ⟨hnullable, error, herror, hinitial, hnearest⟩
        refine ⟨(nullable_cons hchild rest).mpr hnullable, error.under [segment], ?_, ?_, ?_⟩
        · have hholds : slot.Holds := by
            intro failure locations hfailed
            rw [hfailed] at hdata
            cases hdata
          exact (hholds.mem_errors _).mpr ⟨_, hmem, error, herror, rfl⟩
        · exact List.cons_prefix_cons.mpr ⟨rfl, hinitial⟩
        · intro other hother hother'
          cases other with
          | nil => exact List.nil_prefix
          | cons first others =>
              obtain ⟨rfl, hothers⟩ := List.cons_prefix_cons.mp hother
              rw [nullable_cons hchild] at hother'
              exact List.cons_prefix_cons.mpr ⟨rfl, hnearest others hothers hother'⟩
      · rw [Json.at?_null_cons] at hnull
        cases hnull

end Slot

/-! ## Nulls of a response -/

/-- A place of the response that the run comes to, or the root. -/
def Position (env : Environment State Object Item) (type : ObjectType) (state : State)
    (path : Path) : Prop :=
  path = [] ∨ ∃ pending resolved middle, Asks env type state path pending resolved middle

/-- A place of the response whose declared type is nullable, or the root. -/
def NullablePosition (env : Environment State Object Item) (type : ObjectType) (state : State)
    (path : Path) : Prop :=
  path = [] ∨ ∃ pending resolved middle, Asks env type state path pending resolved middle ∧
    pending.type.nonNull = false

/-- The nearest nullable place around a place. -/
structure NearestNullable (env : Environment State Object Item) (type : ObjectType) (state : State)
    (path holder : Path) : Prop where
  initial : holder <+: path
  nullable : NullablePosition env type state holder
  nearest : ∀ other, other <+: path → NullablePosition env type state other → other <+: holder

/-- A place of nullable type for which null was returned. -/
def ReturnsNull (env : Environment State Object Item) (type : ObjectType) (state : State)
    (path : Path) : Prop :=
  ∃ pending value middle, Asks env type state path pending (.ok value) middle ∧
    value.isNull = true ∧ pending.type.nonNull = false

theorem NearestNullable.unique {env : Environment State Object Item} {type : ObjectType}
    {state : State} {path holder holder' : Path} (h : NearestNullable env type state path holder)
    (h' : NearestNullable env type state path holder') : holder = holder' := by
  have hle := h'.nearest holder h.initial h.nullable
  have hge := h.nearest holder' h'.initial h'.nullable
  exact hle.eq_of_length_le hge.length_le

theorem NearestNullable.exists (env : Environment State Object Item) (type : ObjectType)
    (state : State) (path : Path) : ∃ holder, NearestNullable env type state path holder := by
  induction path using List.reverseRecOn with
  | nil => exact ⟨[], List.prefix_rfl, .inl rfl, fun other hother _ => hother⟩
  | append_singleton path segment ih =>
      by_cases hnullable : NullablePosition env type state (path ++ [segment])
      · exact ⟨_, List.prefix_rfl, hnullable, fun other hother _ => hother⟩
      · obtain ⟨holder, hholder⟩ := ih
        refine ⟨holder, hholder.initial.trans (List.prefix_append _ _), hholder.nullable, ?_⟩
        intro other hother hother'
        rcases List.prefix_concat_iff.mp hother with rfl | hother
        · exact absurd hother' hnullable
        · exact hholder.nearest other hother hother'

section

variable {env : Environment State Object Item} {type : ObjectType} {state last : State}
  {record : Slot}

theorem Asks.ne_nil {path : Path} {pending : Pending State Object Item}
    {resolved : Except Failure (Resolved Object Item)} {middle : State}
    (h : Asks env type state path pending resolved middle) : path ≠ [] := by
  obtain ⟨reached, call⟩ := h
  simp

theorem RunDerivation.position_iff (h : RunDerivation env type state record last) (path : Path) :
    Position env type state path ↔ ∃ slot, record.find? path = some slot := by
  constructor
  · rintro (rfl | ⟨pending, resolved, middle, hasks⟩)
    · exact ⟨record, rfl⟩
    · obtain ⟨place, next, hfind, -⟩ := hasks.derivation h
      exact ⟨_, hfind⟩
  · rintro ⟨slot, hfind⟩
    cases path with
    | nil => exact .inl rfl
    | cons segment rest =>
        obtain ⟨hasks, -⟩ := h.fills hfind
        exact .inr ⟨_, _, _, hasks⟩

theorem RunDerivation.nullable_iff (h : RunDerivation env type state record last) (path : Path) :
    NullablePosition env type state path ↔ record.Nullable path := by
  constructor
  · rintro (rfl | ⟨pending, resolved, middle, hasks, hnullable⟩)
    · exact (Slot.nullable_nil record).mpr h.nullable
    · obtain ⟨place, next, hfind, -⟩ := hasks.derivation h
      exact ⟨_, hfind, hnullable⟩
  · rintro ⟨slot, hfind, hnullable⟩
    cases path with
    | nil => exact .inl rfl
    | cons segment rest =>
        obtain ⟨hasks, -⟩ := h.fills hfind
        exact .inr ⟨_, _, _, hasks, hnullable⟩

/-- A null in the record was returned. -/
theorem RunDerivation.returnsNull (h : RunDerivation env type state record last) {path : Path}
    {lower : TypeRef} (hfind : record.find? path = some (lower, .null)) :
    ReturnsNull env type state path := by
  cases path with
  | nil =>
      obtain ⟨below⟩ := h
      cases hfind
  | cons segment rest =>
      cases h.fills hfind with
      | intro asks derivation =>
          obtain ⟨value, rfl, hnull, hnullable⟩ := derivation.returned
          exact ⟨_, value, _, asks, hnull, hnullable⟩

theorem RunDerivation.null_of_error (h : RunDerivation env type state record last)
    {error : FieldError} (herror : error ∈ record.2.errors) :
    ∃ holder, NearestNullable env type state error.path holder ∧
      ∃ path, path <+: holder ∧ record.toResponse.data.toJson.at? path = some .null := by
  obtain ⟨holder, hholder⟩ := NearestNullable.exists env type state error.path
  obtain ⟨path, hpath, hnullable, hnull⟩ := h.valid.null_around_error h.value?_eq herror
  exact ⟨holder, hholder, path, hholder.nearest path hpath ((h.nullable_iff path).mpr hnullable),
    hnull⟩

theorem RunDerivation.origin_of_null (h : RunDerivation env type state record last) {path : Path}
    (hposition : Position env type state path)
    (hnull : record.toResponse.data.toJson.at? path = some .null) :
    ReturnsNull env type state path ∨
      ∃ error ∈ record.2.errors, NearestNullable env type state error.path path := by
  obtain ⟨⟨lower, place⟩, hfind⟩ := (h.position_iff path).mp hposition
  rcases h.valid.origin_of_null h.value?_eq hfind hnull with
    rfl | ⟨hnullable, error, herror, hinitial, hnearest⟩
  · exact .inl (h.returnsNull hfind)
  · refine .inr ⟨error, herror, hinitial, (h.nullable_iff path).mpr hnullable, ?_⟩
    intro other hother hother'
    exact hnearest other hother ((h.nullable_iff other).mp hother')

end

/-- Each error makes its nearest nullable place null, or that place is lost in a null further up.
Each null was returned by a resolver, or is the nearest nullable place of an error. -/
theorem Request.null_propagation {executable : ExecutableSchema State Object Item}
    {service : Service State Object Item} {request : Request State Object Item} {depth : Nat}
    {state next : State} {response : Response}
    (h : request.executeWithin depth executable service state = some (.ok response, next)) :
    ∃ env type, request.prepare executable service = .ok (env, type) ∧
      (∀ error ∈ response.errors, ∃ holder, NearestNullable env type state error.path holder ∧
        ∃ path, path <+: holder ∧ response.data.toJson.at? path = some .null) ∧
      (∀ path, Position env type state path → response.data.toJson.at? path = some .null →
        ReturnsNull env type state path ∨
          ∃ error ∈ response.errors, NearestNullable env type state error.path path) ∧
      (response.data = .null → response.errors ≠ []) ∧
      (response.errors = [] → ∀ path, Position env type state path →
        response.data.toJson.at? path = some .null → ReturnsNull env type state path) := by
  obtain ⟨env, type, record, hprepare, hrecord, rfl⟩ := executeWithin_derivation h
  have horigin : ∀ path, Position env type state path →
      record.toResponse.data.toJson.at? path = some .null →
        ReturnsNull env type state path ∨
          ∃ error ∈ record.toResponse.errors, NearestNullable env type state error.path path := by
    intro path hposition hnull
    refine (hrecord.origin_of_null hposition hnull).imp_right ?_
    rintro ⟨error, herror, hnearest⟩
    exact ⟨_, List.mem_map_of_mem herror, hnearest⟩
  refine ⟨env, type, hprepare, ?_, horigin, ?_, ?_⟩
  · intro error herror
    obtain ⟨origin, hmem, rfl⟩ := List.mem_map.mp herror
    exact hrecord.null_of_error hmem
  · intro hdata hnone
    have hroot : record.toResponse.data.toJson.at? [] = some .null := by
      rw [hdata]
      rfl
    rcases horigin [] (.inl rfl) hroot with ⟨_, _, _, hasks, _⟩ | ⟨error, herror, _⟩
    · exact hasks.ne_nil rfl
    · rw [hnone] at herror
      cases herror
  · intro hnone path hposition hnull
    rcases horigin path hposition hnull with hreturns | ⟨error, herror, _⟩
    · exact hreturns
    · rw [hnone] at herror
      cases herror

theorem Sample.nameless_null_propagation :
    ∃ depth response,
      request.executeWithin depth (executable nameless) service () = some (.ok response, ()) ∧
      ∃ env type, request.prepare (executable nameless) service = .ok (env, type) ∧
        (∀ error ∈ response.errors, ∃ holder, NearestNullable env type () error.path holder ∧
          ∃ path, path <+: holder ∧ response.data.toJson.at? path = some .null) ∧
        (∀ path, Position env type () path → response.data.toJson.at? path = some .null →
          ReturnsNull env type () path ∨
            ∃ error ∈ response.errors, NearestNullable env type () error.path path) ∧
        (response.data = .null → response.errors ≠ []) ∧
        (response.errors = [] → ∀ path, Position env type () path →
          response.data.toJson.at? path = some .null → ReturnsNull env type () path) := by
  obtain ⟨depth, h⟩ := nameless_answer
  exact ⟨depth, _, h, Request.null_propagation h⟩

end GraphQL
