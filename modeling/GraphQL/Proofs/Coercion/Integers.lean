import GraphQL.Coercion.Input
import GraphQL.Proofs.Binary64.Value
import GraphQL.Schema.Executable

/-! # Numbers as integers of scalar type

Coercion and serialization of numbers at `Int` look at the representation of a number, at its float
and at what is left of that float in 64 bits. In the end only the value of the number counts: both
take the integers of 32 bits, in whatever representation, and nothing else. -/

namespace GraphQL

open BuiltInScalar

/-! ## Values of numbers -/

/-- The rational number that a JSON number stands for. -/
def Number.value : Number → ℚ
  | .integer n => n
  | .float x => x.value

/-- The number is an integer of scalar type, in whatever representation. -/
def Number.IsInt (number : Number) (n : Int) : Prop := number.value = n ∧ FitsInt n

theorem Number.isInt_iff {number : Number} {n : Int} :
    number.IsInt n ↔ number.value = n ∧ -2 ^ 31 ≤ n ∧ n ≤ 2 ^ 31 - 1 := by
  have hlow : Int32.minValue.toInt = -2 ^ 31 := by decide
  have hhigh : Int32.maxValue.toInt = 2 ^ 31 - 1 := by decide
  rw [IsInt, FitsInt, hlow, hhigh]

/-! ## Cutting floats down -/

/-- A float that 64 bits do not hold is cut down to an end of their range, which 32 bits do not
hold either. -/
theorem BuiltInScalar.fitsInt_toInt64_iff (x : Binary64) :
    FitsInt x.toInt64 ↔ FitsInt x.truncate := by
  have hlow : Int64.minValue.toInt < Int32.minValue.toInt := by decide
  have hhigh : Int32.maxValue.toInt < Int64.maxValue.toInt := by decide
  simp only [FitsInt, Binary64.toInt64]
  omega

theorem BuiltInScalar.FitsInt.toInt64_eq {x : Binary64} (h : FitsInt x.truncate) :
    x.toInt64 = x.truncate := by
  have hlow : Int64.minValue.toInt < Int32.minValue.toInt := by decide
  have hhigh : Int32.maxValue.toInt < Int64.maxValue.toInt := by decide
  simp only [FitsInt, Binary64.toInt64] at h ⊢
  omega

theorem BuiltInScalar.FitsInt.natAbs_lt {n : Int} (h : FitsInt n) : n.natAbs < 2 ^ 63 := by
  have hlow : Int32.minValue.toInt = -2 ^ 31 := by decide
  have hhigh : Int32.maxValue.toInt = 2 ^ 31 - 1 := by decide
  simp only [FitsInt] at h
  omega

theorem Binary64.isInt_iff (x : Binary64) (n : Int) :
    (Number.float x).IsInt n ↔ x.isIntegral = true ∧ FitsInt x.toInt64 ∧ n = x.toInt64 := by
  rw [Number.IsInt, Number.value, x.value_eq_intCast_iff, fitsInt_toInt64_iff]
  constructor
  · rintro ⟨⟨hintegral, rfl⟩, hfits⟩
    exact ⟨hintegral, hfits, hfits.toInt64_eq.symm⟩
  · rintro ⟨hintegral, hfits, rfl⟩
    rw [hfits.toInt64_eq]
    exact ⟨⟨hintegral, rfl⟩, hfits⟩

/-! ## The cases that coercion tells apart -/

namespace Number

variable {number : Number}

theorem isInt_of_int64? {whole : Int} (h : number.int64? = some whole) (n : Int) :
    number.IsInt n ↔ FitsInt whole ∧ n = whole := by
  obtain rfl := eq_of_int64? h
  rw [IsInt, value, Int.cast_inj]
  constructor
  · rintro ⟨rfl, hfits⟩
    exact ⟨hfits, rfl⟩
  · rintro ⟨hfits, rfl⟩
    exact ⟨rfl, hfits⟩

theorem natAbs_of_int64?_eq_none {m : Int} (h : (integer m).int64? = none) : 2 ^ 63 ≤ m.natAbs := by
  have hlow : Int64.minValue.toInt = -2 ^ 63 := by decide
  have hhigh : Int64.maxValue.toInt = 2 ^ 63 - 1 := by decide
  simp only [int64?, hlow, hhigh] at h
  split at h
  · cases h
  · omega

/-- An integer of more than 64 bits is out of range, and so is the float that is nearest to it. -/
theorem isInt_of_toBinary64? (wide : number.int64? = none) {x : Binary64}
    (h : number.toBinary64? = some x) (n : Int) : number.IsInt n ↔ (float x).IsInt n := by
  cases number with
  | float y =>
      obtain rfl := Option.some.inj h
      exact Iff.rfl
  | integer m =>
      have hlarge := natAbs_of_int64?_eq_none wide
      have hlog : 63 ≤ m.natAbs.log2 := (Nat.le_log2 (by omega)).mpr hlarge
      have hpart : 2 ^ 63 ≤ x.integralPart :=
        Nat.le_trans (Nat.pow_le_pow_right Nat.two_pos hlog)
          (Binary64.pow_log2_le_integralPart (by omega) h)
      constructor
      · rintro ⟨hvalue, hfits⟩
        obtain rfl : m = n := Int.cast_injective hvalue
        exact absurd hfits.natAbs_lt (by omega)
      · rintro ⟨hvalue, hfits⟩
        obtain ⟨-, rfl⟩ := (x.value_eq_intCast_iff n).mp hvalue
        have hsmall := hfits.natAbs_lt
        rw [Binary64.truncate_natAbs] at hsmall
        omega

theorem not_isInt_of_toBinary64? (wide : number.int64? = none) (h : number.toBinary64? = none)
    (n : Int) : ¬ number.IsInt n := by
  cases number with
  | float x => cases h
  | integer m =>
      rintro ⟨hvalue, hfits⟩
      obtain rfl : m = n := Int.cast_injective hvalue
      have hlarge := natAbs_of_int64?_eq_none wide
      exact absurd hfits.natAbs_lt (by omega)

/-- Whether a number is taken, and as what, may be told in the words of a test. -/
theorem exists_isInt_iff {holds : Prop} {whole : Int}
    (h : ∀ n, number.IsInt n ↔ holds ∧ n = whole) (result : Json) :
    (∃ n, number.IsInt n ∧ result = .integer n) ↔ holds ∧ result = .integer whole := by
  constructor
  · rintro ⟨n, hint, rfl⟩
    obtain ⟨hholds, rfl⟩ := (h n).mp hint
    exact ⟨hholds, rfl⟩
  · rintro ⟨hholds, rfl⟩
    exact ⟨whole, (h whole).mpr ⟨hholds, rfl⟩, rfl⟩

end Number

/-! ## Both directions -/

theorem ite_eq_ok_iff {ε α : Type} {holds : Prop} [Decidable holds] {error : ε} {value result : α} :
    (if holds then .ok value else .error error : Except ε α) = .ok result ↔
      holds ∧ result = value := by
  by_cases h : holds <;> simp [h, eq_comm]

theorem Coercion.intInput_number_eq_ok_iff (number : Number) (result : Json) :
    intInput (.number number) = .ok result ↔ ∃ n, number.IsInt n ∧ result = .integer n := by
  rw [intInput]
  cases hwhole : number.int64? with
  | some whole =>
      rw [Number.exists_isInt_iff (Number.isInt_of_int64? hwhole)]
      obtain rfl := Number.eq_of_int64? hwhole
      exact ite_eq_ok_iff
  | none =>
      cases hfloat : number.toBinary64? with
      | none => simp [Number.not_isInt_of_toBinary64? hwhole hfloat]
      | some x =>
          simp only [Number.isInt_of_toBinary64? hwhole hfloat]
          rw [Number.exists_isInt_iff fun n => (x.isInt_iff n).trans and_assoc.symm]
          exact ite_eq_ok_iff

theorem BuiltInScalar.intResult?_eq_some_iff (n : Int) (result : Json) :
    intResult? n = some result ↔ FitsInt n ∧ result = .integer n := by
  by_cases hfits : FitsInt n <;> simp [intResult?, hfits, eq_comm]

/-- The test on the magnitude refuses nothing that fits in the end. -/
theorem BuiltInScalar.intResult?_integralFloat? (x : Binary64) (result : Json) :
    (integralFloat? x).bind intResult? = some result ↔
      (x.isIntegral = true ∧ FitsInt x.toInt64) ∧ result = .integer x.toInt64 := by
  have hsmall (hfits : FitsInt x.toInt64) : x.integralPart ≤ Nat.pow 2 63 := by
    rw [← Binary64.truncate_natAbs]
    exact ((fitsInt_toInt64_iff x).mp hfits).natAbs_lt.le
  rw [integralFloat?]
  split
  next haccepted =>
    rw [Option.bind_some, intResult?_eq_some_iff, and_iff_right haccepted.1]
  next hrefused =>
    constructor
    · intro h
      cases h
    · rintro ⟨⟨hintegral, hfits⟩, -⟩
      exact absurd ⟨hintegral, hsmall hfits⟩ hrefused

theorem BuiltInScalar.serializeInt?_number_eq_some_iff (number : Number) (result : Json) :
    serializeInt? (.number number) = some result ↔ ∃ n, number.IsInt n ∧ result = .integer n := by
  rw [serializeInt?, wholeNumber?]
  cases hwhole : number.int64? with
  | some whole =>
      rw [Number.exists_isInt_iff (Number.isInt_of_int64? hwhole), ← intResult?_eq_some_iff]
      rfl
  | none =>
      cases hfloat : number.toBinary64? with
      | none => simp [Number.not_isInt_of_toBinary64? hwhole hfloat]
      | some x =>
          simp only [Number.isInt_of_toBinary64? hwhole hfloat]
          rw [Number.exists_isInt_iff fun n => (x.isInt_iff n).trans and_assoc.symm]
          exact intResult?_integralFloat? x result

variable {State Object Item : Type}

/-- Coercion and serialization at `Int` are exact. Both take a number, in whatever representation,
if and only if its value is an integer of 32 bits, and both answer with that integer. -/
theorem ExecutableSchema.int_exact {executable : ExecutableSchema State Object Item}
    (hint : executable.schema.type? "Int" = some (.scalar "Int"))
    (hplain : executable.serializer? "Int" = none) (number : Number) (nonNull : Bool)
    (result : Json) :
    (executable.schema.coerceInput (.number number) (.named "Int" nonNull) = .ok result ↔
        ∃ n : Int, (number.value = n ∧ -2 ^ 31 ≤ n ∧ n ≤ 2 ^ 31 - 1) ∧ result = .integer n) ∧
      ∀ state : State,
        (executable.serialize? (.scalar "Int") (.number number)).run state =
            (some result, state) ↔
          ∃ n : Int, (number.value = n ∧ -2 ^ 31 ≤ n ∧ n ≤ 2 ^ 31 - 1) ∧ result = .integer n := by
  have hcoerce : executable.schema.coerceInput (.number number) (.named "Int" nonNull) =
      Coercion.intInput (.number number) := by
    simp only [Schema.coerceInput, Coercion.inputWith, Coercion.singleItem, Coercion.leafInput,
      hint, Coercion.scalarInput, ofName?]
  have hserialize (state : State) :
      (executable.serialize? (.scalar "Int") (.number number)).run state =
        (serializeInt? (.number number), state) := by
    simp only [ExecutableSchema.serialize?, TypeDefinition.name, hplain, ofName?]
    rfl
  simp only [← Number.isInt_iff]
  refine ⟨?_, fun state => ?_⟩
  · rw [hcoerce]
    exact Coercion.intInput_number_eq_ok_iff number result
  · rw [hserialize, Prod.mk.injEq, and_iff_left rfl]
    exact serializeInt?_number_eq_some_iff number result

namespace Sample

def counting : ExecutableSchema Unit Unit Unit where
  schema := { query? := none, types := ⟨[.scalar "Int"], by decide⟩ }

/-- Zero with a sign is the integer without one. -/
theorem counting_negativeZero :
    counting.schema.coerceInput (.number (.float (.zero true))) (.named "Int" true) =
        .ok (.integer 0) ∧
      (counting.serialize? (.scalar "Int") (.number (.float (.zero true)))).run () =
        (some (.integer 0), ()) := by
  have hzero : ∃ n : Int, ((Number.float (.zero true)).value = n ∧ -2 ^ 31 ≤ n ∧
      n ≤ 2 ^ 31 - 1) ∧ Json.integer 0 = .integer n :=
    ⟨0, ⟨by simp [Number.value, Binary64.value, Binary64.zero], by decide, by decide⟩, rfl⟩
  have hexact := @ExecutableSchema.int_exact _ _ _ counting rfl rfl
    (.float (.zero true)) true (.integer 0)
  exact ⟨hexact.1.mpr hzero, (hexact.2 ()).mpr hzero⟩

end Sample

end GraphQL
