import GraphQL.Binary64.Basic
import Mathlib.Algebra.Order.Ring.Rat
import Mathlib.Algebra.Order.Field.Power
import Mathlib.Algebra.Order.Field.Basic
import Mathlib.Data.Nat.Cast.Field
import Mathlib.Tactic.FieldSimp
import Mathlib.Tactic.Positivity
import Mathlib.Tactic.Linarith

/-! # The value of a float

A float stands for a rational number. It is an integer just when nothing is lost in cutting off its
fractional part, and then it is that integer. An integer that is rounded to a float does not come
below a power of two that it reaches, so that one of more than 64 bits stays outside of their
range. -/

namespace GraphQL.Binary64

/-- The rational number that a float stands for. -/
def value (x : Binary64) : ℚ := (if x.negative then -1 else 1) * (x.mantissa * 2 ^ x.exponent)

theorem ratio_snd_pos (x : Binary64) : 0 < x.ratio.2 := by
  rw [ratio, scale]
  exact Nat.mul_pos Nat.one_pos (Nat.pow_pos Nat.two_pos)

theorem mantissa_mul_zpow (mantissa : Nat) (exponent : Int) :
    (mantissa * 2 ^ exponent : ℚ) =
      ((scale mantissa 1 (-exponent)).1 : ℚ) / (scale mantissa 1 (-exponent)).2 := by
  obtain ⟨n, rfl | rfl⟩ := exponent.eq_nat_or_neg
  · simp [scale]
  · simp [scale, div_eq_mul_inv]

theorem value_eq (x : Binary64) :
    x.value = (if x.negative then -1 else 1) * ((x.ratio.1 : ℚ) / x.ratio.2) := by
  rw [value, mantissa_mul_zpow, ratio]

/-- The magnitude of a float as a rational number. -/
theorem abs_value (x : Binary64) : |x.value| = (x.ratio.1 : ℚ) / x.ratio.2 := by
  have hnonneg : (0 : ℚ) ≤ (x.ratio.1 : ℚ) / x.ratio.2 := by positivity
  rw [value_eq, abs_mul, abs_of_nonneg hnonneg]
  cases x.negative <;> simp

/-- A float whose fractional part is zero is what is left of it when that part is cut off. -/
theorem value_of_isIntegral {x : Binary64} (h : x.isIntegral = true) :
    x.value = x.truncate := by
  have hdivides : x.ratio.2 ∣ x.ratio.1 := Nat.dvd_of_mod_eq_zero (beq_iff_eq.mp h)
  have hpart : ((x.ratio.1 / x.ratio.2 : Nat) : ℚ) = (x.ratio.1 : ℚ) / x.ratio.2 :=
    Nat.cast_div hdivides (Nat.cast_ne_zero.mpr x.ratio_snd_pos.ne')
  rw [value_eq, truncate, integralPart, ← hpart]
  cases x.negative <;> simp only [Bool.false_eq_true, ite_true, ite_false, Int.cast_neg,
    Int.cast_natCast, one_mul, neg_mul]

theorem isIntegral_of_value {x : Binary64} {n : Int} (h : x.value = n) :
    x.isIntegral = true := by
  have hmagnitude : (x.ratio.1 : ℚ) / x.ratio.2 = (n.natAbs : ℚ) := by
    rw [← abs_value, h, Nat.cast_natAbs, Int.cast_abs]
  have hproduct : x.ratio.1 = n.natAbs * x.ratio.2 := by
    rw [div_eq_iff (Nat.cast_ne_zero.mpr x.ratio_snd_pos.ne')] at hmagnitude
    exact_mod_cast hmagnitude
  rw [isIntegral, hproduct, Nat.mul_mod_left]
  rfl

/-- A float is an integer just when its fractional part is zero and the rest is that integer. -/
theorem value_eq_intCast_iff (x : Binary64) (n : Int) :
    x.value = n ↔ x.isIntegral = true ∧ x.truncate = n := by
  constructor
  · intro h
    have hintegral := isIntegral_of_value h
    rw [value_of_isIntegral hintegral] at h
    exact ⟨hintegral, Int.cast_injective h⟩
  · rintro ⟨hintegral, rfl⟩
    exact value_of_isIntegral hintegral

theorem truncate_natAbs (x : Binary64) : x.truncate.natAbs = x.integralPart := by
  rw [truncate]
  split <;> simp

/-! ## Rounding integers -/

theorem le_roundDiv (numerator denominator : Nat) :
    numerator / denominator ≤ roundDiv numerator denominator := by
  simp only [roundDiv]
  split
  · exact Nat.le_refl _
  · split
    · exact Nat.le_succ _
    · exact Nat.le_add_right _ _

theorem integralPart_ofParts {negative : Bool} {mantissa : Nat} {exponent : Int} {x : Binary64}
    (h : ofParts? negative mantissa exponent = some x) (hexponent : 0 ≤ exponent) :
    x.integralPart = mantissa * 2 ^ exponent.toNat := by
  rw [ofParts?] at h
  split at h
  · obtain rfl := Option.some.inj h
    have hnone : (-exponent).toNat = 0 := Int.toNat_of_nonpos (by omega)
    simp only [integralPart, ratio, scale, neg_neg, hnone, Nat.pow_eq, pow_zero, Nat.mul_one,
      Nat.div_one]
  · cases h

/-- An integer of more than 53 bits has a mantissa of 53 bits once its last bits are cut off. -/
theorem fittingExponent_one {n : Nat} (h : 53 ≤ n.log2) :
    fittingExponent n 1 = (n.log2 - 52 : Nat) := by
  have hpos : n ≠ 0 := by
    rintro rfl
    simp at h
  have hguess : ((n.log2 : Int) - Nat.log2 1 - 53) = (n.log2 - 53 : Nat) := by
    have : Nat.log2 1 = 0 := by decide
    omega
  have hlarge : ¬ n * Nat.pow 2 0 < Nat.pow 2 53 * (1 * Nat.pow 2 (n.log2 - 53)) := by
    simp only [Nat.pow_eq, pow_zero, Nat.mul_one, Nat.one_mul, not_lt]
    calc 2 ^ 53 * 2 ^ (n.log2 - 53) = 2 ^ n.log2 := by rw [← Nat.pow_add, Nat.add_sub_cancel' h]
      _ ≤ n := Nat.log2_self_le hpos
  have hnegative : (-((n.log2 - 53 : Nat) : Int)).toNat = 0 := Int.toNat_of_nonpos (by omega)
  simp only [fittingExponent, hguess, scale, Int.toNat_natCast, hnegative, if_neg hlarge]
  omega

/-- An integer that is rounded keeps its leading bit, or rounds to a power of two above it. -/
theorem pow_log2_le_integralPart {negative : Bool} {n : Nat} {x : Binary64} (hlog : 53 ≤ n.log2)
    (h : ofRatio? negative n 1 = some x) : 2 ^ n.log2 ≤ x.integralPart := by
  have hpos : n ≠ 0 := by
    rintro rfl
    simp at hlog
  have hsplit : 2 ^ n.log2 = 2 ^ 52 * 2 ^ (n.log2 - 52) := by
    rw [← Nat.pow_add]
    congr 1
    omega
  have hnegative : (-((n.log2 - 52 : Nat) : Int)).toNat = 0 := Int.toNat_of_nonpos (by omega)
  simp only [ofRatio?, if_neg hpos, fittingExponent_one hlog, scale, hnegative, Int.toNat_natCast,
    Nat.pow_eq, pow_zero, Nat.mul_one, Nat.one_mul] at h
  have hmantissa : 2 ^ 52 ≤ roundDiv n (2 ^ (n.log2 - 52)) := by
    refine Nat.le_trans ?_ (le_roundDiv _ _)
    rw [Nat.le_div_iff_mul_le (Nat.pow_pos Nat.two_pos), ← hsplit]
    exact Nat.log2_self_le hpos
  split at h
  · rw [integralPart_ofParts h (by omega), hsplit, Int.toNat_natCast_add_one, Nat.pow_succ]
    omega
  · rw [integralPart_ofParts h (by omega), hsplit, Int.toNat_natCast]
    exact Nat.mul_le_mul_right _ hmantissa

end GraphQL.Binary64
