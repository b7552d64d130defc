/-! Finite 64-bit floating-point numbers as exact dyadic values. Each nonzero value has one
representation, zero has one for each sign, and rounding goes to nearest with ties to even. -/

namespace GraphQL

/-- The one way the format writes a magnitude as `mantissa * 2 ^ exponent`. -/
def Binary64.Canonical (mantissa : Nat) (exponent : Int) : Prop :=
  mantissa < Nat.pow 2 53 ∧ -1074 ≤ exponent ∧ exponent ≤ 971 ∧
    (mantissa < Nat.pow 2 52 → exponent = -1074)

instance (mantissa : Nat) (exponent : Int) :
    Decidable (Binary64.Canonical mantissa exponent) := by
  unfold Binary64.Canonical
  infer_instance

/-- A finite number: `mantissa * 2 ^ exponent`, negated if `negative`. -/
structure Binary64 where
  negative : Bool
  mantissa : Nat
  exponent : Int
  canonical : Binary64.Canonical mantissa exponent := by decide
deriving DecidableEq

namespace Binary64

def zero (negative : Bool) : Binary64 := ⟨negative, 0, -1074, by decide⟩

/-- The number with these parts, if the format has it. -/
def ofParts? (negative : Bool) (mantissa : Nat) (exponent : Int) : Option Binary64 :=
  if h : Canonical mantissa exponent then some ⟨negative, mantissa, exponent, h⟩ else none

/-- The quotient rounded to the nearest integer, a tie going to the even one. -/
def roundDiv (numerator denominator : Nat) : Nat :=
  let quotient := numerator / denominator
  let remainder := numerator % denominator
  if 2 * remainder < denominator then quotient
  else if denominator < 2 * remainder then quotient + 1
  else quotient + quotient % 2

/-- A fraction of naturals divided by `2 ^ exponent`. -/
def scale (numerator denominator : Nat) (exponent : Int) : Nat × Nat :=
  (numerator * Nat.pow 2 (-exponent).toNat, denominator * Nat.pow 2 exponent.toNat)

/-- The exponent at which a positive fraction has a mantissa of 53 bits, or the least exponent
if the fraction is smaller than that. -/
def fittingExponent (numerator denominator : Nat) : Int :=
  let guess : Int := (numerator.log2 : Int) - denominator.log2 - 53
  let scaled := scale numerator denominator guess
  max (-1074) (if scaled.1 < Nat.pow 2 53 * scaled.2 then guess else guess + 1)

/-- The number nearest to a fraction, or `none` beyond the largest finite number. -/
def ofRatio? (negative : Bool) (numerator denominator : Nat) : Option Binary64 :=
  if numerator = 0 then some (zero negative)
  else
    let exponent := fittingExponent numerator denominator
    let scaled := scale numerator denominator exponent
    let mantissa := roundDiv scaled.1 scaled.2
    if mantissa = Nat.pow 2 53 then ofParts? negative (Nat.pow 2 52) (exponent + 1)
    else ofParts? negative mantissa exponent

def ofInt? (n : Int) : Option Binary64 :=
  ofRatio? (decide (n < 0)) n.natAbs 1

/-- Zero of either sign. -/
def isZero (x : Binary64) : Bool := x.mantissa == 0

/-- The magnitude as a fraction of naturals. -/
def ratio (x : Binary64) : Nat × Nat := scale x.mantissa 1 (-x.exponent)

/-- Whether the number has no fractional part. -/
def isIntegral (x : Binary64) : Bool := x.ratio.1 % x.ratio.2 == 0

/-- The magnitude without its fractional part. -/
def integralPart (x : Binary64) : Nat := x.ratio.1 / x.ratio.2

/-- The integer next to the number on the way to zero. -/
def truncate (x : Binary64) : Int := if x.negative then -x.integralPart else x.integralPart

/-- The number cut down to a signed integer of 64 bits: towards zero, and to the nearer end of the
range if it lies outside. -/
def toInt64 (x : Binary64) : Int :=
  max Int64.minValue.toInt (min x.truncate Int64.maxValue.toInt)

end Binary64

end GraphQL
