import GraphQL.Binary64.Basic

/-! Decimal text: integers, and numbers with a point and an exponent, read exactly and then
rounded once to a 64-bit float. -/

namespace GraphQL

/-- The number `coefficient * 10 ^ exponent`, negated if `negative`. -/
structure Decimal where
  negative : Bool
  coefficient : Nat
  exponent : Int
deriving DecidableEq

namespace Decimal

/-- The value of a run of decimal digits. -/
def digitsValue (digits : List Char) : Nat :=
  digits.foldl (fun value c => 10 * value + (c.toNat - '0'.toNat)) 0

/-- Whether the text starts with a minus sign, and the rest after an optional sign. -/
def splitSign : List Char → Bool × List Char
  | '-' :: rest => (true, rest)
  | '+' :: rest => (false, rest)
  | text => (false, text)

/-- Reads an optional sign and at least one digit, and nothing else. -/
def readInt? (text : List Char) : Option Int :=
  let (negative, digits) := splitSign text
  if digits.isEmpty || !digits.all Char.isDigit then none
  else
    let magnitude : Int := digitsValue digits
    some (if negative then -magnitude else magnitude)

/-- Reads an exponent part, which may be missing altogether. -/
def readExponent? : List Char → Option Int
  | [] => some 0
  | c :: rest => if c = 'e' ∨ c = 'E' then readInt? rest else none

/-- Reads an optional sign, digits with an optional point among or around them, and an optional
exponent. At least one digit must stand before the exponent. -/
def read? (text : List Char) : Option Decimal :=
  let (negative, text) := splitSign text
  let (whole, text) := text.span Char.isDigit
  let (fraction, text) := match text with
    | '.' :: rest => rest.span Char.isDigit
    | _ => ([], text)
  if whole.isEmpty && fraction.isEmpty then none
  else do
    let exponent ← readExponent? text
    some ⟨negative, digitsValue (whole ++ fraction), exponent - fraction.length⟩

/-- The nearest 64-bit float, or `none` if it is not finite. Exponents far outside the range of
the format are decided without computing the power of ten. -/
def toBinary64? (d : Decimal) : Option Binary64 :=
  let magnitude : Int := d.exponent + (d.coefficient.log2 / 3 : Nat)
  if d.coefficient = 0 ∨ magnitude < -400 then some (Binary64.zero d.negative)
  else if 400 < d.exponent then none
  else
    Binary64.ofRatio? d.negative (d.coefficient * Nat.pow 10 d.exponent.toNat)
      (Nat.pow 10 (-d.exponent).toNat)

end Decimal

/-- Reads a decimal number as the nearest 64-bit float. -/
def Binary64.read? (text : List Char) : Option Binary64 :=
  (Decimal.read? text).bind Decimal.toBinary64?

end GraphQL
