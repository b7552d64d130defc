import GraphQL.Binary64.Basic

/-! The shortest decimal text of a 64-bit float: the fewest digits that read back as the same
number, and of those the nearest to it. -/

namespace GraphQL.Binary64

/-- A nonzero magnitude and the ends of the interval that rounds to it, all three in units of
`2 ^ exponent`. The ends belong to the interval if `closed`. -/
structure Interval where
  low : Nat
  value : Nat
  high : Nat
  exponent : Int
  closed : Bool

/-- Below a power of two the neighbour is half as far away as above it. -/
def interval (x : Binary64) : Interval :=
  let below := if x.mantissa = Nat.pow 2 52 ∧ -1074 < x.exponent then 1 else 2
  ⟨4 * x.mantissa - below, 4 * x.mantissa, 4 * x.mantissa + 2, x.exponent - 2,
    x.mantissa % 2 == 0⟩

/-- The multiple of `10 ^ power` to write for the interval's value: of the two multiples around
the value the nearer one inside the interval, the even one if they are equally near. -/
def Interval.onGrid? (i : Interval) (power : Int) : Option Nat :=
  let unit := Nat.pow 10 power.toNat * Nat.pow 2 (-i.exponent).toNat
  let scaled (bound : Nat) := bound * Nat.pow 2 i.exponent.toNat * Nat.pow 10 (-power).toNat
  let inside (multiple : Nat) : Bool :=
    if i.closed then scaled i.low ≤ multiple * unit && multiple * unit ≤ scaled i.high
    else scaled i.low < multiple * unit && multiple * unit < scaled i.high
  let floor := scaled i.value / unit
  let below := scaled i.value - floor * unit
  let above := (floor + 1) * unit - scaled i.value
  if inside floor && inside (floor + 1) then
    some (if below < above || (below == above && floor % 2 == 0) then floor else floor + 1)
  else if inside floor then some floor
  else if inside (floor + 1) then some (floor + 1)
  else none

/-- The first of `count` grids, from `10 ^ power` to finer ones, that has a multiple to write. -/
def Interval.firstGrid (i : Interval) : Nat → Int → Nat × Int
  | 0, power => (i.value * Nat.pow 2 i.exponent.toNat * Nat.pow 10 (-power).toNat /
      (Nat.pow 10 power.toNat * Nat.pow 2 (-i.exponent).toNat), power)
  | count + 1, power =>
    match i.onGrid? power with
    | some multiple => (multiple, power)
    | none => i.firstGrid count (power - 1)

/-- Digits and power of ten of the shortest decimal that reads back as this nonzero magnitude.
The search starts above the value, and seventeen digits always suffice. -/
def shortest (x : Binary64) : Nat × Int :=
  let bits : Int := x.mantissa.log2 + 1 + x.exponent
  x.interval.firstGrid 20 (bits * 30103 / 100000 + 1)

/-- Where positional notation ends: the least and the greatest scientific exponent that is
written without an exponent. -/
structure Layout where
  leastPositional : Int
  greatestPositional : Int

/-- Writes `digits * 10 ^ power`, with at least one digit on each side of a point and an explicit
sign in an exponent. -/
def Layout.write (layout : Layout) (digits : Nat) (power : Int) : String :=
  let text := (Nat.repr digits).toList
  let exponent : Int := power + text.length - 1
  let zeros (count : Int) := List.replicate count.toNat '0'
  if exponent < layout.leastPositional ∨ layout.greatestPositional < exponent then
    let fraction := text.drop 1
    let mantissa := text.take 1 ++ (if fraction.isEmpty then [] else '.' :: fraction)
    let sign := if exponent < 0 then "-" else "+"
    String.ofList mantissa ++ "e" ++ sign ++ Nat.repr exponent.natAbs
  else if 0 ≤ power then String.ofList (text ++ zeros power ++ ['.', '0'])
  else if 0 ≤ exponent then
    let whole := exponent.toNat + 1
    String.ofList (text.take whole ++ '.' :: text.drop whole)
  else String.ofList ('0' :: '.' :: zeros (-exponent - 1) ++ text)

def write (layout : Layout) (x : Binary64) : String :=
  let magnitude :=
    if x.isZero then "0.0" else layout.write x.shortest.1 x.shortest.2
  if x.negative then "-" ++ magnitude else magnitude

end GraphQL.Binary64
