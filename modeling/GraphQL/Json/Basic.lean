import GraphQL.Binary64.Basic

/-! JSON values. An object is a list of members, because the order of its keys matters; a number
is an exact integer or a 64-bit float, and the two never compare equal. -/

namespace GraphQL

inductive Number where
  | integer (value : Int)
  | float (value : Binary64)
deriving DecidableEq

inductive Json where
  | null
  | bool (value : Bool)
  | number (value : Number)
  | string (text : String)
  | array (items : List Json)
  | object (members : List (String × Json))
deriving Inhabited

/-- The members of a JSON object, in order. -/
abbrev Members := List (String × Json)

namespace Number

/-- The number as a signed integer of 64 bits, if it is written as one. -/
def int64? : Number → Option Int
  | .integer n => if Int64.minValue.toInt ≤ n ∧ n ≤ Int64.maxValue.toInt then some n else none
  | .float _ => none

/-- The float nearest to a number. -/
def toBinary64? : Number → Option Binary64
  | .integer n => Binary64.ofInt? n
  | .float x => some x

def isZero : Number → Bool
  | .integer n => n == 0
  | .float x => x.isZero

theorem eq_of_int64? {number : Number} {n : Int} (h : number.int64? = some n) :
    number = .integer n := by
  cases number with
  | integer m =>
      simp only [int64?] at h
      split at h
      · exact congrArg _ (Option.some.inj h)
      · cases h
  | float x => cases h

end Number

namespace Json

def integer (n : Int) : Json := .number (.integer n)

def isNull : Json → Bool
  | .null => true
  | _ => false

end Json

end GraphQL
