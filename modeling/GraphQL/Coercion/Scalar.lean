import GraphQL.Binary64.Decimal
import GraphQL.Json.Printer
import GraphQL.Text.Blank

/-! The built-in scalars: what a client may send for each of them and how a service's own value
is turned into one. A scalar of any other name takes every value as it is. -/

namespace GraphQL

inductive BuiltInScalar where
  | int
  | float
  | string
  | boolean
  | id
deriving DecidableEq

namespace BuiltInScalar

def ofName? : String → Option BuiltInScalar
  | "Int" => some int
  | "Float" => some float
  | "String" => some string
  | "Boolean" => some boolean
  | "ID" => some id
  | _ => none

/-- Integers of scalar type are signed and have 32 bits. -/
def FitsInt (n : Int) : Prop := Int32.minValue.toInt ≤ n ∧ n ≤ Int32.maxValue.toInt

instance (n : Int) : Decidable (FitsInt n) := by
  unfold FitsInt
  infer_instance

theorem FitsInt.int64?_eq {n : Int} (h : FitsInt n) : (Number.integer n).int64? = some n := by
  have hlow : Int64.minValue.toInt ≤ Int32.minValue.toInt := by decide
  have hhigh : Int32.maxValue.toInt ≤ Int64.maxValue.toInt := by decide
  exact if_pos ⟨Int.le_trans hlow h.1, Int.le_trans h.2 hhigh⟩

/-- The integer of scalar type with this value, if there is one. -/
def intResult? (n : Int) : Option Json := if FitsInt n then some (.integer n) else none

/-- A float that is an integer, unless its magnitude is beyond what 64 bits hold. -/
def integralFloat? (x : Binary64) : Option Int :=
  if x.isIntegral ∧ x.integralPart ≤ Nat.pow 2 63 then some x.toInt64 else none

/-- Whole numbers may come as a Boolean, in either representation of numbers, or as text. -/
def wholeNumber? : Json → Option Int
  | .bool b => some (if b then 1 else 0)
  | .number n =>
    match n.int64? with
    | some whole => some whole
    | none => n.toBinary64?.bind integralFloat?
  | .string s =>
    let text := Text.trim s.toList
    match (Decimal.readInt? text).bind fun n => (Number.integer n).int64? with
    | some whole => some whole
    | none => (Binary64.read? text).bind integralFloat?
  | _ => none

def serializeInt? (value : Json) : Option Json := (wholeNumber? value).bind intResult?

/-- The float of an integer so small that every float format has it. -/
def floatOfBool (b : Bool) : Binary64 :=
  if b then ⟨false, Nat.pow 2 52, -52, by decide⟩ else Binary64.zero false

/-- Numbers keep their representation. -/
def serializeFloat? : Json → Option Json
  | .bool b => some (.number (.float (floatOfBool b)))
  | .number n => some (.number n)
  | .string s => (Binary64.read? (Text.trim s.toList)).map fun x => .number (.float x)
  | _ => none

def serializeString? : Json → Option Json
  | .string s => some (.string s)
  | .bool b => some (.string (if b then "true" else "false"))
  | .number n => some (.string n.write)
  | _ => none

def serializeBoolean? : Json → Option Json
  | .bool b => some (.bool b)
  | .number n => some (.bool !n.isZero)
  | _ => none

def serializeId? : Json → Option Json
  | .string s => some (.string s)
  | .number (.integer n) => some (.string (Number.integer n).write)
  | _ => none

/-- The response form of a service's value, if the scalar can represent it. -/
def serialize? : BuiltInScalar → Json → Option Json
  | int => serializeInt?
  | float => serializeFloat?
  | string => serializeString?
  | boolean => serializeBoolean?
  | id => serializeId?

end BuiltInScalar

end GraphQL
