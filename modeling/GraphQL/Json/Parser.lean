import GraphQL.Binary64.Decimal
import GraphQL.Entries
import GraphQL.Json.Basic

/-! Reading JSON text. The order of members is kept; a repeated key keeps its first place and its
last value. -/

namespace GraphQL

/-- An integer token in the signed or unsigned 64-bit range is an integer; every other number
token is rounded to a float, and so is `-0`. -/
def Number.read? (token : List Char) : Option Number :=
  if token.any (fun c => c == '.' || c == 'e' || c == 'E') || token == ['-', '0'] then
    (Binary64.read? token).map .float
  else
    (Decimal.readInt? token).bind fun n =>
      if Int64.minValue.toInt ≤ n ∧ n < UInt64.size then some (.integer n)
      else (Binary64.read? token).map .float

namespace Json

def skipBlank (text : List Char) : List Char :=
  text.dropWhile fun c => c == ' ' || c == '\n' || c == '\r' || c == '\t'

def hexValue? (c : Char) : Option Nat :=
  if '0' ≤ c ∧ c ≤ '9' then some (c.toNat - 48)
  else if 'a' ≤ c ∧ c ≤ 'f' then some (c.toNat - 87)
  else if 'A' ≤ c ∧ c ≤ 'F' then some (c.toNat - 55)
  else none

def hexUnit? (a b c d : Char) : Option Nat := do
  let a ← hexValue? a
  let b ← hexValue? b
  let c ← hexValue? c
  let d ← hexValue? d
  some (((a * 16 + b) * 16 + c) * 16 + d)

/-- The character of a pair of surrogates. -/
def surrogatePair? (high low : Nat) : Option Char :=
  if 0xD800 ≤ high ∧ high < 0xDC00 ∧ 0xDC00 ≤ low ∧ low < 0xE000 then
    some (Char.ofNat (0x10000 + (high - 0xD800) * 0x400 + (low - 0xDC00)))
  else none

/-- The character of one unit that is no surrogate. -/
def plainUnit? (unit : Nat) : Option Char :=
  if 0xD800 ≤ unit ∧ unit < 0xE000 then none else some (Char.ofNat unit)

def simpleEscape? (c : Char) : Option Char :=
  match c with
  | '"' => some '"'
  | '\\' => some '\\'
  | '/' => some '/'
  | 'b' => some '\x08'
  | 'f' => some '\x0c'
  | 'n' => some '\n'
  | 'r' => some '\r'
  | 't' => some '\t'
  | _ => none

/-- Reads the rest of a string after its opening quote; `read` holds the characters so far, the
last one first. -/
def readString? (read : List Char) : List Char → Option (String × List Char)
  | '"' :: rest => some (String.ofList read.reverse, rest)
  | '\\' :: 'u' :: a :: b :: c :: d :: '\\' :: 'u' :: e :: f :: g :: h :: rest => do
    let first ← hexUnit? a b c d
    match plainUnit? first with
    | some character => readString? (character :: read) ('\\' :: 'u' :: e :: f :: g :: h :: rest)
    | none =>
      let second ← hexUnit? e f g h
      let character ← surrogatePair? first second
      readString? (character :: read) rest
  | '\\' :: 'u' :: a :: b :: c :: d :: rest => do
    let character ← (hexUnit? a b c d).bind plainUnit?
    readString? (character :: read) rest
  | '\\' :: c :: rest => do
    let character ← simpleEscape? c
    readString? (character :: read) rest
  | c :: rest => if c.toNat < 0x20 then none else readString? (c :: read) rest
  | [] => none

/-- The text after an optional fraction, or `none` if a point has no digit after it. -/
def afterFraction? : List Char → Option (List Char)
  | '.' :: rest =>
    if (rest.takeWhile Char.isDigit).isEmpty then none else some (rest.dropWhile Char.isDigit)
  | rest => some rest

/-- Whether the text is nothing, or an exponent with at least one digit. -/
def isExponent : List Char → Bool
  | [] => true
  | c :: rest =>
    let digits := (Decimal.splitSign rest).2
    (c == 'e' || c == 'E') && !digits.isEmpty && digits.all Char.isDigit

/-- Whether the text is digits without a leading zero, then an optional fraction and exponent. -/
def isUnsignedNumber (text : List Char) : Bool :=
  let whole := text.takeWhile Char.isDigit
  !whole.isEmpty && (whole.head? != some '0' || whole.length == 1) &&
    (afterFraction? (text.dropWhile Char.isDigit)).any isExponent

def isNumberChar (c : Char) : Bool :=
  c.isDigit || c == '-' || c == '+' || c == '.' || c == 'e' || c == 'E'

def readNumber? (text : List Char) : Option (Json × List Char) :=
  let (token, rest) := text.span isNumberChar
  let unsigned := match token with
    | '-' :: digits => digits
    | digits => digits
  if isUnsignedNumber unsigned then (Number.read? token).map fun n => (.number n, rest) else none

mutual

/-- Reads a value at the start of the text. The bound counts values and separators and is never
reached if it is the length of the text. -/
def readValue? : Nat → List Char → Option (Json × List Char)
  | 0, _ => none
  | bound + 1, text =>
    match skipBlank text with
    | 'n' :: 'u' :: 'l' :: 'l' :: rest => some (.null, rest)
    | 't' :: 'r' :: 'u' :: 'e' :: rest => some (.bool true, rest)
    | 'f' :: 'a' :: 'l' :: 's' :: 'e' :: rest => some (.bool false, rest)
    | '"' :: rest => (readString? [] rest).map fun (s, rest) => (.string s, rest)
    | '[' :: rest =>
      match skipBlank rest with
      | ']' :: rest => some (.array [], rest)
      | rest => (readItems? bound rest).map fun (items, rest) => (.array items, rest)
    | '\x7b' :: rest =>
      match skipBlank rest with
      | '\x7d' :: rest => some (.object [], rest)
      | rest =>
        (readMembers? bound rest).map fun (members, rest) =>
          (.object (Entries.ofList members), rest)
    | rest => readNumber? rest

def readItems? : Nat → List Char → Option (List Json × List Char)
  | 0, _ => none
  | bound + 1, text => do
    let (item, rest) ← readValue? bound text
    match skipBlank rest with
    | ']' :: rest => some ([item], rest)
    | ',' :: rest =>
      let (items, rest) ← readItems? bound rest
      some (item :: items, rest)
    | _ => none

def readMembers? : Nat → List Char → Option (List (String × Json) × List Char)
  | 0, _ => none
  | bound + 1, text =>
    match skipBlank text with
    | '"' :: rest => do
      let (key, rest) ← readString? [] rest
      match skipBlank rest with
      | ':' :: rest =>
        let (value, rest) ← readValue? bound rest
        match skipBlank rest with
        | '\x7d' :: rest => some ([(key, value)], rest)
        | ',' :: rest =>
          let (members, rest) ← readMembers? bound rest
          some ((key, value) :: members, rest)
        | _ => none
      | _ => none
    | _ => none

end

/-- Reads a text that is one JSON value. -/
def read? (text : String) : Option Json := do
  let (value, rest) ← readValue? (text.length + 1) text.toList
  if (skipBlank rest).isEmpty then some value else none

end Json

end GraphQL
