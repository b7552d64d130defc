import GraphQL.Binary64.Decimal
import Mathlib.Data.List.TakeDrop
import Mathlib.Data.List.TakeWhile

/-! # Reading the text of an integer

The decimal text of an integer reads back as that integer, and as a float it reads as the float that
is nearest to the integer. -/

namespace GraphQL

namespace Decimal

theorem toList_toString (n : Int) :
    (toString n).toList =
      if n < 0 then '-' :: Nat.toDigits 10 n.natAbs else Nat.toDigits 10 n.natAbs := by
  cases n with
  | ofNat m => simp [toString, Int.repr, Nat.repr_eq_ofList_toDigits]
  | negSucc m => simp [toString, Int.repr, Nat.repr_eq_ofList_toDigits]

theorem isDigit_of_mem_toDigits {n : Nat} : ∀ c ∈ Nat.toDigits 10 n, c.isDigit = true :=
  fun _ => Nat.isDigit_of_mem_toDigits (by decide) (by decide)

theorem digitsValue_toDigits (n : Nat) : digitsValue (Nat.toDigits 10 n) = n := by
  rw [digitsValue, ← Nat.ofDigitChars_eq_foldl]
  exact Nat.ofDigitChars_toDigits (by decide) (by decide)

theorem splitSign_of_digits {text : List Char} (h : ∀ c ∈ text, c.isDigit = true) :
    splitSign text = (false, text) := by
  unfold splitSign
  split
  · cases h '-' List.mem_cons_self
  · cases h '+' List.mem_cons_self
  · rfl

theorem splitSign_toString (n : Int) :
    splitSign (toString n).toList = (decide (n < 0), Nat.toDigits 10 n.natAbs) := by
  rw [toList_toString]
  by_cases h : n < 0
  · simp [h, splitSign]
  · simp [h, splitSign_of_digits isDigit_of_mem_toDigits]

theorem readInt?_toString (n : Int) : readInt? (toString n).toList = some n := by
  have hdigits : (Nat.toDigits 10 n.natAbs).all Char.isDigit = true :=
    List.all_eq_true.mpr isDigit_of_mem_toDigits
  have hnonempty : (Nat.toDigits 10 n.natAbs).isEmpty = false := by
    simp [Nat.toDigits_ne_nil]
  have hvalue : (if n < 0 then -(n.natAbs : Int) else (n.natAbs : Int)) = n := by
    split <;> omega
  simp only [readInt?, splitSign_toString, hdigits, hnonempty, digitsValue_toDigits,
    decide_eq_true_eq, hvalue]
  rfl

theorem span_isDigit {text : List Char} (h : ∀ c ∈ text, c.isDigit = true) :
    text.span Char.isDigit = (text, []) := by
  rw [List.span_eq_takeWhile_dropWhile, List.takeWhile_eq_self_iff.mpr h,
    List.dropWhile_eq_nil_iff.mpr h]

theorem read?_toString (n : Int) :
    read? (toString n).toList = some ⟨decide (n < 0), n.natAbs, 0⟩ := by
  simp only [read?, splitSign_toString, span_isDigit isDigit_of_mem_toDigits, readExponent?,
    List.append_nil, digitsValue_toDigits]
  simp [Nat.toDigits_ne_nil]

/-- The exponent of ten is too small to decide anything before the magnitude is rounded. -/
theorem toBinary64?_natural (negative : Bool) (n : Nat) :
    toBinary64? ⟨negative, n, 0⟩ = Binary64.ofRatio? negative n 1 := by
  by_cases hzero : n = 0
  · simp [toBinary64?, Binary64.ofRatio?, hzero]
  · have hlarge : ¬((0 : Int) + (n.log2 / 3 : Nat) < -400) := by omega
    simp only [toBinary64?, hzero, hlarge, or_self, ite_false]
    simp

end Decimal

theorem Binary64.read?_toString (n : Int) :
    Binary64.read? (toString n).toList = Binary64.ofInt? n := by
  rw [Binary64.read?, Decimal.read?_toString, Option.bind_some, Decimal.toBinary64?_natural,
    Binary64.ofInt?]

end GraphQL
