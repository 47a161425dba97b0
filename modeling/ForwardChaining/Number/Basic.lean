import ForwardChaining.Number.Arithmetic
import ForwardChaining.Number.Decimal

/-! # Numbers

A number is a 64-bit integer or a double. As values to be stored they are told apart, `1` from `1.0`
and `0.0` from `-0.0`; `Number.order?` compares what they are worth. Integers are compared exactly
with integers, and with a double after rounding to a double. -/

namespace ForwardChaining

/-- A 64-bit integer or a double. -/
inductive Number where
  /-- A signed integer. -/
  | int (value : Int64)
  /-- A double-precision number. -/
  | double (value : Double)
  deriving DecidableEq, Hashable, Repr

/-- The integer of 64 bits with this value, if there is one. -/
def int64? (value : Int) : Option Int64 :=
  if Int64.minValue.toInt ≤ value ∧ value ≤ Int64.maxValue.toInt then some (Int64.ofInt value)
  else none

/-- The word that holds an integer has its value. -/
theorem toInt_of_int64? {value : Int} {word : Int64} (fits : int64? value = some word) :
    word.toInt = value := by
  unfold int64? at fits
  split at fits
  · rename_i bounds
    cases fits
    exact Int64.toInt_ofInt_of_le bounds.1 (Int.lt_add_one_of_le bounds.2)
  · cases fits

/-- The value of a word fits in a word, and in that one. -/
@[simp] theorem int64?_toInt (word : Int64) : int64? word.toInt = some word := by
  have upper : word.toInt ≤ Int64.maxValue.toInt := Int.le_of_lt_add_one word.toInt_lt
  rw [int64?, if_pos ⟨word.le_toInt, upper⟩, Int64.ofInt_toInt]

namespace Number

/-- The double nearest to the number. -/
def toDouble : Number → Double
  | .int value => .ofInt value.toInt
  | .double value => value

/-- The order of two numbers by value. A NaN has no place in it. -/
def order? : Number → Number → Option Ordering
  | .int left, .int right => some (compare left.toInt right.toInt)
  | left, right => left.toDouble.order? right.toDouble

/-- Whether the number is zero, of either sign. -/
def isZero : Number → Bool
  | .int value => value = 0
  | .double value => value.isZero

/-- The text of a number. The text of a finite double has a point, that of an integer has none. -/
def text : Number → String
  | .int value => value.toInt.repr
  | .double value => value.text

end Number

end ForwardChaining
