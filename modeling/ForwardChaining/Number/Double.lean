/-! # Double-precision numbers as bit patterns

A `Double` is its 64 bits, so two doubles are equal exactly when their bits are: a zero differs from
a negative zero and a NaN equals itself. The 63 bits below the sign are the *magnitude*. Magnitudes
of finite numbers are ordered like the absolute values they stand for, and every finite absolute
value is a whole number of units of `2 ^ (-1074)`, the least positive double (`Double.units`).

Rounding goes the other way: `Double.magnitudeNear` takes a ratio counted in units to the magnitude
of the nearest double, a tie to the even one. -/

namespace ForwardChaining

/-- A double-precision binary floating-point number, given by its bits. -/
structure Double where
  /-- The sign bit, eleven exponent bits and fifty-two fraction bits. -/
  bits : UInt64
  deriving DecidableEq, Hashable, Repr

namespace Double

/-! ## Sign and magnitude -/

/-- The sign bit, which is above all magnitudes. -/
def signBit : Nat := 0x8000000000000000

/-- The magnitude of both infinities; a larger magnitude belongs to a NaN. -/
def infiniteMagnitude : Nat := 0x7ff0000000000000

/-- The number of magnitudes that share their exponent bits. -/
def binade : Nat := 0x10000000000000

/-- The bits below the sign bit, as a number. -/
def magnitude (number : Double) : Nat := number.bits.toNat % signBit

/-- Whether the sign bit is set. -/
def isNegative (number : Double) : Bool := signBit ≤ number.bits.toNat

/-- The double with the given sign and magnitude. -/
def ofMagnitude (negative : Bool) (magnitude : Nat) : Double :=
  ⟨UInt64.ofNat (magnitude + if negative then signBit else 0)⟩

/-- Whether the number is no number at all. -/
def isNaN (number : Double) : Bool := infiniteMagnitude < number.magnitude

/-- Whether the number is one of the two infinities. -/
def isInfinite (number : Double) : Bool := number.magnitude = infiniteMagnitude

/-- Whether the number is neither infinite nor a NaN. -/
def isFinite (number : Double) : Bool := number.magnitude < infiniteMagnitude

/-- Whether the number is one of the two zeros. -/
def isZero (number : Double) : Bool := number.magnitude = 0

/-- The quiet NaN without a payload. -/
def nan : Double := ⟨0x7ff8000000000000⟩

/-- The infinity of the given sign. -/
def infinity (negative : Bool) : Double := ofMagnitude negative infiniteMagnitude

/-- The zero of the given sign. -/
def zero (negative : Bool) : Double := ofMagnitude negative 0

/-- The number with the other sign. -/
def negate (number : Double) : Double := ofMagnitude (!number.isNegative) number.magnitude

/-- Magnitudes stay below the sign bit. -/
theorem magnitude_lt (number : Double) : number.magnitude < signBit :=
  Nat.mod_lt _ (by decide)

/-- The bits are the magnitude with the sign bit put before it. -/
theorem toNat_bits (number : Double) :
    number.bits.toNat = number.magnitude + if number.isNegative then signBit else 0 := by
  have bound : number.bits.toNat < 2 * signBit := number.bits.toNat_lt
  unfold magnitude isNegative
  by_cases negative : signBit ≤ number.bits.toNat
  · rw [if_pos (decide_eq_true negative)]
    unfold signBit at *
    omega
  · rw [if_neg (by simpa using negative)]
    unfold signBit at *
    omega

/-- A double is determined by its sign and its magnitude. -/
@[simp] theorem ofMagnitude_isNegative_magnitude (number : Double) :
    ofMagnitude number.isNegative number.magnitude = number := by
  rw [ofMagnitude, ← toNat_bits, UInt64.ofNat_toNat]

/-- The magnitude of the double with a given one. -/
theorem magnitude_ofMagnitude {magnitude : Nat} (negative : Bool) (bound : magnitude < signBit) :
    (ofMagnitude negative magnitude).magnitude = magnitude := by
  unfold signBit at bound
  cases negative <;> simp [Double.magnitude, ofMagnitude, UInt64.toNat_ofNat', signBit] <;> omega

/-- The sign of the double with a given one. -/
theorem isNegative_ofMagnitude {magnitude : Nat} (negative : Bool) (bound : magnitude < signBit) :
    (ofMagnitude negative magnitude).isNegative = negative := by
  unfold signBit at bound
  cases negative <;> simp [isNegative, ofMagnitude, UInt64.toNat_ofNat', signBit] <;> omega

/-! ## Exact values -/

/-- The absolute value with the given magnitude, in units of `2 ^ (-1074)`. Without exponent bits
the magnitude counts the units itself; otherwise a leading one is put before the fraction bits, and
the exponent bits, less one, say how far to shift. -/
def unitsOfMagnitude (magnitude : Nat) : Nat :=
  if magnitude < binade then magnitude
  else (binade + magnitude % binade) <<< (magnitude / binade - 1)

/-- The number of units in one. -/
def unitsPerOne : Nat := 1 <<< 1074

/-- The absolute value of a finite number, in units. -/
def units (number : Double) : Nat := unitsOfMagnitude number.magnitude

/-- The value of a finite number, in units. -/
def signedUnits (number : Double) : Int :=
  if number.isNegative then -number.units else number.units

/-- Whether a finite number has no fractional part. -/
def isWhole (number : Double) : Bool := number.units % unitsPerOne = 0

/-! ## Order -/

/-- The magnitude with its sign; the two zeros have the same key. -/
def orderKey (number : Double) : Int :=
  if number.isNegative then -number.magnitude else number.magnitude

/-- The order of two numbers by value. A NaN has no place in it. -/
def order? (left right : Double) : Option Ordering :=
  if left.isNaN || right.isNaN then none else some (compare left.orderKey right.orderKey)

/-! ## Rounding -/

/-- The whole number nearest to a ratio; a half goes to the even neighbour. -/
def roundHalfEven (numerator denominator : Nat) : Nat :=
  let quotient := numerator / denominator
  let excess := 2 * (numerator % denominator)
  if excess < denominator then quotient
  else if denominator < excess then quotient + 1
  else quotient + quotient % 2

/-- The magnitude of the double nearest to `numerator / denominator` units; a half goes to the even
magnitude, and what lies beyond the greatest finite double becomes infinite. The quotient is shifted
so that fifty-three binary digits are left of it, unless it has fewer. -/
def magnitudeNear (numerator denominator : Nat) : Nat :=
  let shift := (numerator / denominator).log2 - 52
  min (shift * binade + roundHalfEven numerator (denominator <<< shift)) infiniteMagnitude

/-- The double nearest to `numerator / denominator` units, with the given sign. -/
def ofUnits (negative : Bool) (numerator denominator : Nat) : Double :=
  ofMagnitude negative (magnitudeNear numerator denominator)

/-- The double nearest to an integer. -/
def ofInt (value : Int) : Double := ofUnits (value < 0) (value.natAbs * unitsPerOne) 1

end Double

end ForwardChaining
