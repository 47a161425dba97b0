import ForwardChaining.Number.Double

/-! # Decimal notation

Reading: `Decimal.ofChars?` takes a numeral apart and `Decimal.toDouble` rounds its value to the
nearest double.

Writing: `Double.text` gives a number without a fractional part all of its digits and a `.0`. Any
other finite number gets the fewest decimal places that still round to it, and of those decimals the
nearest one; of two equally near the greater. There is never an exponent. -/

namespace ForwardChaining

/-! ## Signs and digits -/

/-- A leading sign taken off, with whether it is a minus. -/
def splitSign : List Char → Bool × List Char
  | '-' :: rest => (true, rest)
  | '+' :: rest => (false, rest)
  | rest => (false, rest)

/-- The value of a list of decimal digits. -/
def digitsValue (digits : List Char) : Nat := Nat.ofDigitChars 10 digits 0

/-- The decimal digits of a number, with zeros in front up to `width` of them. -/
def paddedDigits (width value : Nat) : List Char :=
  let digits := Nat.toDigits 10 value
  List.replicate (width - digits.length) '0' ++ digits

/-! ## Reading -/

/-- A decimal numeral: `coefficient * 10 ^ exponent` with a sign, which a zero has too. -/
structure Decimal where
  /-- Whether there is a minus sign. -/
  negative : Bool
  /-- The digits, read without the point. -/
  coefficient : Nat
  /-- The power of ten they are scaled by. -/
  exponent : Int
  deriving DecidableEq, Repr

namespace Decimal

/-- The exponent part of a numeral: nothing, or an `e` and digits that may have a sign. -/
def exponentOf? : List Char → Option Int
  | [] => some 0
  | mark :: rest =>
    let (negative, digits) := splitSign rest
    if (mark = 'e' || mark = 'E') && !digits.isEmpty && digits.all Char.isDigit then
      some (if negative then -(digitsValue digits : Int) else digitsValue digits)
    else none

/-- Reads a numeral: a sign, digits with a point anywhere among them, and an exponent, of which
only one digit before the exponent is required. -/
def ofChars? (numeral : List Char) : Option Decimal :=
  let (negative, unsigned) := splitSign numeral
  let whole := unsigned.takeWhile Char.isDigit
  let (fraction, tail) :=
    match unsigned.dropWhile Char.isDigit with
    | '.' :: rest => (rest.takeWhile Char.isDigit, rest.dropWhile Char.isDigit)
    | rest => ([], rest)
  if whole.isEmpty && fraction.isEmpty then none
  else (exponentOf? tail).map fun exponent =>
    ⟨negative, digitsValue (whole ++ fraction), exponent - fraction.length⟩

/-- The nearest double. Exponents so far out that the result is infinite or zero whatever the
coefficient are decided without computing the power of ten. -/
def toDouble (decimal : Decimal) : Double :=
  let ⟨negative, coefficient, exponent⟩ := decimal
  if coefficient = 0 then .zero negative
  else if 0 ≤ exponent then
    if 400 < exponent then .infinity negative
    else .ofUnits negative (coefficient * Nat.pow 10 exponent.toNat * Double.unitsPerOne) 1
  else
    let places := (-exponent).toNat
    if 400 + coefficient.log2 < places then .zero negative
    else .ofUnits negative (coefficient * Double.unitsPerOne) (Nat.pow 10 places)

end Decimal

/-! ## Writing -/

namespace Double

/-- Whether `numerator / denominator` lies among the reals that round to the double of the given
positive magnitude: between the midpoints to its neighbours, which count when the magnitude is
even. -/
def isNearest (magnitude numerator denominator : Nat) : Bool :=
  let middle := unitsOfMagnitude magnitude
  let lower := (unitsOfMagnitude (magnitude - 1) + middle) * denominator
  let upper := (middle + unitsOfMagnitude (magnitude + 1)) * denominator
  let value := 2 * numerator * unitsPerOne
  if magnitude % 2 = 0 then lower ≤ value && value ≤ upper else lower < value && value < upper

/-- The decimal with this many places, counted in units of the last one, that rounds to the given
magnitude and is nearest to its value, if any decimal with so many places rounds to it. -/
def decimalWith? (magnitude places : Nat) : Option Nat :=
  let scale := Nat.pow 10 places
  let scaled := unitsOfMagnitude magnitude * scale
  let below := scaled / unitsPerOne
  let above := below + 1
  match isNearest magnitude below scale, isNearest magnitude above scale with
  | true, true => some (if 2 * (scaled % unitsPerOne) < unitsPerOne then below else above)
  | true, false => some below
  | false, true => some above
  | false, false => none

/-- The number of places and the decimal for the fewest places, from `places` on, that have one.
With as many places as there are binary ones every magnitude has its exact decimal. -/
def shortestDecimal (magnitude : Nat) : Nat → Nat → Nat × Nat
  | 0, places => (places, unitsOfMagnitude magnitude * Nat.pow 10 places / unitsPerOne)
  | remaining + 1, places =>
    match decimalWith? magnitude places with
    | some decimal => (places, decimal)
    | none => shortestDecimal magnitude remaining (places + 1)

/-- The digits of a finite number without its sign. -/
def unsignedDigits (number : Double) : List Char :=
  if number.isWhole then Nat.toDigits 10 (number.units / unitsPerOne) ++ ['.', '0']
  else
    let (places, decimal) := shortestDecimal number.magnitude 1073 1
    let scale := Nat.pow 10 places
    Nat.toDigits 10 (decimal / scale) ++ '.' :: paddedDigits places (decimal % scale)

/-- The text of a number. -/
def text (number : Double) : String :=
  if number.isNaN then "NaN"
  else
    let unsigned := if number.isInfinite then "inf" else String.ofList number.unsignedDigits
    if number.isNegative then "-" ++ unsigned else unsigned

end Double

end ForwardChaining
