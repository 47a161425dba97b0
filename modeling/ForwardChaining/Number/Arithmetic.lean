import ForwardChaining.Number.Double

/-! # Arithmetic on doubles

Each operation computes the exact result in units and rounds once. Whatever has no result is
`Double.nan`. -/

namespace ForwardChaining

namespace Double

/-- The sum. Opposite numbers add up to the positive zero. -/
def add (left right : Double) : Double :=
  if left.isNaN || right.isNaN then nan
  else if left.isInfinite then
    if right.isInfinite && left.isNegative != right.isNegative then nan else left
  else if right.isInfinite then right
  else
    let sum := left.signedUnits + right.signedUnits
    if sum = 0 then zero (left.isNegative && right.isNegative)
    else ofUnits (sum < 0) sum.natAbs 1

/-- The difference. -/
def sub (left right : Double) : Double := left.add right.negate

/-- The product. An infinity times a zero has none. -/
def mul (left right : Double) : Double :=
  let negative := left.isNegative != right.isNegative
  if left.isNaN || right.isNaN then nan
  else if left.isInfinite then if right.isZero then nan else infinity negative
  else if right.isInfinite then if left.isZero then nan else infinity negative
  else ofUnits negative (left.units * right.units) unitsPerOne

/-- The quotient. A zero by a zero and an infinity by an infinity have none. -/
def div (left right : Double) : Double :=
  let negative := left.isNegative != right.isNegative
  if left.isNaN || right.isNaN then nan
  else if left.isInfinite then if right.isInfinite then nan else infinity negative
  else if right.isInfinite then zero negative
  else if right.isZero then if left.isZero then nan else infinity negative
  else ofUnits negative (left.units * unitsPerOne) right.units

/-- The exact remainder of the quotient truncated toward zero, with the sign of `left`. -/
def rem (left right : Double) : Double :=
  if left.isNaN || right.isNaN || left.isInfinite || right.isZero then nan
  else if right.isInfinite then left
  else ofUnits left.isNegative (left.units % right.units) 1

/-- The remainder with the sign of the divisor: `rem`, and one divisor more when the signs
differ. A remainder that is zero keeps the sign of `left`. -/
def mod (left right : Double) : Double :=
  let remainder := left.rem right
  if remainder.isNaN || remainder.isZero || remainder.isNegative = right.isNegative then remainder
  else remainder.add right

end Double

end ForwardChaining
