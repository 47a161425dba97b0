import ForwardChaining.Number.Basic

/-! # Atoms

The indivisible constants: numbers and symbols. Equality of atoms is structural; `Atom.order?`
compares by value, numbers with numbers and symbols with symbols. -/

namespace ForwardChaining

/-- An indivisible constant. -/
inductive Atom where
  /-- A number. -/
  | number (value : Number)
  /-- A name. -/
  | symbol (name : String)
  deriving DecidableEq, Hashable, Repr

/-- The comparisons of two atoms by value. -/
inductive Comparison where
  /-- Neither is the greater. -/
  | equal
  /-- The left one is the greater. -/
  | greater
  /-- The right one is not the greater. -/
  | greaterOrEqual
  /-- The right one is the greater. -/
  | less
  /-- The left one is not the greater. -/
  | lessOrEqual
  deriving DecidableEq, Repr

/-- Whether a comparison holds of operands in the given order. -/
def Comparison.holds : Comparison → Ordering → Bool
  | .equal, order => order = .eq
  | .greater, order => order = .gt
  | .greaterOrEqual, order => order ≠ .lt
  | .less, order => order = .lt
  | .lessOrEqual, order => order ≠ .gt

namespace Atom

/-- Whether the atom is a number. -/
def isNumber : Atom → Bool
  | .number _ => true
  | .symbol _ => false

/-- The order of two atoms by value, symbols character by character. There is none between a number
and a symbol, nor with a NaN. -/
def order? : Atom → Atom → Option Ordering
  | .number left, .number right => left.order? right
  | .symbol left, .symbol right => some (compare left right)
  | _, _ => none

/-- Whether a comparison holds between two atoms, if they can be compared. -/
def compare? (comparison : Comparison) (left right : Atom) : Option Bool :=
  (left.order? right).map comparison.holds

/-- The text of an atom. -/
def text : Atom → String
  | .number value => value.text
  | .symbol name => name

/-- The name of a symbol. -/
def symbol? : Atom → Option String
  | .number _ => none
  | .symbol name => some name

end Atom

end ForwardChaining
