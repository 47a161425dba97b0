import ForwardChaining.Term.Basic

/-! # Values

What evaluating a form gives: nothing, a truth value or a term. -/

namespace ForwardChaining

/-- The result of evaluating a form. -/
inductive Value where
  /-- No value. -/
  | nil
  /-- A truth value. -/
  | bool (value : Bool)
  /-- A term. -/
  | term (content : Term)
  deriving DecidableEq

namespace Value

/-- The value that a number is. -/
def ofNumber (number : Number) : Value := .term (.atom (.number number))

/-- Whether a test with this value holds. No value, falsehood, zeros and the empty list do not; a
NaN does. -/
def isTrue : Value → Bool
  | .nil => false
  | .bool value => value
  | .term (.atom (.number number)) => !number.isZero
  | .term (.list items) => !items.isEmpty
  | .term _ => true

/-- The term, if the value is one. -/
def term? : Value → Option Term
  | .term content => some content
  | _ => none

/-- The atom, if the value is one. -/
def atom? : Value → Option Atom
  | .term (.atom constant) => some constant
  | _ => none

/-- The number, if the value is one. -/
def number? : Value → Option Number
  | .term (.atom (.number number)) => some number
  | _ => none

/-- The text of a value. -/
def text : Value → String
  | .nil => "nil"
  | .bool true => "true"
  | .bool false => "false"
  | .term content => content.text

/-- The value that a number is holds that number. -/
@[simp] theorem number?_ofNumber (number : Number) : (ofNumber number).number? = some number := rfl

/-- A value holds a number exactly when it is the value of that number. -/
theorem number?_eq_some_iff {value : Value} {number : Number} :
    value.number? = some number ↔ value = ofNumber number := by
  cases value with
  | nil => simp [number?, ofNumber]
  | bool value => simp [number?, ofNumber]
  | term content =>
    cases content with
    | atom constant => cases constant <;> simp [number?, ofNumber]
    | var name => simp [number?, ofNumber]
    | list items => simp [number?, ofNumber]

end Value

end ForwardChaining
