import ForwardChaining.Term.Atom

/-! # Procedures

The procedures that the head of a form can name: special forms, which decide themselves what becomes
of their arguments, and primitives, which work on the values of two arguments. -/

namespace ForwardChaining

/-- A procedure that gets its arguments unevaluated. -/
inductive SpecialForm where
  /-- Adds a rule: a trigger, then the forms of the body. -/
  | rule
  /-- Asserts one fact. -/
  | assert
  /-- Evaluates its second argument when the first one is true. -/
  | when
  deriving DecidableEq, Repr

/-- An operation on two numbers. -/
inductive Arithmetic where
  /-- The sum. -/
  | add
  /-- The difference. -/
  | sub
  /-- The product. -/
  | mul
  /-- The quotient, which is always a double. -/
  | div
  /-- The remainder with the sign of the divisor. -/
  | mod
  deriving DecidableEq, Repr

/-- A procedure on the values of two arguments. -/
inductive Primitive where
  /-- An operation on numbers. -/
  | arithmetic (operation : Arithmetic)
  /-- A comparison. -/
  | comparison (relation : Comparison)
  deriving DecidableEq, Repr

/-- What the head of a form can name. -/
inductive Procedure where
  /-- A special form. -/
  | special (form : SpecialForm)
  /-- A primitive. -/
  | primitive (primitive : Primitive)
  deriving DecidableEq, Repr

/-- The arguments that a special form asks for. -/
def SpecialForm.expectation : SpecialForm → String
  | .rule => "expected a trigger"
  | .assert => "expected exactly one fact"
  | .when => "expected a test and a consequent"

/-- The special form with a name. -/
def SpecialForm.ofName? : String → Option SpecialForm
  | "rule" => some .rule
  | "assert!" | "rassert!" => some .assert
  | "when" => some .when
  | _ => none

/-- The primitive with a name. -/
def Primitive.ofName? : String → Option Primitive
  | "+" => some (.arithmetic .add)
  | "-" => some (.arithmetic .sub)
  | "*" => some (.arithmetic .mul)
  | "/" => some (.arithmetic .div)
  | "mod" => some (.arithmetic .mod)
  | ">" => some (.comparison .greater)
  | "<" => some (.comparison .less)
  | ">=" => some (.comparison .greaterOrEqual)
  | "<=" => some (.comparison .lessOrEqual)
  | "=" | "eql" => some (.comparison .equal)
  | _ => none

/-- The procedure with a name. -/
def Procedure.ofName? (name : String) : Option Procedure :=
  ((SpecialForm.ofName? name).map .special).or ((Primitive.ofName? name).map .primitive)

end ForwardChaining
