import ForwardChaining.Engine.Procedure
import ForwardChaining.Engine.Value
import ForwardChaining.Matching.Trigger

/-! # Faults

The ways in which working with an engine fails. A fault holds what caused it; `Fault.message` puts
it into words. Procedures are named as they were called. -/

namespace ForwardChaining

/-- Why an operation failed. -/
inductive Fault where
  /-- A term with variables was asserted. -/
  | nonGroundFact (fact : Term)
  /-- A trigger without clauses was asked for. -/
  | emptyTrigger
  /-- A special form got other arguments than it asks for. -/
  | malformed (name : String) (form : SpecialForm)
  /-- The head of a form names no procedure. -/
  | notCallable (head : Term)
  /-- A primitive got values that it does not work on. -/
  | typeMismatch (name : String) (left right : Value)
  /-- A primitive got another number of arguments than two. -/
  | arity (name : String) (found : Nat)
  /-- The divisor is zero. -/
  | divisionByZero (name : String)
  /-- The result is no 64-bit integer. -/
  | overflow (name : String)
  deriving DecidableEq

/-- A name in quotes. -/
def quoted (name : String) : String := "'" ++ name ++ "'"

/-- The message of a fault. -/
def Fault.message : Fault → String
  | .nonGroundFact fact => "cannot assert non-ground fact " ++ quoted fact.text
  | .emptyTrigger => "a rule trigger needs at least one clause"
  | .malformed name form => "malformed " ++ quoted name ++ " form: " ++ form.expectation
  | .notCallable head => quoted head.text ++ " is not a procedure"
  | .typeMismatch name left right =>
    quoted name ++ " cannot be applied to " ++ left.text ++ ", " ++ right.text
  | .arity name found => quoted name ++ " expects 2 arguments, got " ++ found.repr
  | .divisionByZero name => "division by zero in " ++ quoted name
  | .overflow name => "integer overflow in " ++ quoted name

/-- The trigger with the given clauses, of which there has to be one. -/
def Trigger.ofClauses (clauses : List Term) : Except Fault Trigger :=
  match Trigger.ofClauses? clauses with
  | some trigger => .ok trigger
  | none => .error .emptyTrigger

end ForwardChaining
