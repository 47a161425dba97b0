import ForwardChaining.Engine.Fault

/-! # Applying primitives

Two integers are added, subtracted and multiplied exactly or not at all, and their remainder is
exact. Their quotient is a double, and so is every result as soon as one operand is a double.
Comparing works on two numbers and on two symbols; equality also on any other two values, where it
is structural. -/

namespace ForwardChaining

/-- The remainder with the sign of the divisor: the one that truncated division leaves, and one
divisor more when the signs differ. -/
def flooredMod (left right : Int64) : Int64 :=
  let remainder := left % right
  if remainder ≠ 0 ∧ decide (remainder < 0) ≠ decide (right < 0) then remainder + right
  else remainder

namespace Arithmetic

/-- The integer with this value, if 64 bits can hold it. -/
def checked (name : String) (value : Int) : Except Fault Number :=
  match int64? value with
  | some word => .ok (.int word)
  | none => .error (.overflow name)

/-- The result of an operation on integers. -/
def onIntegers (name : String) (operation : Arithmetic) (left right : Int64) :
    Except Fault Number :=
  match operation with
  | .add => checked name (left.toInt + right.toInt)
  | .sub => checked name (left.toInt - right.toInt)
  | .mul => checked name (left.toInt * right.toInt)
  | .div =>
    if right = 0 then .error (.divisionByZero name)
    else .ok (.double ((Double.ofInt left.toInt).div (Double.ofInt right.toInt)))
  | .mod =>
    if right = 0 then .error (.divisionByZero name) else .ok (.int (flooredMod left right))

/-- The result of an operation on doubles. -/
def onDoubles (name : String) (operation : Arithmetic) (left right : Double) :
    Except Fault Number :=
  match operation with
  | .add => .ok (.double (left.add right))
  | .sub => .ok (.double (left.sub right))
  | .mul => .ok (.double (left.mul right))
  | .div =>
    if right.isZero then .error (.divisionByZero name) else .ok (.double (left.div right))
  | .mod =>
    if right.isZero then .error (.divisionByZero name) else .ok (.double (left.mod right))

/-- The result of an operation that was called by `name`. -/
def compute (name : String) (operation : Arithmetic) : Number → Number → Except Fault Number
  | .int left, .int right => onIntegers name operation left right
  | left, right => onDoubles name operation left.toDouble right.toDouble

end Arithmetic

/-- The result of a comparison that was called by `name`. -/
def Comparison.compareValues (name : String) (comparison : Comparison) (left right : Value) :
    Except Fault Bool :=
  let mismatch := Fault.typeMismatch name left right
  match left.number?, right.number? with
  | some first, some second =>
    match first.order? second with
    | some order => .ok (comparison.holds order)
    | none => .error mismatch
  | _, _ =>
    if comparison = .equal then .ok (left = right)
    else
      match left.atom?, right.atom? with
      | some first, some second =>
        match first.compare? comparison second with
        | some result => .ok result
        | none => .error mismatch
      | _, _ => .error mismatch

/-- Applies a primitive, called by `name`, to the values of its arguments. -/
def Primitive.apply (name : String) (primitive : Primitive) : List Value → Except Fault Value
  | [left, right] =>
    match primitive with
    | .comparison relation => (relation.compareValues name left right).map .bool
    | .arithmetic operation =>
      match left.number?, right.number? with
      | some first, some second => (operation.compute name first second).map .ofNumber
      | _, _ => .error (.typeMismatch name left right)
  | values => .error (.arity name values.length)

end ForwardChaining
