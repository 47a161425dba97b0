import ForwardChaining.Engine.Program
import ForwardChaining.Proofs.Matching.Acyclic
import Mathlib.Algebra.Ring.Int.Defs

/-! # Integer arithmetic

Forms of integer arithmetic are built from integers, variables that stand for integers, and calls of
`+`, `-`, `*` and `mod` (`IntegerForm`). They have a value among all integers, where `mod` is the
floored remainder, and a first fault: of the calls, each taken after its arguments and these from
left to right, it is that of the first one that divides by zero or whose value does not fit in 64
bits.

Evaluating such a form gives exactly this value, or this fault when there is one, and leaves the
engine as it was (`evaluate_integerForm`). -/

namespace ForwardChaining

/-! ## Integers of 64 bits -/

/-- Whether 64 bits can hold an integer. -/
def FitsInt64 (value : Int) : Prop := -2 ^ 63 ≤ value ∧ value < 2 ^ 63

instance : DecidablePred FitsInt64 := fun value =>
  inferInstanceAs (Decidable (-2 ^ 63 ≤ value ∧ value < 2 ^ 63))

/-- The value of a word fits in a word. -/
theorem fitsInt64_toInt (word : Int64) : FitsInt64 word.toInt := ⟨word.le_toInt, word.toInt_lt⟩

/-- A word is found for the integers that fit. -/
theorem int64?_eq_ite (value : Int) :
    int64? value = if FitsInt64 value then some (Int64.ofInt value) else none := by
  have least : Int64.minValue.toInt = -2 ^ 63 := rfl
  have greatest : Int64.maxValue.toInt = 2 ^ 63 - 1 := rfl
  rw [int64?, least, greatest]
  exact if_congr (and_congr_right' Int.le_sub_one_iff) rfl rfl

/-! ## The floored remainder -/

/-- The truncated remainder has the sign of the dividend. -/
theorem tmod_nonpos {left : Int} (negative : left ≤ 0) (right : Int) : left.tmod right ≤ 0 := by
  have opposite := Int.tmod_nonneg right (Int.neg_nonneg_of_nonpos negative)
  rw [Int.neg_tmod] at opposite
  omega

/-- The floored remainder is the truncated one, with a divisor more where the signs differ. -/
theorem fmod_eq_ite_tmod (left right : Int) :
    left.fmod right =
      if left.tmod right ≠ 0 ∧ ¬ (left.tmod right < 0 ↔ right < 0) then left.tmod right + right
      else left.tmod right := by
  rw [Int.fmod_eq_tmod]
  by_cases divides : right ∣ left
  · simp [divides, Int.tmod_eq_zero_of_dvd divides]
  have nonzero : left.tmod right ≠ 0 := fun zero => divides (Int.dvd_of_tmod_eq_zero zero)
  rw [if_neg divides]
  by_cases nonneg : 0 ≤ left
  · have sign := Int.tmod_nonneg right nonneg
    split_ifs <;> omega
  · have negative : left ≤ 0 := by omega
    have sign := tmod_nonpos negative right
    split_ifs <;> omega

/-- The floored remainder has the sign of the divisor and is smaller. -/
theorem fmod_bounds (left : Int) {right : Int} (nonzero : right ≠ 0) :
    (0 < right → 0 ≤ left.fmod right ∧ left.fmod right < right) ∧
      (right < 0 → right < left.fmod right ∧ left.fmod right ≤ 0) := by
  have small : (left.tmod right).natAbs < right.natAbs := by
    rw [Int.natAbs_tmod]
    exact Nat.mod_lt _ (Int.natAbs_pos.mpr nonzero)
  rw [fmod_eq_ite_tmod]
  split_ifs <;> omega

/-- The floored remainder fits in 64 bits when the divisor does. -/
theorem fitsInt64_fmod (left : Int) {right : Int} (nonzero : right ≠ 0) (fits : FitsInt64 right) :
    FitsInt64 (left.fmod right) := by
  have bounds := fmod_bounds left nonzero
  obtain ⟨lower, upper⟩ := fits
  constructor <;> omega

/-- A divisor can be added to a remainder of the other sign without leaving the 64 bits. -/
theorem fitsInt64_add_of_signs_differ {remainder divisor : Int64}
    (differ : ¬ (remainder.toInt < 0 ↔ divisor.toInt < 0)) :
    FitsInt64 (remainder.toInt + divisor.toInt) := by
  obtain ⟨remainderLower, remainderUpper⟩ := fitsInt64_toInt remainder
  obtain ⟨divisorLower, divisorUpper⟩ := fitsInt64_toInt divisor
  constructor <;> omega

/-- **The remainder of two integers of 64 bits is the floored one.** -/
theorem toInt_flooredMod (left right : Int64) :
    (flooredMod left right).toInt = left.toInt.fmod right.toInt := by
  rw [fmod_eq_ite_tmod, ← Int64.toInt_mod, flooredMod]
  simp only [ne_eq, decide_eq_decide, Int64.lt_iff_toInt_lt, ← Int64.toInt_inj, Int64.toInt_zero]
  split
  · next corrected =>
    obtain ⟨lower, upper⟩ := fitsInt64_add_of_signs_differ corrected.2
    rw [Int64.toInt_add]
    exact Int.bmod_eq_of_le (by omega) (by omega)
  · rfl

/-! ## Operators -/

/-- The operations that have integer results for integers. -/
inductive IntegerOperator where
  /-- The sum. -/
  | add
  /-- The difference. -/
  | sub
  /-- The product. -/
  | mul
  /-- The floored remainder. -/
  | mod
  deriving DecidableEq

namespace IntegerOperator

/-- The name that an operator is called by. -/
def name : IntegerOperator → String
  | add => "+"
  | sub => "-"
  | mul => "*"
  | mod => "mod"

/-- The exact result. -/
def result : IntegerOperator → Int → Int → Int
  | add, left, right => left + right
  | sub, left, right => left - right
  | mul, left, right => left * right
  | mod, left, right => left.fmod right

/-- The fault of a call: a zero divisor, or a result that does not fit in 64 bits. -/
def fault? (operator : IntegerOperator) (left right : Int) : Option Fault :=
  if operator = mod ∧ right = 0 then some (.divisionByZero operator.name)
  else if FitsInt64 (operator.result left right) then none
  else some (.overflow operator.name)

/-- The operation on numbers that an operator names. -/
def operation : IntegerOperator → Arithmetic
  | add => .add
  | sub => .sub
  | mul => .mul
  | mod => .mod

/-- The names are those of the primitives. -/
theorem procedure?_name (operator : IntegerOperator) :
    (Term.atom (.symbol operator.name)).procedure? =
      some (operator.name, .primitive (.arithmetic operator.operation)) := by
  cases operator <;> rfl

end IntegerOperator

/-- A fault, or an integer where there is none. -/
def integerOr (fault? : Option Fault) (value : Int) : Except Fault Value :=
  match fault? with
  | some fault => .error fault
  | none => .ok (.ofNumber (.int (.ofInt value)))

namespace IntegerOperator

/-- The result of a call without a fault fits in 64 bits. -/
theorem fits_of_fault?_eq_none (operator : IntegerOperator) {left right : Int}
    (faultless : operator.fault? left right = none) : FitsInt64 (operator.result left right) := by
  rw [fault?] at faultless
  split_ifs at faultless with divides fits
  exact fits

/-- Checking a result finds the fault of an operator without a divisor. -/
theorem map_checked (operator : IntegerOperator) (noDivisor : operator ≠ mod) (left right : Int) :
    (Arithmetic.checked operator.name (operator.result left right)).map .ofNumber =
      integerOr (operator.fault? left right) (operator.result left right) := by
  have divides : ¬ (operator = mod ∧ right = 0) := fun divides => noDivisor divides.1
  rw [Arithmetic.checked, int64?_eq_ite, fault?, if_neg divides]
  by_cases fits : FitsInt64 (operator.result left right)
  · rw [if_pos fits, if_pos fits]
    rfl
  · rw [if_neg fits, if_neg fits]
    rfl

/-- **An operator gives its exact result or its fault.** -/
theorem apply_eq (operator : IntegerOperator) (left right : Int64) :
    (Primitive.arithmetic operator.operation).apply operator.name
        [.ofNumber (.int left), .ofNumber (.int right)] =
      integerOr (operator.fault? left.toInt right.toInt)
        (operator.result left.toInt right.toInt) := by
  cases operator with
  | add => exact map_checked add nofun left.toInt right.toInt
  | sub => exact map_checked sub nofun left.toInt right.toInt
  | mul => exact map_checked mul nofun left.toInt right.toInt
  | mod =>
    by_cases zero : right = 0
    · subst zero
      rfl
    · have nonzero : right.toInt ≠ 0 := fun equal => zero (Int64.toInt_inj.mp equal)
      have fits : FitsInt64 (mod.result left.toInt right.toInt) :=
        fitsInt64_fmod left.toInt nonzero (fitsInt64_toInt right)
      have computed : Arithmetic.onIntegers mod.name .mod left right =
          .ok (.int (flooredMod left right)) := if_neg zero
      rw [fault?, if_neg (fun divides => nonzero divides.2), if_pos fits, integerOr, result,
        ← toInt_flooredMod, Int64.ofInt_toInt]
      show (Arithmetic.onIntegers mod.name .mod left right).map Value.ofNumber = _
      rw [computed]
      rfl

end IntegerOperator

/-! ## Forms -/

/-- The forms of integer arithmetic under an environment. -/
inductive IntegerForm (environment : Bindings) where
  /-- An integer. -/
  | literal (value : Int64)
  /-- A variable that stands for an integer. -/
  | named (name : String) (value : Int64)
    (resolves : environment.resolve (.var name) = .atom (.number (.int value)))
  /-- A call with two arguments of what stands for the name of an operator. -/
  | call (operator : IntegerOperator) (head : Term)
    (resolves : environment.resolve head = .atom (.symbol operator.name))
    (left right : IntegerForm environment)

namespace IntegerForm

variable {environment : Bindings}

/-- The form as it is written. -/
def term : IntegerForm environment → Term
  | literal value => .atom (.number (.int value))
  | named name _ _ => .var name
  | call _ head _ left right => .list [head, left.term, right.term]

/-- The exact value. -/
def worth : IntegerForm environment → Int
  | literal value => value.toInt
  | named _ value _ => value.toInt
  | call operator _ _ left right => operator.result left.worth right.worth

/-- The form and those inside it, every call after its arguments, and these from left to right. -/
def postorder : IntegerForm environment → List (IntegerForm environment)
  | literal value => [literal value]
  | named name value resolves => [named name value resolves]
  | call operator head resolves left right =>
    left.postorder ++ right.postorder ++ [call operator head resolves left right]

/-- The fault of a form apart from those inside it. -/
def fault? : IntegerForm environment → Option Fault
  | literal _ => none
  | named _ _ _ => none
  | call operator _ _ left right => operator.fault? left.worth right.worth

/-- The fault of the first form that has one. -/
def firstFault? (form : IntegerForm environment) : Option Fault := form.postorder.findSome? fault?

/-- A call is faulty after its arguments. -/
theorem firstFault?_call (operator : IntegerOperator) {head : Term}
    (resolves : environment.resolve head = .atom (.symbol operator.name))
    (left right : IntegerForm environment) :
    (call operator head resolves left right).firstFault? =
      left.firstFault?.or (right.firstFault?.or (operator.fault? left.worth right.worth)) := by
  simp [firstFault?, postorder, List.findSome?_append, fault?]

/-- The value of a form without faults fits in 64 bits. -/
theorem toInt_ofInt_worth {form : IntegerForm environment} (faultless : form.firstFault? = none) :
    (Int64.ofInt form.worth).toInt = form.worth := by
  cases form with
  | literal value => rw [worth, Int64.ofInt_toInt]
  | named _ value _ => rw [worth, Int64.ofInt_toInt]
  | call operator head resolves left right =>
    rw [firstFault?_call, Option.or_eq_none_iff, Option.or_eq_none_iff] at faultless
    obtain ⟨lower, upper⟩ := operator.fits_of_fault?_eq_none faultless.2.2
    exact Int64.toInt_ofInt_of_le lower upper

section

variable {σ : Type} [ProductionSystem σ]

/-- A call of an operator applies it to the values of its arguments, when these have values. -/
theorem evaluate_call (system : σ) (operator : IntegerOperator) {head left right : Term}
    (resolves : environment.resolve head = .atom (.symbol operator.name))
    {first second : Except Fault Value}
    (leftEvaluates : ProductionSystem.evaluate system environment left = (first, system))
    (rightEvaluates : ProductionSystem.evaluate system environment right = (second, system)) :
    ProductionSystem.evaluate system environment (.list [head, left, right]) =
      (do (Primitive.arithmetic operator.operation).apply operator.name [← first, ← second],
        system) := by
  rw [ProductionSystem.evaluate, resolves, operator.procedure?_name]
  simp only [ProductionSystem.evaluateAll, leftEvaluates]
  cases first with
  | error fault => rfl
  | ok left =>
    simp only [rightEvaluates]
    cases second with
    | error fault => rfl
    | ok right => rfl

/-- **A form of integer arithmetic evaluates to its value or its first fault**, and changes
nothing. -/
theorem evaluate_term (acyclic : environment.Acyclic) (system : σ)
    (form : IntegerForm environment) :
    ProductionSystem.evaluate system environment form.term =
      (integerOr form.firstFault? form.worth, system) := by
  induction form with
  | literal value =>
    have faultless : (literal value : IntegerForm environment).firstFault? = none := rfl
    rw [term, worth, faultless, integerOr, Int64.ofInt_toInt, ProductionSystem.evaluate]
    rfl
  | named name value resolves =>
    have faultless : (named name value resolves).firstFault? = none := rfl
    rw [term, worth, faultless, integerOr, Int64.ofInt_toInt, ProductionSystem.evaluate,
      ← acyclic.substitute_resolve, resolves, Bindings.substitute_atom]
    rfl
  | call operator head resolves left right leftEvaluates rightEvaluates =>
    rw [term, evaluate_call system operator resolves leftEvaluates rightEvaluates,
      firstFault?_call, worth]
    congr 1
    cases leftFault : left.firstFault? with
    | some fault => rfl
    | none =>
      cases rightFault : right.firstFault? with
      | some fault => rfl
      | none =>
        -- Both arguments fit, so the operator works on their exact values.
        have applied := operator.apply_eq (.ofInt left.worth) (.ofInt right.worth)
        rw [toInt_ofInt_worth leftFault, toInt_ofInt_worth rightFault] at applied
        exact applied

end

/-- A form whose inner forms have no faults has none. -/
theorem firstFault?_eq_none {form : IntegerForm environment}
    (faultless : ∀ inside ∈ form.postorder, inside.fault? = none) : form.firstFault? = none :=
  List.findSome?_eq_none_iff.mpr faultless

/-- The first fault is that of the first faulty form. -/
theorem firstFault?_eq_some {form inside : IntegerForm environment}
    {before after : List (IntegerForm environment)} {fault : Fault}
    (order : form.postorder = before ++ inside :: after)
    (faultless : ∀ earlier ∈ before, earlier.fault? = none) (faulty : inside.fault? = some fault) :
    form.firstFault? = some fault :=
  List.findSome?_eq_some_iff.mpr ⟨before, inside, after, order, faulty, faultless⟩

end IntegerForm

/-- **Integer arithmetic is exact or stops at its first fault.** In every engine and every acyclic
environment, a form of integer arithmetic without faults evaluates to its exact value; any other one
fails with the fault of the first call, in the order of evaluation, that has one. The engine stays
as it was. The remainder is the floored one, with the sign of the divisor and smaller; adding the
divisor to the truncated remainder, which is done where the signs differ, never leaves the 64
bits. -/
theorem evaluate_integerForm {environment : Bindings} (acyclic : environment.Acyclic)
    (engine : Engine) :
    (∀ form : IntegerForm environment,
      ((∀ inside ∈ form.postorder, inside.fault? = none) →
        ∃ value : Int64, value.toInt = form.worth ∧
          ProductionSystem.evaluate engine environment form.term =
            (.ok (.ofNumber (.int value)), engine)) ∧
      (∀ before inside after fault, form.postorder = before ++ inside :: after →
        (∀ earlier ∈ before, earlier.fault? = none) → inside.fault? = some fault →
          ProductionSystem.evaluate engine environment form.term = (.error fault, engine))) ∧
    ∀ left right : Int64,
      (right ≠ 0 →
        (flooredMod left right).toInt = left.toInt.fmod right.toInt ∧
          (0 < right.toInt → 0 ≤ left.toInt.fmod right.toInt ∧
            left.toInt.fmod right.toInt < right.toInt) ∧
          (right.toInt < 0 → right.toInt < left.toInt.fmod right.toInt ∧
            left.toInt.fmod right.toInt ≤ 0)) ∧
      (¬ ((left % right).toInt < 0 ↔ right.toInt < 0) →
        FitsInt64 ((left % right).toInt + right.toInt)) := by
  refine ⟨fun form => ⟨?exact, ?fails⟩, fun left right => ⟨?floored, ?corrected⟩⟩
  case exact =>
    intro faultless
    have noFault := IntegerForm.firstFault?_eq_none faultless
    refine ⟨.ofInt form.worth, IntegerForm.toInt_ofInt_worth noFault, ?_⟩
    rw [form.evaluate_term acyclic, noFault, integerOr]
  case fails =>
    intro before inside after fault order faultless faulty
    rw [form.evaluate_term acyclic, IntegerForm.firstFault?_eq_some order faultless faulty,
      integerOr]
  case floored =>
    intro nonzero
    have divisor : right.toInt ≠ 0 := fun zero => nonzero (Int64.toInt_inj.mp zero)
    exact ⟨toInt_flooredMod left right, fmod_bounds left.toInt divisor⟩
  case corrected =>
    intro differ
    exact fitsInt64_add_of_signs_differ differ

namespace IntegerForm

/-- Two names of minus one, of which one leads to the other. -/
def minusOne : Bindings :=
  .ofList [("?one", .atom (.number (.int (-1)))), ("?divisor", .var "?one")]

/-- `(op (+ ?one -9223372036854775807) ?divisor)`, which is the least integer and minus one. -/
def leastByMinusOne (operator : IntegerOperator) : IntegerForm minusOne :=
  .call operator (.atom (.symbol operator.name)) (Bindings.resolve_atom ..)
    (.call .add (.atom (.symbol "+")) (Bindings.resolve_atom ..)
      (.named "?one" (-1) (by decide +kernel)) (.literal (-9223372036854775807)))
    (.named "?divisor" (-1) (by decide +kernel))

/-- `(mod 1 0)`. -/
def oneByZero : IntegerForm minusOne :=
  .call .mod (.atom (.symbol "mod")) (Bindings.resolve_atom ..) (.literal 1) (.literal 0)

end IntegerForm

/-- The remainder of the least integer by minus one is zero; their product does not fit, and fails
before a division by zero on its right does. -/
theorem evaluate_integerForm_least :
    let engine : Engine := .new {}
    let environment := IntegerForm.minusOne
    let remainder := (IntegerForm.leastByMinusOne .mod).term
    let product := (IntegerForm.leastByMinusOne .mul).term
    ProductionSystem.evaluate engine environment remainder =
        (.ok (.ofNumber (.int 0)), engine) ∧
      ProductionSystem.evaluate engine environment
        (.list [.atom (.symbol "+"), product, IntegerForm.oneByZero.term]) =
        (.error (.overflow "*"), engine) := by
  intro engine environment remainder product
  have acyclic : environment.Acyclic := Bindings.acyclic_of_rank String.length (by decide +kernel)
  obtain ⟨evaluates, -⟩ := evaluate_integerForm acyclic engine
  constructor
  · obtain ⟨value, exact, evaluated⟩ :=
      (evaluates (IntegerForm.leastByMinusOne .mod)).1 (by decide +kernel)
    obtain rfl : value = 0 := Int64.toInt_inj.mp exact
    exact evaluated
  · have before : ∀ earlier ∈ (IntegerForm.leastByMinusOne .mul).postorder.dropLast,
        earlier.fault? = none := by decide +kernel
    exact (evaluates (.call .add (.atom (.symbol "+")) (Bindings.resolve_atom ..)
      (.leastByMinusOne .mul) .oneByZero)).2 _ (.leastByMinusOne .mul) _ _ rfl before rfl

end ForwardChaining
