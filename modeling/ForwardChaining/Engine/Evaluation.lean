import ForwardChaining.Engine.Primitive
import ForwardChaining.Engine.System

/-! # Evaluation

Evaluating a form gives a value or a fault, and changes the system on the way; what was changed
before a fault stays. A constant is its own value, a variable stands for what it is bound to, and
the empty list has no value. Any other list calls the procedure that its first item names.

The arguments of a special form are not evaluated, but for the two of `when`: a rule takes its
trigger and its body as they are written, and a fact has its variables replaced only. -/

namespace ForwardChaining

/-- The procedure that the head of a form names, with the name. -/
def Term.procedure? (head : Term) : Option (String × Procedure) :=
  head.symbol?.bind fun name => (Procedure.ofName? name).map (name, ·)

namespace ProductionSystem

variable {σ : Type} [ProductionSystem σ]

mutual

/-- Evaluates a form in an environment. -/
def evaluate (system : σ) (environment : Bindings) : Term → Except Fault Value × σ
  | .atom constant => (.ok (.term (.atom constant)), system)
  | .var name => (.ok (.term (environment.substitute (.var name))), system)
  | .list [] => (.ok .nil, system)
  | .list (head :: arguments) =>
    match (environment.resolve head).procedure? with
    | none => (.error (.notCallable (environment.resolve head)), system)
    | some (name, .special .rule) =>
      match arguments with
      | [] => (.error (.malformed name .rule), system)
      | trigger :: body => (.ok .nil, (addRule system (.ofTerm trigger) body environment).1)
    | some (name, .special .assert) =>
      match arguments with
      | [fact] =>
        let (result, system) := assertFact system (environment.substitute fact)
        (result.map fun _ => .nil, system)
      | _ => (.error (.malformed name .assert), system)
    | some (name, .special .when) =>
      match arguments with
      | [test, consequent] =>
        match evaluate system environment test with
        | (.error fault, system) => (.error fault, system)
        | (.ok value, system) =>
          if value.isTrue then evaluate system environment consequent else (.ok .nil, system)
      | _ => (.error (.malformed name .when), system)
    | some (name, .primitive primitive) =>
      match evaluateAll system environment arguments with
      | (.error fault, system) => (.error fault, system)
      | (.ok values, system) => (primitive.apply name values, system)

/-- Evaluates forms from left to right, up to the first fault. -/
def evaluateAll (system : σ) (environment : Bindings) :
    List Term → Except Fault (List Value) × σ
  | [] => (.ok [], system)
  | form :: forms =>
    match evaluate system environment form with
    | (.error fault, system) => (.error fault, system)
    | (.ok value, system) =>
      match evaluateAll system environment forms with
      | (.error fault, system) => (.error fault, system)
      | (.ok values, system) => (.ok (value :: values), system)

end

end ProductionSystem

end ForwardChaining
