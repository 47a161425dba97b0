import ForwardChaining.Engine.Basic
import ForwardChaining.Engine.Drain
import ForwardChaining.Text.Reader

/-! # Programs

A program is a text of forms. It is read as a whole before anything is evaluated, so a text that
cannot be read leaves the system as it was. Then the forms are evaluated one by one, and the agenda
is drained after each. -/

namespace ForwardChaining

/-- Why a program did not run to its end. -/
inductive ProgramError where
  /-- There is no such program. -/
  | missing
  /-- The bytes of the program are no UTF-8. -/
  | notText
  /-- The text cannot be read. -/
  | unreadable (error : ReadError)
  /-- A form or the body of a rule failed. -/
  | fault (fault : Fault)
  /-- A drain reached its limit. -/
  | limited
  deriving DecidableEq

namespace ProductionSystem

variable {σ : Type} [ProductionSystem σ]

/-- Evaluates forms and drains the agenda after each, with a limit on the firings of every drain.
Returns the number of firings. -/
def runForms (system : σ) (limit : Nat) : List Term → Except ProgramError Nat × σ
  | [] => (.ok 0, system)
  | form :: forms =>
    match evaluate system ∅ form with
    | (.error fault, system) => (.error (.fault fault), system)
    | (.ok _, system) =>
      match drain system limit with
      | (⟨_, .failed fault⟩, system) => (.error (.fault fault), system)
      | (⟨_, .limited⟩, system) => (.error .limited, system)
      | (⟨fired, .drained⟩, system) =>
        let (count, system) := runForms system limit forms
        (count.map (fired.length + ·), system)

/-- Runs the program with the given text. -/
def runProgram (system : σ) (limit : Nat) (text : String) : Except ProgramError Nat × σ :=
  match readProgram (marker system) text with
  | .error error => (.error (.unreadable error), system)
  | .ok forms => runForms system limit forms

/-- Runs the program with the given bytes, if there is one. -/
def runBytes (system : σ) (limit : Nat) : Option ByteArray → Except ProgramError Nat × σ
  | none => (.error .missing, system)
  | some bytes =>
    match String.fromUTF8? bytes with
    | none => (.error .notText, system)
    | some text => runProgram system limit text

end ProductionSystem

namespace Engine

/-- Evaluates a form in an environment. -/
abbrev evaluate : Engine → Bindings → Term → Except Fault Value × Engine :=
  ProductionSystem.evaluate

/-- Fires activations until none is left, a body fails, or a limit is reached. -/
abbrev drain : Engine → (limit : Nat) → Drain × Engine := ProductionSystem.drain

/-- Runs the program with the given text. -/
abbrev runProgram : Engine → (limit : Nat) → String → Except ProgramError Nat × Engine :=
  ProductionSystem.runProgram

/-- Runs the program with the given bytes, if there is one. -/
abbrev runBytes : Engine → (limit : Nat) → Option ByteArray → Except ProgramError Nat × Engine :=
  ProductionSystem.runBytes

end Engine

end ForwardChaining
