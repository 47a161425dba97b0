import ForwardChaining.Engine.Evaluation

/-! # Draining the agenda

The newest activation fires first, and what its body adds to the agenda comes before everything that
was waiting. A fault ends the drain; the activations that had not fired go on waiting.

Rules can feed themselves for ever. A drain therefore takes a limit on the number of firings, and
tells whether it came to an end. -/

namespace ForwardChaining

/-- How a drain came to its end. -/
inductive Ending where
  /-- No activation was left. -/
  | drained
  /-- A body failed. -/
  | failed (fault : Fault)
  /-- The limit was reached with activations left. -/
  | limited
  deriving DecidableEq

/-- What a drain did. -/
structure Drain where
  /-- The rules that fired, in order, once for every activation. -/
  fired : List RuleId
  /-- How it ended. -/
  ending : Ending
  deriving DecidableEq

/-- The report on a drain: how many activations fired, and of which rules. -/
def Drain.text (drain : Drain) : String :=
  "fired " ++ drain.fired.length.repr ++ " rules: [" ++
    ", ".intercalate (drain.fired.map RuleId.text) ++ "]"

namespace ProductionSystem

variable {σ : Type} [ProductionSystem σ]

/-- Evaluates the forms of a body under the bindings of a match, which first replace the variables
of each form. -/
def evaluateBody (system : σ) (bindings : Bindings) : List Term → Except Fault Unit × σ
  | [] => (.ok (), system)
  | form :: forms =>
    match evaluate system bindings (bindings.substitute form) with
    | (.error fault, system) => (.error fault, system)
    | (.ok _, system) => evaluateBody system bindings forms

/-- Fires activations until none is left, a body fails, or `limit` of them have fired. -/
def drain (system : σ) : (limit : Nat) → Drain × σ
  | 0 => (⟨[], if (takeNewest? system).isNone then .drained else .limited⟩, system)
  | limit + 1 =>
    match takeNewest? system with
    | none => (⟨[], .drained⟩, system)
    | some (activation, system) =>
      match evaluateBody system activation.bindings activation.body with
      | (.error fault, system) => (⟨[activation.rule], .failed fault⟩, system)
      | (.ok _, system) =>
        let (drain, system) := drain system limit
        ({ drain with fired := activation.rule :: drain.fired }, system)

end ProductionSystem

end ForwardChaining
