import ForwardChaining.Engine.Fault
import ForwardChaining.Engine.Rule

/-! # Production systems

A production system stores facts and rules, and keeps the matches that they complete on an agenda.
Evaluating forms, firing rules and running programs need no more of it than the operations named
here, and are defined once for all systems. -/

namespace ForwardChaining

/-- What evaluation asks of a system of facts and rules. -/
class ProductionSystem (σ : Type) where
  /-- Stores a ground fact and queues the matches that it completes. -/
  assertFact : σ → Term → Except Fault FactId × σ
  /-- Adds a rule whose matches extend an environment, and queues its matches. -/
  addRule : σ → Trigger → List Term → Bindings → σ × RuleId
  /-- Takes the newest activation off the agenda and counts it as fired. -/
  takeNewest? : σ → Option (Activation × σ)
  /-- The first character of variables in programs. -/
  marker : σ → Char

end ForwardChaining
