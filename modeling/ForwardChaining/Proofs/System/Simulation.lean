import ForwardChaining.Proofs.System.Renaming

/-! # Simulations and invariants

Evaluation reaches a system through its operations only. So a relation between the states of two
systems that the operations keep, with equal results, is kept by every history of calls, and all
responses are equal (`Simulation.performAll`). This is what holds up to renamings, where all names
stay as they are. An invariant is a relation of a system to itself.

An environment that evaluation works in comes from a call or from the bindings of an activation, and
becomes the environment of rules. `Allowed` says what is known about all of them. -/

namespace ForwardChaining

open ProductionSystem

variable {σ τ α : Type}

/-- Two outcomes with the same result that leave related systems. -/
structure Agree (Related : σ → τ → Prop) (left : α × σ) (right : α × τ) : Prop where
  /-- The results are equal. -/
  result : left.1 = right.1
  /-- The systems are related. -/
  systems : Related left.2 right.2

/-- Outcomes that agree where nothing is renamed agree. -/
theorem AgreeUpTo.agree {rename : α → α} {Related : σ → τ → Prop} {left : α × σ} {right : α × τ}
    (agree : AgreeUpTo rename Related left right) (nothing : rename = id) :
    Agree Related left right where
  result := by rw [agree.result, nothing, id]
  systems := agree.systems

variable [ProductionSystem σ] [ProductionSystem τ]

/-- A relation between systems that adding facts and rules keeps, with equal results. -/
structure EvaluationSimulation (Related : σ → τ → Prop) (Allowed : Bindings → Prop) : Prop where
  /-- Asserting a fact keeps it. -/
  assertFact : ∀ {left right}, Related left right → ∀ fact,
    Agree Related (assertFact left fact) (assertFact right fact)
  /-- Adding a rule keeps it. -/
  addRule : ∀ {left right}, Related left right → ∀ {environment}, Allowed environment →
    ∀ trigger body, Agree Related (addRule left trigger body environment).swap
      (addRule right trigger body environment).swap

/-- A relation between systems that all operations keep, with equal results. -/
structure Simulation (Related : σ → τ → Prop) (Allowed : Bindings → Prop) : Prop extends
    EvaluationSimulation Related Allowed where
  /-- Related systems read programs with the same marker. -/
  marker : ∀ {left right}, Related left right → marker left = marker right
  /-- Programs start without bindings. -/
  empty : Allowed ∅
  /-- Related systems have no activation left, or the same next one. -/
  takeNewest? : ∀ {left right}, Related left right →
    (takeNewest? left = none ∧ takeNewest? right = none) ∨
    ∃ activation nextLeft nextRight, takeNewest? left = some (activation, nextLeft) ∧
      takeNewest? right = some (activation, nextRight) ∧ Allowed activation.bindings ∧
      Related nextLeft nextRight

section

variable {Related : σ → τ → Prop} {Allowed : Bindings → Prop}

namespace EvaluationSimulation

variable (simulation : EvaluationSimulation Related Allowed)
include simulation

/-- With equal results, the results agree under the same names. -/
theorem upTo : EvaluationSimulationUpTo (.refl String) Related Allowed where
  assertFact related fact := by
    obtain ⟨result, systems⟩ := simulation.assertFact related fact
    rw [Equiv.coe_refl, Term.rename_id, renameResult_id]
    exact ⟨result.symm, systems⟩
  addRule related _ allowed trigger body := by
    obtain ⟨result, systems⟩ := simulation.addRule related allowed trigger body
    rw [Equiv.coe_refl, Term.rename_id, Trigger.rename_id, List.map_id, Bindings.rename_refl]
    exact ⟨result.symm, systems⟩

/-- **Evaluating a form keeps the relation**, with equal results. -/
theorem evaluate {environment : Bindings} (allowed : Allowed environment) (form : Term) {left : σ}
    {right : τ} (related : Related left right) :
    Agree Related (evaluate left environment form) (evaluate right environment form) := by
  have agree := simulation.upTo.evaluate allowed form related
  rw [Equiv.coe_refl, Value.rename_id, Term.rename_id, Bindings.rename_refl] at agree
  exact agree.agree renameResult_id

/-- **Evaluating the body of a rule keeps the relation**, with equal results. -/
theorem evaluateBody {bindings : Bindings} (allowed : Allowed bindings) (body : List Term)
    {left : σ} {right : τ} (related : Related left right) :
    Agree Related (evaluateBody left bindings body) (evaluateBody right bindings body) := by
  have agree := simulation.upTo.evaluateBody allowed body related
  rw [Equiv.coe_refl, Term.rename_id, List.map_id, Bindings.rename_refl] at agree
  exact agree.agree renameResult_id

end EvaluationSimulation

namespace Simulation

variable (simulation : Simulation Related Allowed)
include simulation

/-- With equal results and the same activations, nothing has other names. -/
theorem upTo : SimulationUpTo {.refl String} Related Allowed where
  evaluation := by
    rintro _ rfl
    exact simulation.toEvaluationSimulation.upTo
  refl_mem := rfl
  marker := simulation.marker
  empty := simulation.empty
  takeNewest? related := by
    obtain nothing | ⟨activation, nextLeft, nextRight, ofLeft, ofRight, allowed, systems⟩ :=
      simulation.takeNewest? related
    · exact .inl nothing
    · rw [← activation.rename_refl] at ofRight
      exact .inr ⟨_, rfl, activation, nextLeft, nextRight, ofLeft, ofRight, allowed, systems⟩

/-- A call keeps the relation, with equal responses. -/
theorem perform {call : Call} (allowed : call.Supplies Allowed) {left : σ} {right : τ}
    (related : Related left right) : Agree Related (call.perform left) (call.perform right) := by
  have alike := call.alikeUpTo_self simulation.upTo.refl_mem (ProductionSystem.marker left)
  obtain ⟨_, rfl, agree⟩ := simulation.upTo.perform related alike allowed
  exact agree.agree Response.rename_id

/-- So does a drain, with equal reports. -/
theorem drain (limit : Nat) {left : σ} {right : τ} (related : Related left right) :
    Agree Related (drain left limit) (drain right limit) := by
  obtain ⟨_, rfl, agree⟩ := simulation.upTo.drain limit related
  exact agree.agree Drain.rename_id

/-- So does running a program, with equal results. -/
theorem runProgram (limit : Nat) (text : String) {left : σ} {right : τ}
    (related : Related left right) :
    Agree Related (runProgram left limit text) (runProgram right limit text) := by
  have supplies : (Call.runProgram limit text).Supplies Allowed := trivial
  obtain ⟨response, systems⟩ := simulation.perform supplies related
  exact ⟨Response.ran.inj response, systems⟩

/-- So does running the program with some bytes. -/
theorem runBytes (limit : Nat) (bytes : Option ByteArray) {left : σ} {right : τ}
    (related : Related left right) :
    Agree Related (runBytes left limit bytes) (runBytes right limit bytes) := by
  cases bytes with
  | none => exact ⟨rfl, related⟩
  | some bytes =>
    rw [ProductionSystem.runBytes, ProductionSystem.runBytes]
    split
    · exact ⟨rfl, related⟩
    · exact simulation.runProgram limit _ related

/-- **A history of calls keeps the relation**, with equal responses. -/
theorem performAll {calls : List Call} (allowed : ∀ call ∈ calls, call.Supplies Allowed) {left : σ}
    {right : τ} (related : Related left right) :
    Agree Related (performAll left calls) (performAll right calls) := by
  induction calls generalizing left right with
  | nil => exact ⟨rfl, related⟩
  | cons call calls ih =>
    obtain ⟨allowedFirst, allowedRest⟩ := List.forall_mem_cons.mp allowed
    obtain ⟨response, systems⟩ := simulation.perform allowedFirst related
    obtain ⟨responses, systems⟩ := ih allowedRest systems
    rw [ForwardChaining.performAll, ForwardChaining.performAll]
    simp only [response, responses]
    exact ⟨rfl, systems⟩

end Simulation

end

/-! ## Invariants -/

/-- A property of systems that adding facts and rules keeps. -/
structure EvaluationInvariant (Good : σ → Prop) (Allowed : Bindings → Prop) : Prop where
  /-- Asserting a fact keeps it. -/
  assertFact : ∀ {system}, Good system → ∀ fact, Good (assertFact system fact).2
  /-- Adding a rule keeps it. -/
  addRule : ∀ {system}, Good system → ∀ {environment}, Allowed environment →
    ∀ trigger body, Good (addRule system trigger body environment).1

/-- A property of systems that all operations keep. -/
structure Invariant (Good : σ → Prop) (Allowed : Bindings → Prop) : Prop extends
    EvaluationInvariant Good Allowed where
  /-- Programs start without bindings. -/
  empty : Allowed ∅
  /-- Taking an activation keeps it, and its bindings are allowed. -/
  takeNewest? : ∀ {system activation next}, Good system →
    takeNewest? system = some (activation, next) → Allowed activation.bindings ∧ Good next

section

variable {Good : σ → Prop} {Allowed : Bindings → Prop}

namespace EvaluationInvariant

/-- An invariant relates a system to itself. -/
theorem simulation (invariant : EvaluationInvariant Good Allowed) :
    EvaluationSimulation (fun left right : σ => left = right ∧ Good left) Allowed where
  assertFact := by
    rintro left _ ⟨rfl, good⟩ fact
    exact ⟨rfl, rfl, invariant.assertFact good fact⟩
  addRule := by
    rintro left _ ⟨rfl, good⟩ environment allowed trigger body
    exact ⟨rfl, rfl, invariant.addRule good allowed trigger body⟩

/-- Evaluating a form keeps an invariant. -/
theorem evaluate (invariant : EvaluationInvariant Good Allowed) {environment : Bindings}
    (allowed : Allowed environment) (form : Term) {system : σ} (good : Good system) :
    Good (evaluate system environment form).2 :=
  (invariant.simulation.evaluate allowed form ⟨rfl, good⟩).systems.2

/-- Evaluating the body of a rule keeps an invariant. -/
theorem evaluateBody (invariant : EvaluationInvariant Good Allowed) {bindings : Bindings}
    (allowed : Allowed bindings) (body : List Term) {system : σ} (good : Good system) :
    Good (evaluateBody system bindings body).2 :=
  (invariant.simulation.evaluateBody allowed body ⟨rfl, good⟩).systems.2

end EvaluationInvariant

namespace Invariant

/-- An invariant relates a system to itself. -/
theorem simulation (invariant : Invariant Good Allowed) :
    Simulation (fun left right : σ => left = right ∧ Good left) Allowed where
  toEvaluationSimulation := invariant.toEvaluationInvariant.simulation
  marker := by
    rintro left _ ⟨rfl, -⟩
    rfl
  empty := invariant.empty
  takeNewest? := by
    rintro left _ ⟨rfl, good⟩
    rcases taken : ProductionSystem.takeNewest? left with _ | ⟨activation, next⟩
    · exact .inl ⟨rfl, rfl⟩
    · obtain ⟨allowed, nextGood⟩ := invariant.takeNewest? good taken
      exact .inr ⟨activation, next, next, rfl, rfl, allowed, rfl, nextGood⟩

/-- Running the program with some bytes keeps an invariant. -/
theorem runBytes (invariant : Invariant Good Allowed) (limit : Nat) (bytes : Option ByteArray)
    {system : σ} (good : Good system) : Good (runBytes system limit bytes).2 :=
  (invariant.simulation.runBytes limit bytes ⟨rfl, good⟩).systems.2

/-- A call keeps an invariant. -/
theorem perform (invariant : Invariant Good Allowed) {call : Call}
    (allowed : call.Supplies Allowed) {system : σ} (good : Good system) :
    Good (call.perform system).2 :=
  (invariant.simulation.perform allowed ⟨rfl, good⟩).systems.2

/-- **A history of calls keeps an invariant.** -/
theorem performAll (invariant : Invariant Good Allowed) {calls : List Call}
    (allowed : ∀ call ∈ calls, call.Supplies Allowed) {system : σ} (good : Good system) :
    Good (performAll system calls).2 :=
  (invariant.simulation.performAll allowed ⟨rfl, good⟩).systems.2

end Invariant

end

end ForwardChaining
