import ForwardChaining.Proofs.Engine.LeastModel
import ForwardChaining.Proofs.Engine.Termination

/-! # What a match concludes

A match turns the clauses of its trigger into the facts that it was made with, and there is a match
just when some values for the variables do so. So every variable of the trigger stands for a ground
term, and so does each term over these variables: a body that asserts such a term never fails to
(`match_instantiates_trigger`).

This holds for rules of any kind and with any acyclic environment, which may bind some variables of
the trigger to terms with variables of their own. -/

namespace ForwardChaining

open ProductionSystem

/-- All variables of a term occur in a trigger. -/
def Trigger.Covers (trigger : Trigger) (term : Term) : Prop :=
  ∀ name ∈ term.occurrences, ∃ clause ∈ trigger.clauses, name ∈ clause.occurrences

/-- A form that asserts a fact, evaluated as a drain does under some bindings, asserts a ground term
and does not fail, whatever the engine. -/
structure Bindings.Concludes (bindings : Bindings) (form fact : Term) : Prop where
  /-- The fact becomes ground. -/
  ground : (bindings.substitute fact).isGround
  /-- It is stored. -/
  stores : ∀ engine : Engine, ∃ next : Engine,
    evaluate engine bindings (bindings.substitute form) = (.ok .nil, next) ∧
      next.facts = engine.facts.push (bindings.substitute fact)

namespace Engine

variable {engine : Engine}

/-- **What waits on the agenda asserts ground facts**, as far as it asserts terms over the variables
of its trigger. -/
theorem Regular.concludes (regular : engine.Regular) {activation : Activation}
    (waiting : activation ∈ engine.agenda.waiting) :
    ∃ rule, engine.rule? activation.rule = some rule ∧ activation.body = rule.body ∧
      ∀ form ∈ activation.body, ∀ fact, form.Asserts fact → rule.trigger.Covers fact →
        activation.bindings.Concludes form fact := by
  have isMatch := regular.waiting activation waiting
  obtain ⟨rule, isRule, tuple, stored, matched⟩ := mem_activations.mp isMatch
  obtain ⟨unified, number, sameBody⟩ := Rule.match?_eq_some_iff.mp matched
  refine ⟨rule, ?_, sameBody, fun form _ fact asserts covered => ?_⟩
  · rw [number, regular.wellFormed.rule?_of_mem isRule]
  · -- The tuple is ground, so what the bindings make of the clauses is.
    have groundTuple : ∀ fact ∈ tuple, fact.isGround :=
      fun fact inTuple => regular.wellFormed.ground fact (stored fact inTuple)
    have ground : (activation.bindings.substitute fact).isGround :=
      isGround_substitute_of_unifyAll (regular.acyclic rule isRule) groundTuple unified covered
    have acyclic := regular.acyclic_bindings isMatch
    exact ⟨ground, fun current =>
      ⟨_, evaluate_of_asserts current acyclic asserts ground, assertFact_facts ground⟩⟩

/-- **A match instantiates the trigger to the matched facts.** Ground facts match clauses just when
some values that satisfy the environment turn each clause into its fact, and then the bindings found
do so. Therefore no activation that waits, in whatever engine that calls with acyclic environments
lead to, fails to assert a term over the variables of the trigger of its rule. -/
theorem match_instantiates_trigger :
    (∀ {facts clauses : List Term} {given : Bindings}, (∀ fact ∈ facts, fact.isGround) →
      given.Acyclic →
        ((∃ result, unifyAll facts clauses given = some result) ↔
          ∃ value, given.SatisfiedBy value ∧ clauses.map (·.instantiate value) = facts) ∧
        ∀ result, unifyAll facts clauses given = some result →
          clauses.map result.substitute = facts) ∧
    ∀ {engine : Engine} {environment : Bindings}, Visits engine environment →
      ∀ activation ∈ engine.agenda.waiting,
        ∃ rule, engine.rule? activation.rule = some rule ∧ activation.body = rule.body ∧
          ∀ form ∈ activation.body, ∀ fact, form.Asserts fact → rule.trigger.Covers fact →
            activation.bindings.Concludes form fact := by
  constructor
  · intro facts clauses given ground acyclic
    refine ⟨unifyAll_eq_some_iff_exists ground acyclic, fun result unified => ?_⟩
    have matched := matched_of_unifyAll acyclic ground unified
    exact Term.list.inj ((result.substitute_list clauses).symm.trans matched.substitute_eq)
  · exact fun visits _ waiting => visits.regular.1.concludes waiting

/-- The clause becomes the fact through the chain that the rule has captured, and so does what the
body says about it. -/
theorem match_instantiates_trigger_chain :
    let symbol (name : String) : Term := .atom (.symbol name)
    let fact : Term := .list [symbol "p", .list [symbol "f", symbol "a"]]
    let clause : Term := .list [symbol "p", .var "?list"]
    let conclusion : Term := .list [symbol "q", .var "?list"]
    let result := chain.bind "?x" (symbol "a")
    [clause].map result.substitute = [fact] ∧
      ∃ activation ∈ (performAll (new {}) chainCalls).2.agenda.waiting,
        activation.bindings = result ∧
        activation.bindings.Concludes (.list [symbol "assert!", conclusion]) conclusion := by
  intro symbol fact clause conclusion result
  constructor
  · have ground : ∀ fact' ∈ [fact], fact'.isGround := by decide
    have unified : unifyAll [fact] [clause] chain = some result := by decide +kernel
    exact (match_instantiates_trigger.1 ground acyclic_chain).2 result unified
  · have mirrors := (mirrors_performAll {} chainCalls).systems
    have waiting : (performAll (new {}) chainCalls).2.agenda.waiting =
        [⟨1, [.list [symbol "assert!", conclusion]], result⟩] := by
      rw [mirrors.agenda_eq]
      decide +kernel
    have trigger : ((performAll (new {}) chainCalls).2.rule? 1).map (·.trigger.clauses) =
        some [clause] := by
      calc ((performAll (new {}) chainCalls).2.rule? 1).map (·.trigger.clauses)
        _ = ((performAll (new {}) chainCalls).2.rules.map Rule.withoutBuckets)[0]?.map
            (·.trigger.clauses) := by
          rw [Array.getElem?_map, Option.map_map]
          rfl
        _ = some [clause] := by
          rw [mirrors.rules_eq]
          decide +kernel
    have waits : _ ∈ (performAll (new {}) chainCalls).2.agenda.waiting :=
      waiting ▸ List.mem_singleton_self _
    obtain ⟨rule, found, -, concludes⟩ := match_instantiates_trigger.2 visits_chainCalls _ waits
    rw [found, Option.map_some, Option.some.injEq] at trigger
    refine ⟨_, waits, rfl, concludes _ (List.mem_singleton_self _) _ (.assert conclusion) ?_⟩
    intro name occurs
    rw [trigger]
    exact ⟨clause, List.mem_singleton_self _, occurs⟩

end Engine

end ForwardChaining
