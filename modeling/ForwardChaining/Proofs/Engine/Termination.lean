import ForwardChaining.Proofs.Engine.Additions
import ForwardChaining.Proofs.Engine.Naive
import ForwardChaining.Proofs.Matching.Solutions

/-! # Every search of an engine ends

Without an occurs check, unification can bind a variable to a term that holds it, and then
resolving, substituting and unifying may go on for ever. In an engine this never happens. Facts are
ground, so a match adds ground terms only to the environment of its rule, and when this is acyclic,
so are the bindings of the match. In these the body is evaluated, and they are what the rules that
it adds capture: as long as callers bring acyclic environments, all are acyclic (`Visits.regular`).

So whatever an engine does, the searches that it makes come to an end (`terminating_of_visits`). -/

namespace ForwardChaining

open ProductionSystem

namespace Engine

variable {engine : Engine} {environment : Bindings}

/-! ## Engines at work -/

/-- The engines that calls lead to, one after another, while callers bring acyclic environments, and
the engines on the way. Each comes with the environment that forms are evaluated in. -/
inductive Visits : (engine : Engine) → (environment : Bindings) → Prop where
  /-- Every engine starts without facts and rules. -/
  | new (config : Config) : Visits (Engine.new config) ∅
  /-- A call leads on. -/
  | call {engine : Engine} {environment : Bindings} (visits : Visits engine environment)
    {call : Call} (acyclic : call.Supplies Bindings.Acyclic) : Visits (call.perform engine).2 ∅
  /-- So does loading a program from bytes. -/
  | load {engine : Engine} {environment : Bindings} (visits : Visits engine environment)
    (limit : Nat) (bytes : Option ByteArray) : Visits (engine.runBytes limit bytes).2 ∅
  /-- A caller brings an environment. -/
  | bring {engine : Engine} {environment other : Bindings} (visits : Visits engine environment)
    (acyclic : other.Acyclic) : Visits engine other
  /-- On the way, a fact is asserted. -/
  | assertFact {engine : Engine} {environment : Bindings} (visits : Visits engine environment)
    (fact : Term) : Visits (engine.assertFact fact).2 environment
  /-- A rule is added, which captures the environment. -/
  | addRule {engine : Engine} {environment : Bindings} (visits : Visits engine environment)
    (trigger : Trigger) (body : List Term) :
    Visits (engine.addRule trigger body environment).1 environment
  /-- An activation is taken, and its body is evaluated under its bindings. -/
  | fire {engine next : Engine} {environment : Bindings} {activation : Activation}
    (visits : Visits engine environment)
    (taken : engine.takeNewest? = some (activation, next)) : Visits next activation.bindings

/-- **Acyclic environments are all that there ever is**: engines stay regular, and forms are only
evaluated in acyclic environments. -/
theorem Visits.regular (visits : Visits engine environment) :
    engine.Regular ∧ environment.Acyclic := by
  induction visits with
  | new config => exact ⟨regular_new config, Bindings.acyclic_empty⟩
  | call _ acyclic ih => exact ⟨regular_invariant.perform acyclic ih.1, Bindings.acyclic_empty⟩
  | load _ limit bytes ih =>
    exact ⟨regular_invariant.runBytes limit bytes ih.1, Bindings.acyclic_empty⟩
  | bring _ acyclic ih => exact ⟨ih.1, acyclic⟩
  | assertFact _ fact ih => exact ⟨regular_invariant.assertFact ih.1 fact, ih.2⟩
  | addRule _ trigger body ih => exact ⟨regular_invariant.addRule ih.1 ih.2 trigger body, ih.2⟩
  | fire _ taken ih =>
    obtain ⟨acyclic, regular⟩ := regular_invariant.takeNewest? ih.1 taken
    exact ⟨regular, acyclic⟩

/-- Calls one after another lead on. -/
theorem Visits.performAll (visits : Visits engine ∅) {calls : List Call}
    (acyclic : ∀ call ∈ calls, call.Supplies Bindings.Acyclic) :
    Visits (performAll engine calls).2 ∅ := by
  induction calls generalizing engine with
  | nil => exact visits
  | cons call calls ih =>
    obtain ⟨first, others⟩ := List.forall_mem_cons.mp acyclic
    exact ih (visits.call first) others

end Engine

/-! ## Searches that end -/

/-- Resolving and substituting under some bindings end at every term. -/
structure Bindings.ReplacingEnds (bindings : Bindings) : Prop where
  /-- The links from variable to variable lead to an end, which `resolve` finds. -/
  resolve : ∀ term, bindings.ResolvesTo term (bindings.resolve term)
  /-- Variables are replaced through all levels, which `substitute` does. -/
  substitute : ∀ term, bindings.SubstitutesTo term (bindings.substitute term)

/-- They do under acyclic ones. -/
theorem Bindings.Acyclic.replacingEnds {bindings : Bindings} (acyclic : bindings.Acyclic) :
    bindings.ReplacingEnds :=
  ⟨acyclic.loopFree.resolvesTo, acyclic.substitutesTo⟩

/-- Matching ground facts under some bindings ends for all clauses. -/
def Bindings.MatchingEnds (bindings : Bindings) : Prop :=
  ∀ facts clauses : List Term, (∀ fact ∈ facts, fact.isGround) →
    UnifyAllTo facts clauses bindings (unifyAll facts clauses bindings)

/-- It does under acyclic ones. -/
theorem Bindings.Acyclic.matchingEnds {bindings : Bindings} (acyclic : bindings.Acyclic) :
    bindings.MatchingEnds :=
  fun _ clauses ground => unifyAllTo_unifyAll ground acyclic clauses

namespace Engine

/-- All bindings of an engine at work are acyclic, and all searches that it can make end. -/
structure Terminating (engine : Engine) (environment : Bindings) : Prop where
  /-- The environments of rules are acyclic. -/
  rules : ∀ rule ∈ engine.rules, rule.environment.Acyclic
  /-- The bindings of activations that wait are acyclic. -/
  waiting : ∀ activation ∈ engine.agenda.waiting, activation.bindings.Acyclic
  /-- The environment of evaluation is acyclic. -/
  acyclic : environment.Acyclic
  /-- Stored facts are ground. -/
  ground : ∀ fact ∈ engine.facts, fact.isGround
  /-- A rule that is added matches facts under the environment that it captures. -/
  addRule : environment.MatchingEnds
  /-- A fact that is asserted is matched under the environments of the rules. -/
  assertFact : ∀ rule ∈ engine.rules, rule.environment.MatchingEnds
  /-- Fetching compares facts with a pattern. -/
  fetch : ∀ fact pattern : Term, fact.isGround → UnifiesTo fact pattern ∅ (unify fact pattern ∅)
  /-- Evaluating replaces variables in its environment. -/
  evaluate : environment.ReplacingEnds
  /-- Firing replaces variables by the bindings of the activation. -/
  fire : ∀ activation ∈ engine.agenda.waiting, activation.bindings.ReplacingEnds

/-- **Every search ends**, in every engine that calls with acyclic environments lead to and in those
on the way, and every binding there is acyclic. -/
theorem terminating_of_visits (visits : Visits engine environment) :
    engine.Terminating environment := by
  obtain ⟨regular, acyclic⟩ := visits.regular
  have waiting : ∀ activation ∈ engine.agenda.waiting, activation.bindings.Acyclic :=
    fun activation isWaiting =>
      regular.acyclic_bindings (regular.waiting activation isWaiting)
  exact {
    rules := regular.acyclic
    waiting := waiting
    acyclic := acyclic
    ground := regular.wellFormed.ground
    addRule := acyclic.matchingEnds
    assertFact := fun rule stored => (regular.acyclic rule stored).matchingEnds
    fetch := fun fact pattern ground => by
      obtain ⟨outcome, run⟩ := exists_unifiesTo_of_isGround ground Bindings.acyclic_empty pattern
      rwa [run.unify_eq Bindings.acyclic_empty.loopFree]
    evaluate := acyclic.replacingEnds
    fire := fun activation isWaiting => (waiting activation isWaiting).replacingEnds }

/-- A rule that captures a chain of variables, and a fact that matches it. -/
def chainCalls : List Call :=
  let symbol (name : String) : Term := .atom (.symbol name)
  [.addRule (.single (.list [symbol "p", .var "?list"]))
    [.list [symbol "assert!", .list [symbol "q", .var "?list"]]] chain,
    .assertFact (.list [symbol "p", .list [symbol "f", symbol "a"]])]

/-- These calls bring an acyclic environment. -/
theorem visits_chainCalls : Visits (performAll (new {}) chainCalls).2 ∅ :=
  (Visits.new {}).performAll
    (List.forall_mem_cons.mpr ⟨acyclic_chain, List.forall_mem_singleton.mpr trivial⟩)

/-- The rule fires: its body is evaluated in the chain together with what the match has bound. -/
theorem terminating_of_visits_chain :
    ∃ activation next,
      (performAll (new {}) chainCalls).2.takeNewest? = some (activation, next) ∧
        activation.bindings = chain.bind "?x" (.atom (.symbol "a")) ∧
        next.Terminating activation.bindings := by
  have found : ((performAll (new {}) chainCalls).2.takeNewest?.map fun taken =>
      taken.1.bindings) = some (chain.bind "?x" (.atom (.symbol "a"))) := by
    rw [takeNewest?, Option.map_map, (mirrors_performAll {} chainCalls).systems.agenda_eq]
    decide +kernel
  obtain ⟨⟨activation, next⟩, taken, bindings⟩ := Option.map_eq_some_iff.mp found
  exact ⟨activation, next, taken, bindings, terminating_of_visits (visits_chainCalls.fire taken)⟩

end Engine

end ForwardChaining
