import ForwardChaining.Proofs.Engine.WellFormed

/-! # An engine without an index

A naive engine finds matches by trying tuples of facts one after another. A new rule tries all
tuples. A new fact walks through the rules, and through the clauses of each, and tries every tuple
that holds the fact at the clause, older facts before it and any facts after it.

No one who makes calls can tell the engine from it (`performAll_withoutIndex`): responses, facts,
rules, the agenda and the count of firings are the same, in the same order. So a given history can
be evaluated without the index (`mirrors_performAll`), where no search sorts what it finds. -/

namespace ForwardChaining

/-- A production-rule engine that searches without an index. Its rules are in no buckets. -/
structure NaiveEngine where
  /-- The choices made at its creation. -/
  config : Config
  /-- The facts in the order of assertion. -/
  facts : Array Term
  /-- The rules in the order of creation. -/
  rules : Array Rule
  /-- The matches that have not fired. -/
  agenda : Agenda
  /-- The number of the newest rule, or zero. -/
  newestRule : RuleId
  /-- How often rules have fired. -/
  firings : Nat

namespace NaiveEngine

/-- The naive engine without facts and rules. -/
def new (config : Config) : NaiveEngine := ⟨config, #[], #[], ∅, 0, 0⟩

/-- Adds a rule and queues its matches among all tuples of facts. -/
def addRule (engine : NaiveEngine) (trigger : Trigger) (body : List Term)
    (environment : Bindings) : NaiveEngine × RuleId :=
  let rule : Rule := ⟨engine.newestRule + 1, trigger, body, environment, []⟩
  ({ engine with
      rules := engine.rules.push rule
      newestRule := rule.id
      agenda := engine.agenda.pushAll (rule.allMatches engine.facts) }, rule.id)

/-- Stores a ground fact and queues its matches, by rule, then by the clause where the fact stands,
then by the tuple. -/
def assertFact (engine : NaiveEngine) (fact : Term) : Except Fault FactId × NaiveEngine :=
  if fact.isGround then
    let id := engine.facts.size
    let facts := engine.facts.push fact
    (.ok id, { engine with
      facts := facts
      agenda := engine.agenda.pushAll (engine.rules.toList.flatMap (·.newMatches facts id)) })
  else (.error (.nonGroundFact fact), engine)

/-- Takes the newest activation off the agenda and counts it as fired. -/
def takeNewest? (engine : NaiveEngine) : Option (Activation × NaiveEngine) :=
  engine.agenda.pop?.map fun (activation, agenda) =>
    (activation, { engine with agenda := agenda, firings := engine.firings + 1 })

instance : ProductionSystem NaiveEngine where
  assertFact := assertFact
  addRule := addRule
  takeNewest? := takeNewest?
  marker engine := engine.config.marker

end NaiveEngine

/-- A rule that is in no buckets. -/
def Rule.withoutBuckets (rule : Rule) : Rule := { rule with buckets := [] }

namespace Engine

/-- What an engine holds besides its index. -/
def withoutIndex (engine : Engine) : NaiveEngine :=
  ⟨engine.config, engine.facts, engine.rules.map Rule.withoutBuckets, engine.agenda,
    engine.newestRule, engine.firings⟩

/-- The naive engine of an engine. It holds the same, and the engine is well-formed. -/
structure Mirrors (engine : Engine) (naive : NaiveEngine) : Prop where
  /-- The engine is well-formed. -/
  wellFormed : engine.WellFormed
  /-- Only the index is missing. -/
  withoutIndex_eq : engine.withoutIndex = naive

variable {engine : Engine}

/-- Adding a rule is the same with and without the index. -/
theorem WellFormed.addRule_withoutIndex (wellFormed : engine.WellFormed) (trigger : Trigger)
    (body : List Term) (environment : Bindings) :
    (engine.addRule trigger body environment).1.withoutIndex =
      (engine.withoutIndex.addRule trigger body environment).1 := by
  have agenda := wellFormed.addRule_agenda trigger body environment
  simp only [withoutIndex, NaiveEngine.addRule, addRule_config, addRule_facts, addRule_rules,
    addRule_newestRule, addRule_firings, agenda, Array.map_push]
  rfl

/-- Asserting a ground fact is the same with and without the index. -/
theorem WellFormed.assertFact_withoutIndex (wellFormed : engine.WellFormed) {fact : Term}
    (ground : fact.isGround) :
    (engine.assertFact fact).2.withoutIndex = (engine.withoutIndex.assertFact fact).2 := by
  have agenda := wellFormed.assertFact_agenda ground
  have sameMatches : (engine.rules.map Rule.withoutBuckets).toList.flatMap
      (·.newMatches (engine.facts.push fact) engine.facts.size) =
      engine.rules.toList.flatMap
        (·.newMatches (engine.facts.push fact) engine.facts.size) := by
    rw [Array.toList_map, List.flatMap_map]
    rfl
  rw [NaiveEngine.assertFact, if_pos ground, withoutIndex, agenda]
  simp only [withoutIndex, sameMatches]
  rw [assertFact_of_ground ground]
  rfl

/-- Asserting a fact is the same with and without the index. -/
theorem WellFormed.assertFact_agree (wellFormed : engine.WellFormed) (fact : Term) :
    Agree Mirrors (engine.assertFact fact) (engine.withoutIndex.assertFact fact) := by
  by_cases ground : fact.isGround
  · refine ⟨?_, wellFormed.assertFact fact, wellFormed.assertFact_withoutIndex ground⟩
    rw [assertFact_of_ground ground, NaiveEngine.assertFact, if_pos ground]
    rfl
  · rw [assertFact_of_not_ground ground, NaiveEngine.assertFact, if_neg ground]
    exact ⟨rfl, wellFormed, rfl⟩

/-- Taking an activation is the same with and without the index. -/
theorem takeNewest?_withoutIndex (engine : Engine) :
    engine.withoutIndex.takeNewest? =
      engine.takeNewest?.map fun (activation, next) => (activation, next.withoutIndex) := by
  rw [takeNewest?, NaiveEngine.takeNewest?, Option.map_map]
  rfl

/-- **The index does not show**: every operation gives the same with and without it. -/
theorem mirrors_simulation : Simulation Mirrors fun _ => True where
  assertFact := by
    rintro engine _ ⟨wellFormed, rfl⟩ fact
    exact wellFormed.assertFact_agree fact
  addRule := by
    rintro engine _ ⟨wellFormed, rfl⟩ environment - trigger body
    exact ⟨rfl, wellFormed.addRule trigger body environment,
      wellFormed.addRule_withoutIndex trigger body environment⟩
  marker := by
    rintro engine _ ⟨-, rfl⟩
    rfl
  empty := trivial
  takeNewest? := by
    rintro engine _ ⟨wellFormed, rfl⟩
    have same : ProductionSystem.takeNewest? engine.withoutIndex = _ :=
      takeNewest?_withoutIndex engine
    rw [same]
    rcases taken : engine.takeNewest? with _ | ⟨activation, next⟩
    · exact .inl ⟨taken, rfl⟩
    · obtain ⟨-, nextWellFormed⟩ := wellFormed_invariant.takeNewest? wellFormed taken
      exact .inr ⟨activation, next, next.withoutIndex, taken, rfl, trivial, nextWellFormed, rfl⟩

/-- New engines are the same with and without the index. -/
theorem mirrors_new (config : Config) : Mirrors (new config) (NaiveEngine.new config) :=
  ⟨wellFormed_new config, by simp [withoutIndex, new, NaiveEngine.new]⟩

/-- So are the histories that start from them. -/
theorem mirrors_performAll (config : Config) (calls : List Call) :
    Agree Mirrors (performAll (new config) calls) (performAll (NaiveEngine.new config) calls) :=
  mirrors_simulation.performAll (fun call _ => call.supplies_of_forall fun _ => trivial)
    (mirrors_new config)

namespace Mirrors

variable {naive : NaiveEngine}

/-- The facts do not depend on the index. -/
theorem facts_eq (mirrors : Mirrors engine naive) : engine.facts = naive.facts :=
  congrArg NaiveEngine.facts mirrors.withoutIndex_eq

/-- Neither do the rules, up to their buckets. -/
theorem rules_eq (mirrors : Mirrors engine naive) :
    engine.rules.map Rule.withoutBuckets = naive.rules :=
  congrArg NaiveEngine.rules mirrors.withoutIndex_eq

/-- Nor does the agenda. -/
theorem agenda_eq (mirrors : Mirrors engine naive) : engine.agenda = naive.agenda :=
  congrArg NaiveEngine.agenda mirrors.withoutIndex_eq

end Mirrors

/-- **The index is unobservable.** After every history of calls, the responses are those of the
naive engine, and so are the facts, the rules, the agenda and the count of firings. -/
theorem performAll_withoutIndex (config : Config) (calls : List Call) :
    (performAll (new config) calls).1 = (performAll (NaiveEngine.new config) calls).1 ∧
      (performAll (new config) calls).2.withoutIndex =
        (performAll (NaiveEngine.new config) calls).2 := by
  obtain ⟨responses, mirrors⟩ := mirrors_performAll config calls
  exact ⟨responses, mirrors.withoutIndex_eq⟩

end Engine

end ForwardChaining
