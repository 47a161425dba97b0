import ForwardChaining.Proofs.Engine.WellFormed
import ForwardChaining.Proofs.Matching.GroundMatch

/-! # What calls add to an engine

Asserting a fact and adding a rule only ever add: facts and rules stay, and the activations that are
put on the agenda are just the matches that were not there before (`Adds`).

With acyclic environments this makes engines regular: every activation that waits is a match of a
stored rule with stored facts, and its bindings are acyclic. -/

namespace ForwardChaining

namespace Engine

variable {engine before after : Engine}

/-- The matches of all rules with all tuples of facts, waiting or not. -/
def activations (engine : Engine) : List Activation :=
  engine.rules.toList.flatMap (·.allMatches engine.facts)

/-- An activation is the match of a stored rule with stored facts. -/
theorem mem_activations {activation : Activation} : activation ∈ engine.activations ↔
    ∃ rule ∈ engine.rules, ∃ tuple : List Term, (∀ fact ∈ tuple, fact ∈ engine.facts) ∧
      rule.match? tuple = some activation := by
  simp only [activations, List.mem_flatMap, Array.mem_toList_iff, Rule.mem_allMatches]
  refine exists_congr fun rule => and_congr_right fun _ => ?_
  constructor
  · rintro ⟨ids, -, -, matched⟩
    exact ⟨termsAt engine.facts ids, fun fact => mem_of_mem_termsAt, matched⟩
  · rintro ⟨tuple, stored, matched⟩
    obtain ⟨ids, length, below, rfl⟩ := exists_termsAt stored
    have pairs := forall₂_compatible_of_unifyAll (Rule.match?_eq_some_iff.mp matched).1
    exact ⟨ids, length.trans pairs.length_eq, below, matched⟩

/-! ## Growth -/

/-- Nothing that was stored is lost. -/
structure Grows (before after : Engine) : Prop where
  /-- Facts stay. -/
  facts : ∀ fact ∈ before.facts, fact ∈ after.facts
  /-- Rules stay. -/
  rules : ∀ rule ∈ before.rules, rule ∈ after.rules

/-- An engine holds what it holds. -/
theorem Grows.refl (engine : Engine) : engine.Grows engine := ⟨fun _ => id, fun _ => id⟩

/-- What is never lost stays for long. -/
theorem Grows.trans {middle : Engine} (first : before.Grows middle) (second : middle.Grows after) :
    before.Grows after :=
  ⟨fun fact member => second.facts fact (first.facts fact member),
    fun rule member => second.rules rule (first.rules rule member)⟩

/-- Matches stay as well. -/
theorem Grows.activations (grows : before.Grows after) {activation : Activation}
    (member : activation ∈ before.activations) : activation ∈ after.activations := by
  rw [mem_activations] at member ⊢
  obtain ⟨rule, isRule, tuple, stored, matched⟩ := member
  exact ⟨rule, grows.rules rule isRule, tuple, fun fact inTuple =>
    grows.facts fact (stored fact inTuple), matched⟩

/-- One engine comes from another by adding a fact or a rule, or by an attempt to. -/
structure Adds (before after : Engine) : Prop extends Grows before after where
  /-- The engine stays well-formed. -/
  wellFormed : after.WellFormed
  /-- No rule fires. -/
  firings : after.firings = before.firings
  /-- The matches that were not there before are queued, and nothing else. -/
  queues : ∃ added, after.agenda = before.agenda.pushAll added ∧
    after.activations.Perm (before.activations ++ added)

/-- Nothing is added by doing nothing. -/
theorem Adds.refl (wellFormed : engine.WellFormed) : engine.Adds engine :=
  ⟨.refl engine, wellFormed, rfl, [], rfl, by rw [List.append_nil]⟩

/-- What is added in two steps is added. -/
theorem Adds.trans {middle : Engine} (first : before.Adds middle) (second : middle.Adds after) :
    before.Adds after := by
  obtain ⟨added, agenda, perm⟩ := first.queues
  obtain ⟨more, agendaAfter, permAfter⟩ := second.queues
  refine ⟨first.toGrows.trans second.toGrows, second.wellFormed,
    second.firings.trans first.firings, added ++ more, ?_, ?_⟩
  · rw [agendaAfter, agenda, Agenda.pushAll, Agenda.pushAll, Agenda.pushAll, List.foldl_append]
  · rw [← List.append_assoc]
    exact permAfter.trans (perm.append_right more)

open scoped List in
/-- **Asserting a fact adds its matches.** -/
theorem WellFormed.assertFact_adds (wellFormed : engine.WellFormed) (fact : Term) :
    engine.Adds (engine.assertFact fact).2 := by
  by_cases ground : fact.isGround
  · refine ⟨⟨?_, ?_⟩, wellFormed.assertFact fact, assertFact_firings engine fact, _,
      wellFormed.assertFact_agenda ground, ?_⟩
    · intro other member
      rw [assertFact_facts ground]
      exact Array.mem_push_of_mem fact member
    · intro rule member
      rwa [assertFact_rules]
    · rw [activations, assertFact_facts ground, assertFact_rules]
      calc engine.rules.toList.flatMap (·.allMatches (engine.facts.push fact))
          ~ engine.rules.toList.flatMap fun rule => rule.allMatches engine.facts ++
              rule.newMatches (engine.facts.push fact) engine.facts.size :=
            List.Perm.flatMap_left _ fun rule _ => rule.allMatches_push_perm engine.facts fact
        _ ~ engine.activations ++ engine.rules.toList.flatMap
              (·.newMatches (engine.facts.push fact) engine.facts.size) :=
            (List.flatMap_append_perm _ _ _).symm
  · rw [assertFact_of_not_ground ground]
    exact ⟨.refl engine, wellFormed, rfl, [], rfl, by rw [List.append_nil]⟩

/-- **Adding a rule adds its matches.** -/
theorem WellFormed.addRule_adds (wellFormed : engine.WellFormed) (trigger : Trigger)
    (body : List Term) (environment : Bindings) :
    engine.Adds (engine.addRule trigger body environment).1 := by
  refine ⟨⟨fun _ => id, ?_⟩, wellFormed.addRule trigger body environment, rfl, _,
    wellFormed.addRule_agenda trigger body environment, ?_⟩
  · intro rule member
    rw [addRule_rules]
    exact Array.mem_push_of_mem _ member
  · rw [activations, addRule_facts, addRule_rules, Array.toList_push, List.flatMap_append,
      List.flatMap_singleton, activations]

/-! ## Regular engines -/

/-- A well-formed engine whose rules have acyclic environments, and on whose agenda only matches
wait. -/
structure Regular (engine : Engine) : Prop where
  /-- The engine is well-formed. -/
  wellFormed : engine.WellFormed
  /-- The environments of rules are acyclic. -/
  acyclic : ∀ rule ∈ engine.rules, rule.environment.Acyclic
  /-- What waits is a match. -/
  waiting : ∀ activation ∈ engine.agenda.waiting, activation ∈ engine.activations

/-- A new engine is regular. -/
theorem regular_new (config : Config) : (new config).Regular where
  wellFormed := wellFormed_new config
  acyclic := by simp [new]
  waiting := by simp [new]

/-- The bindings of a match are acyclic. -/
theorem Regular.acyclic_bindings (regular : engine.Regular) {activation : Activation}
    (member : activation ∈ engine.activations) : activation.bindings.Acyclic := by
  obtain ⟨rule, isRule, tuple, stored, matched⟩ := mem_activations.mp member
  have ground : ∀ fact ∈ tuple, fact.isGround :=
    fun fact inTuple => regular.wellFormed.ground fact (stored fact inTuple)
  exact (matched_of_unifyAll (regular.acyclic rule isRule) ground
    (Rule.match?_eq_some_iff.mp matched).1).acyclic

/-- What is queued in addition is a match. -/
theorem Adds.waiting (adds : before.Adds after)
    (waiting : ∀ activation ∈ before.agenda.waiting, activation ∈ before.activations) :
    ∀ activation ∈ after.agenda.waiting, activation ∈ after.activations := by
  obtain ⟨added, agenda, perm⟩ := adds.queues
  intro activation member
  rw [agenda, Agenda.waiting_pushAll, List.mem_append, List.mem_reverse] at member
  rw [perm.mem_iff, List.mem_append]
  rcases member with new | old
  · exact .inr new
  · exact .inl (waiting activation old)

/-- Taking an activation keeps an engine regular. -/
theorem Regular.takeNewest? (regular : engine.Regular) {activation : Activation} {next : Engine}
    (taken : engine.takeNewest? = some (activation, next)) :
    activation ∈ engine.activations ∧ next.Regular := by
  have wellFormed := (wellFormed_invariant.takeNewest? regular.wellFormed taken).2
  obtain ⟨waiting, before, rfl⟩ := takeNewest?_eq_some_iff.mp taken
  have areMatches := regular.waiting
  rw [before] at areMatches
  obtain ⟨first, others⟩ := List.forall_mem_cons.mp areMatches
  exact ⟨first, wellFormed, regular.acyclic, others⟩

/-- **Acyclic environments keep engines regular.** -/
theorem regular_invariant : Invariant Regular Bindings.Acyclic where
  assertFact := by
    intro engine regular fact
    have adds := regular.wellFormed.assertFact_adds fact
    refine ⟨adds.wellFormed, ?_, adds.waiting regular.waiting⟩
    intro rule member
    have old : rule ∈ engine.rules := by
      rw [← assertFact_rules engine fact]
      exact member
    exact regular.acyclic rule old
  addRule := by
    intro engine regular environment acyclic trigger body
    have adds := regular.wellFormed.addRule_adds trigger body environment
    refine ⟨adds.wellFormed, ?_, adds.waiting regular.waiting⟩
    intro rule member
    rcases Array.mem_push.mp member with old | rfl
    · exact regular.acyclic rule old
    · exact acyclic
  empty := Bindings.acyclic_empty
  takeNewest? := by
    intro engine activation next regular taken
    obtain ⟨member, nextRegular⟩ := regular.takeNewest? taken
    exact ⟨regular.acyclic_bindings member, nextRegular⟩

/-- **Nothing that was stored is ever lost.** -/
theorem grows_invariant (engine : Engine) :
    Invariant (fun next => next.Regular ∧ engine.Grows next) Bindings.Acyclic where
  assertFact := by
    rintro next ⟨regular, grows⟩ fact
    have adds := regular.wellFormed.assertFact_adds fact
    exact ⟨regular_invariant.assertFact regular fact, grows.trans adds.toGrows⟩
  addRule := by
    rintro next ⟨regular, grows⟩ environment acyclic trigger body
    have adds := regular.wellFormed.addRule_adds trigger body environment
    exact ⟨regular_invariant.addRule regular acyclic trigger body, grows.trans adds.toGrows⟩
  empty := Bindings.acyclic_empty
  takeNewest? := by
    rintro next activation last ⟨regular, grows⟩ taken
    obtain ⟨member, regularLast⟩ := regular.takeNewest? taken
    obtain ⟨waiting, -, rfl⟩ := takeNewest?_eq_some_iff.mp taken
    exact ⟨regular.acyclic_bindings member, regularLast, grows.facts, grows.rules⟩

end Engine

end ForwardChaining
