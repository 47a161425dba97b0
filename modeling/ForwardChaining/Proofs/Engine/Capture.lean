import ForwardChaining.Proofs.Engine.Saturation
import ForwardChaining.Proofs.Engine.Termination
import ForwardChaining.Proofs.Matching.Capture

/-! # Rules that capture what was substituted

Rules that match the same facts with the same bindings can be put for one another: nothing that an
engine does tells which of them it has (`interchanged_simulation`).

A firing substitutes its bindings in a form that adds a rule, and the rule captures them as well.
The rule with the clauses as they were before matches the same facts with the same bindings. So the
engine does, now and ever after, what it would do with that one
(`substituted_rule_matches_as_written`). -/

namespace ForwardChaining

open ProductionSystem

namespace Engine

variable {engine left right : Engine}

/-! ## Interchangeable rules -/

/-- Two engines with the same facts and activations, and with rules that pairwise match the same
facts with the same bindings. -/
structure Interchanged (left right : Engine) : Prop where
  /-- The first engine is well-formed. -/
  wellFormedLeft : left.WellFormed
  /-- So is the second one. -/
  wellFormedRight : right.WellFormed
  /-- They have the same configuration. -/
  config : left.config = right.config
  /-- They have the same facts. -/
  facts : left.facts = right.facts
  /-- The same activations wait. -/
  agenda : left.agenda = right.agenda
  /-- Rules have fired equally often. -/
  firings : left.firings = right.firings
  /-- The rules match alike. -/
  rules : List.Forall₂ (Rule.MatchesAs id) left.rules.toList right.rules.toList

/-- An engine can be put for itself. -/
theorem WellFormed.interchanged (wellFormed : engine.WellFormed) :
    Interchanged engine engine where
  wellFormedLeft := wellFormed
  wellFormedRight := wellFormed
  config := rfl
  facts := rfl
  agenda := rfl
  firings := rfl
  rules := List.forall₂_same.mpr fun rule _ => ⟨rfl, by simp⟩

namespace Interchanged

variable (interchanged : Interchanged left right)
include interchanged

/-- The next rule gets the same number in both. -/
theorem newestRule : left.newestRule = right.newestRule := by
  rw [interchanged.wellFormedLeft.newest, interchanged.wellFormedRight.newest]
  simpa using interchanged.rules.length_eq

/-- Storing a ground fact in both. -/
theorem assertFact {fact : Term} (ground : fact.isGround) :
    Interchanged (left.assertFact fact).2 (right.assertFact fact).2 where
  wellFormedLeft := interchanged.wellFormedLeft.assertFact fact
  wellFormedRight := interchanged.wellFormedRight.assertFact fact
  config := by rw [assertFact_config, assertFact_config, interchanged.config]
  facts := by rw [assertFact_facts ground, assertFact_facts ground, interchanged.facts]
  agenda := by
    have stored : ∀ other ∈ left.facts.push fact, other.isGround :=
      (interchanged.wellFormedLeft.withFact ground).ground
    rw [interchanged.wellFormedLeft.assertFact_agenda ground,
      interchanged.wellFormedRight.assertFact_agenda ground, ← interchanged.agenda,
      ← interchanged.facts]
    have newMatches : List.Forall₂ Eq
        (left.rules.toList.flatMap (·.newMatches (left.facts.push fact) left.facts.size))
        (right.rules.toList.flatMap (·.newMatches (left.facts.push fact) left.facts.size)) := by
      refine List.rel_flatMap interchanged.rules fun rule other alike => ?_
      rw [List.forall₂_eq_eq_eq, alike.newMatches_eq stored, List.map_id]
    rw [List.forall₂_eq_eq_eq] at newMatches
    rw [newMatches]
  firings := by rw [assertFact_firings, assertFact_firings, interchanged.firings]
  rules := by
    rw [assertFact_rules, assertFact_rules]
    exact interchanged.rules

/-- Adding a rule to one of them, and to the other one a rule that matches alike. -/
theorem addRule {trigger other : Trigger} {environment : Bindings}
    (size_eq : other.size = trigger.size)
    (unifyAll_eq : ∀ facts : List Term, (∀ fact ∈ facts, fact.isGround) →
      unifyAll facts other.clauses environment = unifyAll facts trigger.clauses environment)
    (body : List Term) :
    Interchanged (left.addRule trigger body environment).1
      (right.addRule other body environment).1 := by
  have alike : Rule.MatchesAs id (left.ruleToAdd trigger body environment)
      (right.ruleToAdd other body environment) := by
    refine ⟨size_eq, fun facts ground => ?_⟩
    rw [Option.map_id, id, Rule.match?, Rule.match?, ruleToAdd, ruleToAdd,
      interchanged.newestRule]
    exact congrArg _ (unifyAll_eq facts ground)
  refine ⟨interchanged.wellFormedLeft.addRule _ _ _, interchanged.wellFormedRight.addRule _ _ _,
    interchanged.config, interchanged.facts, ?_, interchanged.firings, ?_⟩
  · rw [interchanged.wellFormedLeft.addRule_agenda, interchanged.wellFormedRight.addRule_agenda,
      ← interchanged.facts, alike.allMatches_eq interchanged.wellFormedLeft.ground, List.map_id,
      interchanged.agenda]
  · rw [addRule_rules, addRule_rules, Array.toList_push, Array.toList_push]
    exact List.rel_append interchanged.rules (.cons alike .nil)

end Interchanged

/-- **Which of the rules an engine has, never shows.** -/
theorem interchanged_simulation : Simulation Interchanged fun _ => True where
  assertFact {left right} interchanged fact := by
    show Agree Interchanged (left.assertFact fact) (right.assertFact fact)
    by_cases ground : fact.isGround
    · refine ⟨?_, interchanged.assertFact ground⟩
      rw [assertFact_of_ground ground, assertFact_of_ground ground, interchanged.facts]
    · rw [assertFact_of_not_ground ground, assertFact_of_not_ground ground]
      exact ⟨rfl, interchanged⟩
  addRule interchanged _ _ trigger body :=
    ⟨congrArg (· + 1) interchanged.newestRule, interchanged.addRule rfl (fun _ _ => rfl) body⟩
  marker interchanged := congrArg Config.marker interchanged.config
  empty := trivial
  takeNewest? := by
    intro left right interchanged
    have agenda := interchanged.agenda
    cases waiting : left.agenda.waiting with
    | nil =>
      exact .inl ⟨takeNewest?_eq_none_iff.mpr waiting,
        takeNewest?_eq_none_iff.mpr (agenda ▸ waiting)⟩
    | cons activation others =>
      have takenLeft := takeNewest?_eq_some_iff.mpr ⟨others, waiting, rfl⟩
      have takenRight := takeNewest?_eq_some_iff.mpr ⟨others, agenda ▸ waiting, rfl⟩
      refine .inr ⟨activation, _, _, takenLeft, takenRight, trivial, ?_⟩
      exact
        { wellFormedLeft :=
            (wellFormed_invariant.takeNewest? interchanged.wellFormedLeft takenLeft).2
          wellFormedRight :=
            (wellFormed_invariant.takeNewest? interchanged.wellFormedRight takenRight).2
          config := interchanged.config
          facts := interchanged.facts
          agenda := rfl
          firings := congrArg (· + 1) interchanged.firings
          rules := interchanged.rules }

/-! ## Rules made by a firing -/

/-- A rule with substituted clauses can be put for the rule with the clauses as they were before. -/
theorem WellFormed.interchanged_addRule (wellFormed : engine.WellFormed) {bindings : Bindings}
    (acyclic : bindings.Acyclic) {written substituted : Trigger}
    (clauses : substituted.clauses = written.clauses.map bindings.substitute) (body : List Term) :
    Interchanged (engine.addRule substituted body bindings).1
      (engine.addRule written body bindings).1 := by
  refine wellFormed.interchanged.addRule ?_ (fun facts ground => ?_) body
  · rw [Trigger.size, Trigger.size, clauses, List.length_map]
  · rw [clauses]
    exact (unifyAll_substitute ground acyclic written.clauses).symm

end Engine

end ForwardChaining
