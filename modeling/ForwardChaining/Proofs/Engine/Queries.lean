import ForwardChaining.Proofs.Engine.Representation
import ForwardChaining.Proofs.Matching.Solutions

/-! # Questions about the facts

A question only looks at the facts that the index holds under a compatible signature. None of the
others would have been an answer: `Engine.fetch` gives what a scan of all facts gives, in the same
order, and `Engine.containsFact` tells whether a term is among them
(`fetch_eq_filter_and_containsFact_iff`). -/

namespace ForwardChaining

namespace Engine

variable {engine : Engine}

/-- **The index gives the stored facts with compatible signatures**, in the order of assertion and
each as often as it is stored. -/
theorem WellFormed.factsAt_candidates (wellFormed : engine.WellFormed) (pattern : Term) :
    engine.factsAt (engine.candidates pattern) =
      engine.facts.toList.filter fun fact =>
        (Signature.of fact).compatible (Signature.of pattern) := by
  rw [candidates_eq wellFormed.index, toList_eq_filterMap_range, filter_filterMap_getElem?]
  rfl

/-- A question for a pattern misses no fact that unifies with it. -/
theorem WellFormed.fetch_eq (wellFormed : engine.WellFormed) (pattern : Term) :
    engine.fetch pattern =
      engine.facts.toList.filter fun fact => (unify fact pattern ∅).isSome := by
  rw [fetch, wellFormed.factsAt_candidates, List.filter_filter]
  -- Where unification finds bindings, the look-up has not left the fact out.
  refine List.filter_congr fun fact _ => Bool.and_eq_left_iff_imp.mpr fun unifies => ?_
  obtain ⟨result, unified⟩ := Option.isSome_iff_exists.mp unifies
  exact Signature.compatible_of_unify unified

/-- A question for a fact finds it just when it is stored. -/
theorem WellFormed.containsFact_iff (wellFormed : engine.WellFormed) (fact : Term) :
    engine.containsFact fact ↔ fact ∈ engine.facts := by
  rw [containsFact, wellFormed.factsAt_candidates]
  simp

/-- Ground facts asserted one after another are stored in this order. -/
theorem facts_performAll_assertFact {facts : List Term} (ground : ∀ fact ∈ facts, fact.isGround) :
    (performAll engine (facts.map .assertFact)).2.facts.toList = engine.facts.toList ++ facts := by
  induction facts generalizing engine with
  | nil => exact (List.append_nil _).symm
  | cons fact facts ih =>
    obtain ⟨groundFact, groundFacts⟩ := List.forall_mem_cons.mp ground
    calc (performAll (engine.assertFact fact).2 (facts.map .assertFact)).2.facts.toList
      _ = (engine.assertFact fact).2.facts.toList ++ facts := ih groundFacts
      _ = engine.facts.toList ++ fact :: facts := by
        rw [assertFact_facts groundFact, Array.toList_push, List.append_assoc,
          List.singleton_append]

/-- **Questions miss nothing and invent nothing.** In every engine that calls can lead to, a
question for a pattern gives the facts that unify with it, in the order of assertion and with every
copy, and unification comes to an end for each fact. A term is found just when it is among the
facts. -/
theorem fetch_eq_filter_and_containsFact_iff (reached : Reachable engine) (pattern : Term) :
    engine.fetch pattern =
        (engine.facts.toList.filter fun fact => (unify fact pattern ∅).isSome) ∧
      (∀ fact ∈ engine.facts, UnifiesTo fact pattern ∅ (unify fact pattern ∅)) ∧
      (engine.containsFact pattern ↔ pattern ∈ engine.facts) := by
  have wellFormed := reached.linked.toWellFormed
  refine ⟨wellFormed.fetch_eq pattern, fun fact stored => ?_, wellFormed.containsFact_iff pattern⟩
  exact unifiesTo_unify (wellFormed.ground fact stored) Bindings.acyclic_empty pattern

/-- Facts that differ only by kind or by bits, copies of facts, and the empty list, among which a
pattern with a repeated variable has answers. -/
theorem fetch_eq_filter_and_containsFact_iff_pairs :
    let integer : Term := .atom (.number (.int 0))
    let zero : Term := .atom (.number (.double ⟨0⟩))
    let negative : Term := .atom (.number (.double ⟨0x8000000000000000⟩))
    let symbol : Term := .atom (.symbol "0")
    let facts : List Term := [.list [integer, integer], .list [integer, zero],
      .list [zero, negative], .list [], .list [symbol, integer], .list [.list [zero], .list [zero]],
      .list [integer, integer], zero]
    let pattern : Term := .list [.var "?x", .var "?x"]
    let engine := (performAll (new {}) (facts.map .assertFact)).2
    engine.facts.toList = facts ∧
      engine.fetch pattern = [.list [integer, integer], .list [.list [zero], .list [zero]],
        .list [integer, integer]] ∧
      (∀ fact ∈ engine.facts, UnifiesTo fact pattern ∅ (unify fact pattern ∅)) ∧
      (engine.containsFact zero ↔ zero ∈ engine.facts) ∧ engine.containsFact zero ∧
      ¬ engine.containsFact negative := by
  intro integer zero negative symbol facts pattern engine
  have reached : Reachable engine := (Reachable.new {}).performAll _
  have ground : ∀ fact ∈ facts, fact.isGround := by decide
  have stored : engine.facts.toList = facts := by
    rw [show engine = (performAll (new {}) (facts.map .assertFact)).2 from rfl,
      facts_performAll_assertFact ground]
    rfl
  clear_value engine
  obtain ⟨answers, ends, -⟩ := fetch_eq_filter_and_containsFact_iff reached pattern
  obtain ⟨-, -, found⟩ := fetch_eq_filter_and_containsFact_iff reached zero
  refine ⟨stored, ?_, ends, found, ?_, ?_⟩
  · rw [answers, stored]
    decide +kernel
  · rw [found, ← Array.mem_toList_iff, stored]
    decide
  · rw [(fetch_eq_filter_and_containsFact_iff reached negative).2.2, ← Array.mem_toList_iff, stored]
    decide

end Engine

end ForwardChaining
