import ForwardChaining.Proofs.Matching.Acyclic
import ForwardChaining.Proofs.Matching.Compatibility

/-! # Matching ground facts

Unifying a ground fact with a pattern binds variables to ground terms only. So acyclic bindings stay
acyclic, nothing that was bound changes, and the pattern becomes the fact when the bindings are
substituted in it (`matched_of_unifyAll`, for the facts and clauses of a trigger together). -/

namespace ForwardChaining

/-- What a match of a pattern with a fact gives: acyclic bindings that keep the given ones and turn
the pattern into the fact. -/
structure Matched (given result : Bindings) (fact pattern : Term) : Prop where
  /-- Nothing that was bound changes. -/
  keeps : result.Extends given
  /-- No cycle comes about. -/
  acyclic : result.Acyclic
  /-- The pattern becomes the fact. -/
  substitute_eq : result.substitute pattern = fact

/-- What a pattern stands for at its top under fewer bindings becomes the same. -/
theorem Bindings.Extends.substitute_resolve {given result : Bindings}
    (keeps : result.Extends given) (acyclicGiven : given.Acyclic) (acyclic : result.Acyclic)
    (term : Term) : result.substitute (given.resolve term) = result.substitute term := by
  rw [← keeps.substitute_substitute acyclicGiven acyclic (given.resolve term),
    acyclicGiven.substitute_resolve, keeps.substitute_substitute acyclicGiven acyclic]

/-- A pattern that stands for an unbound variable is matched by binding the variable. -/
theorem matched_bind {given : Bindings} (acyclic : given.Acyclic) {fact pattern : Term}
    {name : String} (ground : fact.isGround) (resolved : given.resolve pattern = .var name) :
    Matched given (given.bind name fact) fact pattern := by
  have unbound : given.get? name = none := acyclic.unbound_of_resolve resolved
  have keeps : (given.bind name fact).Extends given :=
    Bindings.extends_bind_of_unbound unbound fact
  have acyclicResult : (given.bind name fact).Acyclic := acyclic.bind_ground name ground
  refine ⟨keeps, acyclicResult, ?_⟩
  rw [← keeps.substitute_resolve acyclic acyclicResult, resolved,
    acyclicResult.substitute_var (by rw [Bindings.get?_bind, if_pos rfl]),
    Bindings.substitute_of_isGround ground]

/-- A pattern that stands for the fact itself is matched as it is. -/
theorem matched_self {given : Bindings} (acyclic : given.Acyclic) {fact pattern : Term}
    (ground : fact.isGround) (resolved : given.resolve pattern = fact) :
    Matched given given fact pattern := by
  refine ⟨.refl given, acyclic, ?_⟩
  rw [← acyclic.substitute_resolve, resolved, Bindings.substitute_of_isGround ground]

/-- When a step matches single facts, the step repeated matches lists of them. -/
theorem matched_of_unifyPairs {step : Term → Term → Bindings → Unification}
    {facts patterns : List Term} {given result : Bindings} (acyclic : given.Acyclic)
    (ground : ∀ fact ∈ facts, fact.isGround)
    (single : ∀ fact ∈ facts, ∀ pattern (given result : Bindings), given.Acyclic →
      step fact pattern given = .unified result → Matched given result fact pattern)
    (unified : unifyPairs step facts patterns given = .unified result) :
    Matched given result (.list facts) (.list patterns) := by
  induction facts generalizing patterns given with
  | nil =>
    cases patterns with
    | nil =>
      cases unified
      exact ⟨.refl _, acyclic, by simp⟩
    | cons pattern patterns => simp [unifyPairs] at unified
  | cons fact facts ih =>
    obtain ⟨groundFact, groundFacts⟩ := List.forall_mem_cons.mp ground
    obtain ⟨singleFact, singleFacts⟩ := List.forall_mem_cons.mp single
    cases patterns with
    | nil => simp [unifyPairs] at unified
    | cons pattern patterns =>
      rw [unifyPairs] at unified
      split at unified
      · next middle first =>
        have head := singleFact pattern given middle acyclic first
        have tail := ih head.acyclic groundFacts singleFacts unified
        -- What comes after the first pair does not change what the first pattern became.
        have stays : result.substitute pattern = fact := by
          rw [← tail.keeps.substitute_substitute head.acyclic tail.acyclic, head.substitute_eq,
            Bindings.substitute_of_isGround groundFact]
        refine ⟨tail.keeps.trans head.keeps, tail.acyclic, ?_⟩
        have rest := tail.substitute_eq
        rw [Bindings.substitute_list, Term.list.injEq] at rest ⊢
        rw [List.map_cons, stays, rest]
      · next outcome failed => exact absurd unified (failed result)

/-- Unifying a ground fact with a pattern matches the pattern, within any depth. -/
theorem matched_of_unifyWithin {depth : Nat} {fact pattern : Term} {given result : Bindings}
    (acyclic : given.Acyclic) (ground : fact.isGround)
    (unified : unifyWithin depth fact pattern given = .unified result) :
    Matched given result fact pattern := by
  induction fact generalizing depth pattern given result with
  | var name => simp [Term.isGround] at ground
  | atom constant =>
    cases depth with
    | zero => simp [unifyWithin] at unified
    | succ depth =>
      cases resolved : given.resolve pattern with
      | var name =>
        simp only [unifyWithin, Bindings.resolve_atom, resolved] at unified
        cases unified
        exact matched_bind acyclic ground resolved
      | atom other =>
        by_cases equal : constant = other
        · simp only [unifyWithin, Bindings.resolve_atom, resolved, if_pos equal] at unified
          cases unified
          exact matched_self acyclic ground (equal ▸ resolved)
        · simp [unifyWithin, resolved, equal] at unified
      | list items => simp [unifyWithin, resolved] at unified
  | list facts ih =>
    cases depth with
    | zero => simp [unifyWithin] at unified
    | succ depth =>
      -- A ground list stands for itself, so the outcome depends on what the pattern stands for.
      cases resolved : given.resolve pattern with
      | var name =>
        simp only [unifyWithin, Bindings.resolve_list, resolved] at unified
        cases unified
        exact matched_bind acyclic ground resolved
      | atom other => simp [unifyWithin, resolved] at unified
      | list patterns =>
        simp only [unifyWithin, Bindings.resolve_list, resolved] at unified
        split at unified
        · have groundFacts : ∀ fact ∈ facts, fact.isGround := by simpa using ground
          have lists := matched_of_unifyPairs acyclic groundFacts
            (fun fact member pattern given result acyclic unified =>
              ih fact member acyclic (groundFacts fact member) unified) unified
          refine ⟨lists.keeps, lists.acyclic, ?_⟩
          rw [← lists.keeps.substitute_resolve acyclic lists.acyclic, resolved,
            lists.substitute_eq]
        · simp at unified

/-- Unifying facts with clauses is unifying them pair by pair. -/
theorem unifyAll_eq_some_iff {facts clauses : List Term} {given result : Bindings} :
    unifyAll facts clauses given = some result ↔
      unifyPairs (fun fact clause given =>
        unifyWithin (unificationDepth fact clause given) fact clause given)
        facts clauses given = .unified result := by
  induction facts generalizing clauses given with
  | nil => cases clauses <;> simp [unifyAll, unifyPairs]
  | cons fact facts ih =>
    cases clauses with
    | nil => simp [unifyAll, unifyPairs]
    | cons clause clauses =>
      rw [unifyAll, unifyPairs, unify]
      cases unifyWithin (unificationDepth fact clause given) fact clause given with
      | unified middle => simp [Unification.bindings?, ih]
      | clash => simp [Unification.bindings?]
      | unfinished => simp [Unification.bindings?]

/-- **A match turns the clauses into the facts**, and keeps acyclic bindings acyclic. -/
theorem matched_of_unifyAll {facts clauses : List Term} {given result : Bindings}
    (acyclic : given.Acyclic) (ground : ∀ fact ∈ facts, fact.isGround)
    (unified : unifyAll facts clauses given = some result) :
    Matched given result (.list facts) (.list clauses) :=
  matched_of_unifyPairs acyclic ground
    (fun fact member _ _ _ acyclic unified =>
      matched_of_unifyWithin acyclic (ground fact member) unified)
    (unifyAll_eq_some_iff.mp unified)

/-- The variables of the clauses become ground. -/
theorem isGround_substitute_of_unifyAll {facts clauses : List Term} {given result : Bindings}
    (acyclic : given.Acyclic) (ground : ∀ fact ∈ facts, fact.isGround)
    (unified : unifyAll facts clauses given = some result) {term : Term}
    (covered : ∀ name ∈ term.occurrences, ∃ clause ∈ clauses, name ∈ clause.occurrences) :
    (result.substitute term).isGround := by
  have matched := (matched_of_unifyAll acyclic ground unified).substitute_eq
  have groundClauses : (result.substitute (.list clauses)).isGround := by
    rw [matched]
    simpa using ground
  rw [Bindings.isGround_substitute] at groundClauses ⊢
  intro name occurs
  exact groundClauses name (by simpa using covered name occurs)

end ForwardChaining
