import ForwardChaining.Proofs.Engine.Additions

/-! # What was ever queued

The agenda forgets what was taken off it. A ledger is an engine that keeps a list of everything that
was put on its agenda, and does otherwise the same (`bookkeeping_simulation`).

The list holds each match of each rule with each tuple of facts exactly once
(`performAll_queued_perm`): the searches of new rules and those of new facts together leave no
match out and find none again, whatever calls were made, and whether they failed or not. -/

namespace ForwardChaining

/-- What waits on an agenda in front of all that waited before, in the order of addition. -/
def Agenda.newcomers (before after : Agenda) : List Activation :=
  (after.waiting.take (after.size - before.size)).reverse

/-- What was just added is new. -/
@[simp] theorem Agenda.newcomers_pushAll (agenda : Agenda) (activations : List Activation) :
    agenda.newcomers (agenda.pushAll activations) = activations := by
  simp [newcomers, size]

/-- An engine, and everything that was ever put on its agenda. -/
structure Ledger where
  /-- The engine. -/
  engine : Engine
  /-- What was put on its agenda, in order. -/
  queued : List Activation

namespace Ledger

/-- The ledger of a new engine. -/
def new (config : Config) : Ledger := ⟨Engine.new config, []⟩

/-- Notes what waits on the agenda of the next engine and did not before. An operation that adds
something to the agenda leaves what waited there behind it (`Engine.Adds`). -/
def note (ledger : Ledger) (next : Engine) : Ledger :=
  ⟨next, ledger.queued ++ ledger.engine.agenda.newcomers next.agenda⟩

instance : ProductionSystem Ledger where
  assertFact ledger fact :=
    let (result, next) := ledger.engine.assertFact fact
    (result, ledger.note next)
  addRule ledger trigger body environment :=
    let (next, id) := ledger.engine.addRule trigger body environment
    (ledger.note next, id)
  takeNewest? ledger :=
    ledger.engine.takeNewest?.map fun (activation, next) => (activation, ⟨next, ledger.queued⟩)
  marker ledger := ledger.engine.config.marker

/-- **Bookkeeping does not change what the engine does.** -/
theorem bookkeeping_simulation :
    Simulation (fun (ledger : Ledger) engine => ledger.engine = engine) fun _ => True where
  assertFact := by
    rintro ledger _ rfl fact
    exact ⟨rfl, rfl⟩
  addRule := by
    rintro ledger _ rfl environment - trigger body
    exact ⟨rfl, rfl⟩
  marker := by
    rintro ledger _ rfl
    rfl
  empty := trivial
  takeNewest? := by
    rintro ledger _ rfl
    rcases taken : ledger.engine.takeNewest? with _ | ⟨activation, next⟩
    · exact .inl ⟨congrArg (Option.map _) taken, taken⟩
    · exact .inr ⟨activation, ⟨next, ledger.queued⟩, next, congrArg (Option.map _) taken, taken,
        trivial, rfl⟩

/-- The list of a ledger is right. -/
structure Balanced (ledger : Ledger) : Prop where
  /-- The engine is well-formed. -/
  wellFormed : ledger.engine.WellFormed
  /-- Every match of every rule was queued once, and nothing else. -/
  queued_perm : ledger.queued.Perm ledger.engine.activations
  /-- What was queued has fired or waits. -/
  settled : ledger.engine.firings + ledger.engine.agenda.size = ledger.queued.length

variable {ledger : Ledger}

/-- Nothing was queued on the agenda of a new engine, which has no rules. -/
theorem balanced_new (config : Config) : (new config).Balanced where
  wellFormed := Engine.wellFormed_new config
  queued_perm := List.Perm.refl []
  settled := rfl

/-- Noting what an operation adds keeps a ledger right. -/
theorem Balanced.note (balanced : ledger.Balanced) {next : Engine}
    (adds : ledger.engine.Adds next) : (ledger.note next).Balanced := by
  obtain ⟨added, agenda, perm⟩ := adds.queues
  refine ⟨adds.wellFormed, ?_, ?_⟩
  · rw [Ledger.note, agenda, Agenda.newcomers_pushAll]
    exact (balanced.queued_perm.append_right added).trans perm.symm
  · have settled := balanced.settled
    simp only [Ledger.note, agenda, Agenda.newcomers_pushAll, adds.firings, Agenda.size,
      Agenda.waiting_pushAll, List.length_append, List.length_reverse] at settled ⊢
    omega

/-- **Every call keeps ledgers right.** -/
theorem balanced_invariant : Invariant Balanced fun _ => True where
  assertFact balanced fact := balanced.note (balanced.wellFormed.assertFact_adds fact)
  addRule balanced _ _ trigger body :=
    balanced.note (balanced.wellFormed.addRule_adds trigger body _)
  empty := trivial
  takeNewest? := by
    intro ledger activation next balanced taken
    obtain ⟨⟨_, _⟩, takenOfEngine, equal⟩ := Option.map_eq_some_iff.mp taken
    cases equal
    obtain ⟨waiting, before, rfl⟩ := Engine.takeNewest?_eq_some_iff.mp takenOfEngine
    refine ⟨trivial, (Engine.wellFormed_invariant.takeNewest? balanced.wellFormed takenOfEngine).2,
      balanced.queued_perm, ?_⟩
    have settled := balanced.settled
    simp only [Agenda.size, before, List.length_cons] at settled ⊢
    omega

end Ledger

namespace Engine

/-- The tuples of facts that match a rule, by number. Facts may occur several times. -/
def matchingTuples (engine : Engine) (rule : Rule) : List (List FactId) :=
  (tuples engine.facts.size rule.trigger.size).filter fun tuple =>
    (unifyAll (engine.factsAt tuple) rule.trigger.clauses rule.environment).isSome

/-- The matches of all rules: the number of the rule, and the bindings, for every tuple of facts
that unifies with its clauses. -/
def ruleMatches (engine : Engine) : List (RuleId × Bindings) :=
  engine.rules.toList.flatMap fun rule =>
    (tuples engine.facts.size rule.trigger.size).filterMap fun tuple =>
      (unifyAll (engine.factsAt tuple) rule.trigger.clauses rule.environment).map (rule.id, ·)

variable (engine : Engine)

/-- The matching tuples are those of stored facts, one for each clause, that unify with the clauses
of the rule. -/
theorem mem_matchingTuples {rule : Rule} {tuple : List FactId} :
    tuple ∈ engine.matchingTuples rule ↔
      (tuple.length = rule.trigger.size ∧ ∀ id ∈ tuple, id < engine.facts.size) ∧
        (unifyAll (engine.factsAt tuple) rule.trigger.clauses rule.environment).isSome := by
  rw [matchingTuples, List.mem_filter, mem_tuples]

/-- Each of them is listed once. -/
theorem nodup_matchingTuples (rule : Rule) : (engine.matchingTuples rule).Nodup :=
  (nodup_tuples _ _).filter _

/-- The activations of all rules are their matches. -/
theorem map_activations :
    (engine.activations.map fun activation => (activation.rule, activation.bindings)) =
      engine.ruleMatches := by
  rw [activations, ruleMatches, List.map_flatMap]
  refine List.flatMap_congr fun rule _ => ?_
  rw [Rule.allMatches, Rule.matchesAmong, List.map_filterMap]
  refine List.filterMap_congr fun tuple _ => ?_
  rw [Rule.match?, Option.map_map]
  rfl

/-- There is one match for each tuple that matches. -/
theorem length_ruleMatches :
    engine.ruleMatches.length = (engine.rules.toList.flatMap engine.matchingTuples).length := by
  rw [ruleMatches, List.length_flatMap, List.length_flatMap]
  refine congrArg List.sum (List.map_congr_left fun rule _ => ?_)
  rw [matchingTuples, List.length_filterMap_eq_countP, List.countP_eq_length_filter]
  refine congrArg List.length (List.filter_congr fun tuple _ => ?_)
  rw [Option.isSome_map]

/-- **Matching is exact.** After every history of calls, what was ever queued is one activation for
every rule and every tuple of facts that matches it, and nothing else. So the firings and the
waiting activations together are as many as these tuples. -/
theorem performAll_queued_perm (config : Config) (calls : List Call) :
    let ledger := (performAll (Ledger.new config) calls).2
    let engine := (performAll (Engine.new config) calls).2
    ledger.engine = engine ∧
      (ledger.queued.map fun activation => (activation.rule, activation.bindings)).Perm
        engine.ruleMatches ∧
      engine.firings + engine.agenda.size =
        (engine.rules.toList.flatMap engine.matchingTuples).length := by
  intro ledger engine
  have allowed : ∀ call ∈ calls, call.Supplies fun _ => True :=
    fun call _ => call.supplies_of_forall fun _ => trivial
  have balanced : ledger.Balanced :=
    Ledger.balanced_invariant.performAll allowed (Ledger.balanced_new config)
  -- The ledger of the calls is balanced, and its engine is the engine of the calls.
  have same : ledger.engine = engine :=
    (Ledger.bookkeeping_simulation.performAll allowed rfl).systems
  have queued : (ledger.queued.map fun activation => (activation.rule, activation.bindings)).Perm
      engine.ruleMatches := by
    rw [← same, ← map_activations]
    exact balanced.queued_perm.map _
  refine ⟨same, queued, ?_⟩
  rw [← length_ruleMatches, ← queued.length_eq, List.length_map, ← balanced.settled, same]

end Engine

end ForwardChaining
