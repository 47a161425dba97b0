import ForwardChaining.Proofs.Engine.LeastModel

/-! # How often facts are stored

Facts are stored as often as they are asserted, and rules fire once for every tuple of copies that
matches. For definite rules this too does not depend on the order of the calls
(`perm_facts_of_interleavings`): the stored facts, each counted as often as it occurs, are the least
multiset that holds the asserted facts and the conclusions of all matches with its own members.

Multisets are lists up to order, and one is at most another when `List.Subperm` relates them.
`Derived` keeps both halves of the argument: the facts come from the assertions and from the matches
that have fired, and these are no more than the matches with any multiset that is closed. -/

namespace ForwardChaining

open ProductionSystem

/-- The tuples of all numbers stand for the tuples of all facts. -/
theorem map_termsAt_tuples (facts : Array Term) (arity : Nat) :
    (tuples facts.size arity).map (termsAt facts) =
      product (List.replicate arity facts.toList) := by
  have total : ∀ list ∈ List.replicate arity (List.range facts.size), ∀ id ∈ list,
      (facts[id]?).isSome := by
    intro list member id inList
    rw [List.eq_of_mem_replicate member, List.mem_range] at inList
    rw [Array.getElem?_eq_getElem inList]
    rfl
  have stands := map_product total
  rw [List.map_replicate, ← toList_eq_filterMap_range] at stands
  exact stands

/-! ## What calls give -/

/-- The body and the bindings of an activation, whatever the number of its rule. -/
def Activation.content (activation : Activation) : List Term × Bindings :=
  (activation.body, activation.bindings)

/-- The call that adds a rule. -/
def Rule.call (rule : Rule) : Call := .addRule rule.trigger rule.body rule.environment

namespace Call

/-- Whether a call adds a rule. -/
def isAddRule : Call → Bool
  | .addRule .. => true
  | _ => false

/-- The fact that a call asserts. -/
def asserted : Call → List Term
  | .assertFact fact => [fact]
  | _ => []

/-- The matches of the rule that a call adds with some facts. -/
def ruleMatches (facts : List Term) : Call → List (List Term × Bindings)
  | .addRule trigger body environment =>
    (product (List.replicate trigger.size facts)).filterMap fun tuple =>
      (unifyAll tuple trigger.clauses environment).map (body, ·)
  | _ => []

/-- Facts that are there more often match more often. -/
theorem ruleMatches_subperm {facts more : List Term} (isMore : facts.Subperm more) (call : Call) :
    (call.ruleMatches facts).Subperm (call.ruleMatches more) := by
  cases call with
  | addRule trigger body environment =>
    exact filterMap_subperm _ (product_replicate_subperm isMore _)
  | _ => exact .refl _

end Call

/-- What some calls give when some facts are stored: the facts that are asserted, and the
conclusions of all matches of the rules that are added. -/
def consequences (calls : List Call) (facts : List Term) : List Term :=
  calls.flatMap Call.asserted ++ (calls.flatMap (Call.ruleMatches facts)).flatMap assertedFacts

/-- Facts that hold their own consequences, each often enough. -/
def Closed (calls : List Call) (facts : List Term) : Prop :=
  (consequences calls facts).Subperm facts

/-- What is closed for more calls is closed for fewer. -/
theorem Closed.of_append {calls later : List Call} {facts : List Term}
    (closed : Closed (calls ++ later) facts) : Closed calls facts := by
  refine List.Subperm.trans ?_ closed
  rw [consequences, consequences, List.flatMap_append, List.flatMap_append, List.flatMap_append]
  exact (List.sublist_append_left _ _).subperm.append (List.sublist_append_left _ _).subperm

/-- Where drains give nothing, only the other calls matter, in any order. -/
theorem flatMap_perm_of_filter {calls other : List Call}
    (same : (calls.filter fun call => !call.isRunRules).Perm
      (other.filter fun call => !call.isRunRules))
    {β : Type} {f : Call → List β} (drains : ∀ limit, f (.runRules limit) = []) :
    (calls.flatMap f).Perm (other.flatMap f) := by
  have useless (calls : List Call) :
      (calls.filter fun call => !call.isRunRules).flatMap f = calls.flatMap f := by
    refine flatMap_filter fun call _ isRunRules => ?_
    cases call with
    | runRules limit => exact drains limit
    | _ => exact absurd rfl isRunRules
  rw [← useless calls, ← useless other]
  exact same.flatMap_right f

/-- The order of the calls does not matter for what is closed. -/
theorem Closed.of_perm {calls other : List Call} {facts : List Term} (closed : Closed calls facts)
    (same : (calls.filter fun call => !call.isRunRules).Perm
      (other.filter fun call => !call.isRunRules)) : Closed other facts := by
  have asserted := flatMap_perm_of_filter same (f := Call.asserted) fun _ => rfl
  have matched := flatMap_perm_of_filter same (f := Call.ruleMatches facts) fun _ => rfl
  exact (asserted.append (matched.flatMap_right _)).symm.subperm.trans closed

namespace Engine

variable {rules : List DefiniteRule} {calls : List Call} {fired : List Activation}
  {engine before after next : Engine}

/-! ## Matches by content -/

/-- The matches of a rule with stored facts, by content. -/
theorem map_content_allMatches (rule : Rule) (facts : Array Term) :
    (rule.allMatches facts).map Activation.content = rule.call.ruleMatches facts.toList := by
  rw [Rule.call, Call.ruleMatches, ← map_termsAt_tuples, List.filterMap_map, Rule.allMatches,
    Rule.matchesAmong, List.map_filterMap]
  refine List.filterMap_congr fun tuple _ => ?_
  rw [Rule.match?, Option.map_map]
  rfl

/-- The matches of all rules with stored facts, by content. -/
theorem map_content_activations
    (added : engine.rules.toList.map Rule.call = calls.filter Call.isAddRule) :
    engine.activations.map Activation.content =
      calls.flatMap (Call.ruleMatches engine.facts.toList) := by
  -- Only the calls that add rules have matches.
  have useless : (calls.filter Call.isAddRule).flatMap (Call.ruleMatches engine.facts.toList) =
      calls.flatMap (Call.ruleMatches engine.facts.toList) := by
    refine flatMap_filter fun call _ notAddRule => ?_
    cases call with
    | addRule trigger body environment => exact absurd rfl notAddRule
    | _ => rfl
  rw [← useless, ← added, List.flatMap_map, activations, List.map_flatMap]
  exact List.flatMap_congr fun rule _ => map_content_allMatches rule engine.facts

/-! ## Derivations -/

open scoped List in
/-- An engine after some definite calls, in the course of which some activations have fired. -/
structure Derived (rules : List DefiniteRule) (calls : List Call) (fired : List Activation)
    (engine : Engine) : Prop extends engine.Sound rules Set.univ where
  /-- The rules are those that the calls have added. -/
  added : engine.rules.toList.map Rule.call = calls.filter Call.isAddRule
  /-- The facts are those that were asserted and the conclusions of what has fired. -/
  stored : engine.facts.toList ~
    calls.flatMap Call.asserted ++ (fired.map Activation.content).flatMap assertedFacts
  /-- Each match has fired or waits. -/
  settled : fired ++ engine.agenda.waiting ~ engine.activations
  /-- The firings are counted. -/
  firings : engine.firings = fired.length
  /-- What has fired is no more than the matches with any facts that are closed. -/
  least : ∀ facts, Closed calls facts →
    (fired.map Activation.content).Subperm (calls.flatMap (Call.ruleMatches facts))

/-- A new engine holds nothing. -/
theorem derived_new (rules : List DefiniteRule) (config : Config) :
    (new config).Derived rules [] [] where
  toSound := sound_new rules Set.univ config
  added := rfl
  stored := .refl _
  settled := .refl _
  firings := rfl
  least _ _ := .refl _

/-- The facts are no more than any that are closed. -/
theorem Derived.facts_subperm (derived : engine.Derived rules calls fired) {facts : List Term}
    (closed : Closed calls facts) : engine.facts.toList.Subperm facts := by
  -- Each part of the facts is at most the same part of the consequences of the closed ones.
  refine derived.stored.subperm.trans (List.Subperm.trans ?_ closed)
  exact (List.Subperm.refl _).append
    (flatMap_subperm (derived.least facts closed) fun _ => .refl _)

/-- New matches wait, and the others have fired or wait as before. -/
theorem Adds.settled (adds : before.Adds after)
    (settled : (fired ++ before.agenda.waiting).Perm before.activations) :
    (fired ++ after.agenda.waiting).Perm after.activations := by
  obtain ⟨added, agenda, perm⟩ := adds.queues
  rw [agenda, Agenda.waiting_pushAll]
  have moved : (added.reverse ++ before.agenda.waiting).Perm (before.agenda.waiting ++ added) :=
    List.perm_append_comm.trans ((List.reverse_perm added).append_left _)
  refine (moved.append_left fired).trans ?_
  rw [← List.append_assoc]
  exact (settled.append_right added).trans perm.symm

/-- Further calls leave room for what has fired. -/
theorem Derived.least_append (derived : engine.Derived rules calls fired) (later : List Call)
    (facts : List Term) (closed : Closed (calls ++ later) facts) :
    (fired.map Activation.content).Subperm
      ((calls ++ later).flatMap (Call.ruleMatches facts)) := by
  rw [List.flatMap_append]
  exact (derived.least facts closed.of_append).trans (List.sublist_append_left _ _).subperm

/-- Asserting a ground fact stores it once. -/
theorem Derived.assertFact (derived : engine.Derived rules calls fired) {fact : Term}
    (ground : fact.isGround) :
    (engine.assertFact fact).2.Derived rules (calls ++ [.assertFact fact]) fired where
  toSound := (derived.toSound.assertFact ground trivial).2
  added := by
    rw [assertFact_rules, derived.added, List.filter_append]
    exact (List.append_nil _).symm
  stored := by
    -- The fact is stored last, and counts among the asserted ones, before all conclusions.
    rw [assertFact_facts ground, Array.toList_push, List.flatMap_append, List.append_assoc]
    refine (derived.stored.append_right [fact]).trans ?_
    rw [List.append_assoc]
    exact List.perm_append_comm.append_left _
  settled := (derived.regular.wellFormed.assertFact_adds fact).settled derived.settled
  firings := by rw [assertFact_firings, derived.firings]
  least := derived.least_append _

/-- Adding a definite rule stores it. -/
theorem Derived.addRule (derived : engine.Derived rules calls fired) {given : DefiniteRule}
    (member : given ∈ rules) :
    (engine.addRule given.trigger given.body ∅).1.Derived rules (calls ++ [given.call]) fired where
  toSound := derived.toSound.addRule member
  added := by
    rw [addRule_rules, Array.toList_push, List.map_append, derived.added, List.filter_append]
    rfl
  stored := by
    have nothing : [given.call].flatMap Call.asserted = [] := rfl
    rw [addRule_facts, List.flatMap_append, nothing, List.append_nil]
    exact derived.stored
  settled := (derived.regular.wellFormed.addRule_adds _ _ _).settled derived.settled
  firings := derived.firings
  least := derived.least_append _

/-- A drain gives nothing itself. -/
theorem Derived.runRules (derived : engine.Derived rules calls fired) (limit : Nat) :
    engine.Derived rules (calls ++ [.runRules limit]) fired where
  toSound := derived.toSound
  added := by
    rw [derived.added, List.filter_append]
    exact (List.append_nil _).symm
  stored := by
    have nothing : [Call.runRules limit].flatMap Call.asserted = [] := rfl
    rw [List.flatMap_append, nothing, List.append_nil]
    exact derived.stored
  settled := derived.settled
  firings := derived.firings
  least := derived.least_append _

/-- **A firing stores the conclusions of its match**, and is one more. -/
theorem Derived.fire (derived : engine.Derived rules calls fired) {activation : Activation}
    (taken : engine.takeNewest? = some (activation, next)) :
    ∃ last : Engine, evaluateBody next activation.bindings activation.body = (.ok (), last) ∧
      last.Derived rules calls (fired ++ [activation]) := by
  have isMatch := (derived.regular.takeNewest? taken).1
  obtain ⟨last, evaluated, sound, adds, sameRules, facts⟩ :=
    (derived.toSound.takeNewest? taken).evaluateBody (derived.regular.acyclic_bindings isMatch)
      (derived.toSound.conclusions (isModel_univ rules []) isMatch)
  obtain ⟨waiting, before, rfl⟩ := takeNewest?_eq_some_iff.mp taken
  -- The activation moves from those that wait to those that have fired.
  have settled : ((fired ++ [activation]) ++ waiting).Perm engine.activations := by
    rw [List.append_assoc, List.singleton_append, ← before]
    exact derived.settled
  refine ⟨last, evaluated, sound, ?_, ?_, ?_, ?_, ?_⟩
  · rw [sameRules]
    exact derived.added
  · rw [facts, List.map_append, List.flatMap_append, List.map_singleton, List.flatMap_singleton,
      ← List.append_assoc]
    exact derived.stored.append_right _
  · exact adds.settled settled
  · rw [adds.firings, List.length_append, ← derived.firings]
    rfl
  · -- The activations are the matches with stored facts, which are no more than the closed ones.
    intro facts closed
    have someOf := (List.sublist_append_left (fired ++ [activation]) waiting).map Activation.content
    have matched := settled.map Activation.content
    rw [map_content_activations derived.added] at matched
    refine (someOf.subperm.trans matched.subperm).trans
      (flatMap_subperm (.refl calls) fun call => ?_)
    exact call.ruleMatches_subperm (derived.facts_subperm closed)

/-- **A drain stores the conclusions of what it fires.** -/
theorem Derived.drain (derived : engine.Derived rules calls fired) (limit : Nat) :
    ∃ fired, (ProductionSystem.drain engine limit).2.Derived rules calls fired := by
  induction limit generalizing engine fired with
  | zero => exact ⟨fired, derived⟩
  | succ limit ih =>
    rcases taken : ProductionSystem.takeNewest? engine with _ | ⟨activation, next⟩
    · rw [drain_of_none taken]
      exact ⟨fired, derived⟩
    · obtain ⟨last, evaluated, derivedLast⟩ := derived.fire taken
      rw [drain_succ_of_ok taken evaluated]
      exact ih derivedLast

/-- Definite calls give what they say. -/
theorem Derived.perform (derived : engine.Derived rules calls fired) {facts : List Term}
    (ground : ∀ fact ∈ facts, fact.isGround) {call : Call}
    (definite : call.IsDefinite rules facts) :
    ∃ fired, (call.perform engine).2.Derived rules (calls ++ [call]) fired := by
  cases definite with
  | addRule member => exact ⟨fired, derived.addRule member⟩
  | assertFact member => exact ⟨fired, derived.assertFact (ground _ member)⟩
  | runRules limit =>
    obtain ⟨firedAfter, after⟩ := derived.drain limit
    exact ⟨firedAfter, after.runRules limit⟩

/-- **Every history of definite calls gives what the calls say.** -/
theorem Derived.performAll (derived : engine.Derived rules calls fired) {facts : List Term}
    (ground : ∀ fact ∈ facts, fact.isGround) {later : List Call}
    (definite : ∀ call ∈ later, call.IsDefinite rules facts) :
    ∃ fired, (performAll engine later).2.Derived rules (calls ++ later) fired := by
  induction later generalizing engine calls fired with
  | nil => exact ⟨fired, by rwa [List.append_nil]⟩
  | cons call later ih =>
    obtain ⟨definiteFirst, definiteRest⟩ := List.forall_mem_cons.mp definite
    obtain ⟨firedNext, next⟩ := derived.perform ground definiteFirst
    -- The call has been performed, and goes over to the other ones.
    rw [List.append_cons]
    exact ih next definiteRest

/-! ## Multisets of facts -/

/-- Where nothing waits, every match has fired. -/
theorem Derived.fired_perm (derived : engine.Derived rules calls fired)
    (empty : engine.agenda.waiting = []) : (fired.map Activation.content).Perm
      (calls.flatMap (Call.ruleMatches engine.facts.toList)) := by
  have settled := derived.settled
  rw [empty, List.append_nil] at settled
  rw [← map_content_activations derived.added]
  exact settled.map _

/-- Where nothing waits, the facts are closed. -/
theorem Derived.closed (derived : engine.Derived rules calls fired)
    (empty : engine.agenda.waiting = []) : Closed calls engine.facts.toList :=
  (((derived.fired_perm empty).flatMap_right _).append_left _).symm.subperm.trans
    derived.stored.symm.subperm

/-- Where nothing waits, the rules have fired once for every match. -/
theorem Derived.firings_eq (derived : engine.Derived rules calls fired)
    (empty : engine.agenda.waiting = []) :
    engine.firings = (calls.flatMap (Call.ruleMatches engine.facts.toList)).length := by
  rw [derived.firings, ← (derived.fired_perm empty).length_eq, List.length_map]

/-- An interleaving of definite calls with drains that end leaves nothing waiting. -/
theorem exists_derived (config : Config) {facts : List Term}
    (ground : ∀ fact ∈ facts, fact.isGround) {limit : Nat}
    (interleaving : (calls.filter fun call => !call.isRunRules).Perm
      (rules.map DefiniteRule.call ++ facts.map .assertFact))
    (finished : ∀ response ∈ (ForwardChaining.performAll (new config)
      (calls ++ [Call.runRules limit])).1, response.isFinished) :
    let engine := (ForwardChaining.performAll (new config) (calls ++ [Call.runRules limit])).2
    engine.agenda.waiting = [] ∧
      ∃ fired, engine.Derived rules (calls ++ [Call.runRules limit]) fired := by
  have definite : ∀ call ∈ calls ++ [Call.runRules limit], call.IsDefinite rules facts :=
    List.forall_mem_append.mpr ⟨isDefinite_of_interleaving interleaving,
      List.forall_mem_singleton.mpr (.runRules limit)⟩
  have succeeds := ((sound_new rules Set.univ config).performAll (isModel_univ rules facts) ground
    definite).succeeds
  exact ⟨waiting_of_last_drain (not_isFailed_of_not_isError succeeds) finished,
    (derived_new rules config).performAll ground definite⟩

/-- **Order does not matter, and copies count.** Take definite rules and ground facts, possibly with
repetitions, and two histories that add the rules and assert the facts in any order, with drains
anywhere, the last call a drain, and every drain coming to its end. Then both store the same facts,
each equally often, and rules have fired equally often. -/
theorem perm_facts_of_interleavings (config other : Config) {facts : List Term}
    (ground : ∀ fact ∈ facts, fact.isGround) {first second : List Call} {limit bound : Nat}
    (interleavingFirst : (first.filter fun call => !call.isRunRules).Perm
      (rules.map DefiniteRule.call ++ facts.map .assertFact))
    (interleavingSecond : (second.filter fun call => !call.isRunRules).Perm
      (rules.map DefiniteRule.call ++ facts.map .assertFact))
    (finishedFirst : ∀ response ∈ (performAll (new config) (first ++ [Call.runRules limit])).1,
      response.isFinished)
    (finishedSecond : ∀ response ∈ (performAll (new other) (second ++ [Call.runRules bound])).1,
      response.isFinished) :
    let left := (performAll (new config) (first ++ [Call.runRules limit])).2
    let right := (performAll (new other) (second ++ [Call.runRules bound])).2
    left.facts.toList.Perm right.facts.toList ∧ left.firings = right.firings := by
  intro left right
  obtain ⟨emptyLeft, firedLeft, derivedLeft⟩ :=
    exists_derived config ground interleavingFirst finishedFirst
  obtain ⟨emptyRight, firedRight, derivedRight⟩ :=
    exists_derived other ground interleavingSecond finishedSecond
  have same : ((first ++ [Call.runRules limit]).filter fun call => !call.isRunRules).Perm
      ((second ++ [Call.runRules bound]).filter fun call => !call.isRunRules) := by
    simpa [Call.isRunRules] using interleavingFirst.trans interleavingSecond.symm
  -- The facts of each engine are closed, so the other one holds no more.
  have facts : left.facts.toList.Perm right.facts.toList :=
    (derivedLeft.facts_subperm ((derivedRight.closed emptyRight).of_perm same.symm)).antisymm
      (derivedRight.facts_subperm ((derivedLeft.closed emptyLeft).of_perm same))
  -- So they have equally many matches, each of which has fired once.
  refine ⟨facts, ?_⟩
  rw [derivedLeft.firings_eq emptyLeft, derivedRight.firings_eq emptyRight]
  have matched := flatMap_perm_of_filter same
    (f := Call.ruleMatches right.facts.toList) fun _ => rfl
  rw [← matched.length_eq]
  exact Nat.le_antisymm
    (flatMap_subperm (.refl _) fun call => call.ruleMatches_subperm facts.subperm).length_le
    (flatMap_subperm (.refl _) fun call => call.ruleMatches_subperm facts.symm.subperm).length_le

/-- A fact that is asserted twice matches twice, before and after its rule. -/
theorem perm_facts_of_interleavings_grandparents :
    let parent (older younger : String) : Term :=
      .list [.atom (.symbol "parent"), .atom (.symbol older), .atom (.symbol younger)]
    let facts := [parent "ann" "bob", parent "ann" "bob", parent "bob" "cid"]
    let first : List Call := grandparents.call :: facts.map .assertFact
    let second : List Call := [.assertFact (parent "ann" "bob"), grandparents.call, .runRules 1,
      .assertFact (parent "ann" "bob"), .assertFact (parent "bob" "cid")]
    let left := (performAll (new {}) (first ++ [Call.runRules 2])).2
    let right := (performAll (new {}) (second ++ [Call.runRules 2])).2
    left.facts.toList.Perm right.facts.toList ∧ left.firings = right.firings := by
  intro parent facts first second
  have ofFirst : (first.filter fun call => !call.isRunRules).Perm
      ([grandparents].map DefiniteRule.call ++ facts.map .assertFact) := .refl _
  have ofSecond : (second.filter fun call => !call.isRunRules).Perm
      ([grandparents].map DefiniteRule.call ++ facts.map .assertFact) := .swap _ _ _
  have firstEnds : ∀ response ∈ (performAll (new {}) (first ++ [Call.runRules 2])).1,
      response.isFinished := by
    rw [(mirrors_performAll {} _).result]
    decide +kernel
  have secondEnds : ∀ response ∈ (performAll (new {}) (second ++ [Call.runRules 2])).1,
      response.isFinished := by
    rw [(mirrors_performAll {} _).result]
    decide +kernel
  exact perm_facts_of_interleavings {} {} (by decide) ofFirst ofSecond firstEnds secondEnds

end Engine

end ForwardChaining
