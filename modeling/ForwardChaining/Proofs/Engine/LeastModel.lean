import ForwardChaining.Proofs.Engine.Saturation
import Mathlib.Order.Bounds.Defs

/-! # The least model

A rule is definite when its body only asserts terms over the variables of its trigger. Definite
rules and ground facts have a least model: the least set of terms that holds the facts and is closed
under the rules. Forward chaining computes it (`isLeast_facts`): whatever the order in which facts
are asserted, rules added and the agenda drained, the stored facts are the least model once the last
drain has come to its end, and no call fails.

That the facts lie in every model is kept step by step (`Sound`). That they are a model is
saturation: `Accounted` says that nothing is missing where nothing waits. -/

namespace ForwardChaining

open ProductionSystem

/-- The fact that a form asserts. -/
def Term.assertedFact : Term → Term
  | .list [_, fact] => fact
  | form => form

/-- It is the fact that the form is known to assert. -/
theorem Term.Asserts.assertedFact_eq {form fact : Term} (asserts : form.Asserts fact) :
    form.assertedFact = fact := by
  cases asserts <;> rfl

/-- The facts that the forms of a body assert under the bindings of a match. -/
def assertedFacts : List Term × Bindings → List Term
  | (body, bindings) => body.map fun form => bindings.substitute form.assertedFact

/-- A rule that only asserts facts, over the variables of its trigger. -/
structure DefiniteRule where
  /-- What the rule waits for. -/
  trigger : Trigger
  /-- The forms that assert its conclusions. -/
  body : List Term
  /-- Each form asserts a fact whose variables occur in the trigger. -/
  definite : ∀ form ∈ body, ∃ fact, form.Asserts fact ∧
    ∀ name ∈ fact.occurrences, ∃ clause ∈ trigger.clauses, name ∈ clause.occurrences

/-- The call that adds a definite rule. -/
def DefiniteRule.call (rule : DefiniteRule) : Call := .addRule rule.trigger rule.body ∅

/-- A set of terms that holds some facts and is closed under some rules. -/
structure IsModel (rules : List DefiniteRule) (facts : List Term) (model : Set Term) : Prop where
  /-- It holds the facts. -/
  facts : ∀ fact ∈ facts, fact ∈ model
  /-- It holds the conclusions of each rule from any tuple that it holds. -/
  closed : ∀ rule ∈ rules, ∀ tuple : List Term, (∀ fact ∈ tuple, fact ∈ model) →
    ∀ bindings : Bindings, unifyAll tuple rule.trigger.clauses ∅ = some bindings →
      ∀ form ∈ rule.body, ∀ fact, form.Asserts fact → bindings.substitute fact ∈ model

/-- The set of all terms is a model. -/
theorem isModel_univ (rules : List DefiniteRule) (facts : List Term) :
    IsModel rules facts Set.univ where
  facts _ _ := trivial
  closed _ _ _ _ _ _ _ _ _ _ := trivial

/-- A call that adds one of the rules, asserts one of the facts, or drains the agenda. -/
inductive Call.IsDefinite (rules : List DefiniteRule) (facts : List Term) : Call → Prop where
  /-- Adding a rule. -/
  | addRule {rule : DefiniteRule} (member : rule ∈ rules) : IsDefinite rules facts rule.call
  /-- Asserting a fact. -/
  | assertFact {fact : Term} (member : fact ∈ facts) : IsDefinite rules facts (.assertFact fact)
  /-- Draining the agenda. -/
  | runRules (limit : Nat) : IsDefinite rules facts (.runRules limit)

/-- Definite calls bring acyclic environments. -/
theorem Call.IsDefinite.supplies {rules : List DefiniteRule} {facts : List Term} {call : Call}
    (definite : call.IsDefinite rules facts) : call.Supplies Bindings.Acyclic := by
  cases definite with
  | addRule member => exact Bindings.acyclic_empty
  | _ => trivial

/-- Whether a call drains the agenda. -/
def Call.isRunRules : Call → Bool
  | .runRules _ => true
  | _ => false

/-- What a call leaves in the engine: its fact or its rule. -/
def Call.Stored (engine : Engine) : Call → Prop
  | .assertFact fact => fact ∈ engine.facts
  | .addRule trigger body environment => ∃ rule ∈ engine.rules,
    rule.trigger = trigger ∧ rule.body = body ∧ rule.environment = environment
  | _ => True

namespace Engine

variable {rules : List DefiniteRule} {facts : List Term} {model : Set Term} {engine next : Engine}

/-- An engine with definite rules only whose facts lie in a model. -/
structure Sound (rules : List DefiniteRule) (model : Set Term) (engine : Engine) : Prop where
  /-- The engine is regular. -/
  regular : engine.Regular
  /-- Its rules are among the given ones. -/
  rules : ∀ rule ∈ engine.rules, ∃ given ∈ rules, rule.trigger = given.trigger ∧
    rule.body = given.body ∧ rule.environment = ∅
  /-- Its facts lie in the model. -/
  facts : ∀ fact ∈ engine.facts, fact ∈ model

/-- A new engine holds nothing. -/
theorem sound_new (rules : List DefiniteRule) (model : Set Term) (config : Config) :
    (new config).Sound rules model where
  regular := regular_new config
  rules := by simp [new]
  facts := by simp [new]

/-- A ground fact of the model can be asserted. -/
theorem Sound.assertFact (sound : engine.Sound rules model) {fact : Term} (ground : fact.isGround)
    (inModel : fact ∈ model) : (engine.assertFact fact).1 = .ok engine.facts.size ∧
      (engine.assertFact fact).2.Sound rules model := by
  refine ⟨by rw [assertFact_of_ground ground], ?_, ?_, ?_⟩
  · exact regular_invariant.assertFact sound.regular fact
  · rw [assertFact_rules]
    exact sound.rules
  · intro other member
    rw [assertFact_facts ground] at member
    rcases Array.mem_push.mp member with old | rfl
    · exact sound.facts other old
    · exact inModel

/-- A definite rule can be added. -/
theorem Sound.addRule (sound : engine.Sound rules model) {given : DefiniteRule}
    (member : given ∈ rules) :
    (engine.addRule given.trigger given.body ∅).1.Sound rules model where
  regular := regular_invariant.addRule sound.regular Bindings.acyclic_empty _ _
  rules rule isRule := by
    rcases Array.mem_push.mp isRule with old | rfl
    · exact sound.rules rule old
    · exact ⟨given, member, rfl, rfl, rfl⟩
  facts := sound.facts

/-- Taking an activation changes neither facts nor rules. -/
theorem Sound.takeNewest? (sound : engine.Sound rules model) {activation : Activation}
    (taken : engine.takeNewest? = some (activation, next)) : next.Sound rules model := by
  have regular := (sound.regular.takeNewest? taken).2
  obtain ⟨waiting, -, rfl⟩ := takeNewest?_eq_some_iff.mp taken
  exact ⟨regular, sound.rules, sound.facts⟩

/-- The forms of a match assert ground facts of the model. -/
theorem Sound.conclusions (sound : engine.Sound rules model) (isModel : IsModel rules facts model)
    {activation : Activation} (member : activation ∈ engine.activations) :
    ∀ form ∈ activation.body, ∃ fact, form.Asserts fact ∧
      (activation.bindings.substitute fact).isGround ∧
      activation.bindings.substitute fact ∈ model := by
  obtain ⟨rule, isRule, tuple, stored, matched⟩ := mem_activations.mp member
  obtain ⟨unified, -, sameBody⟩ := Rule.match?_eq_some_iff.mp matched
  obtain ⟨given, isGiven, trigger, body, environment⟩ := sound.rules rule isRule
  rw [trigger, environment] at unified
  rw [sameBody, body]
  intro form inBody
  obtain ⟨fact, asserts, covered⟩ := given.definite form inBody
  refine ⟨fact, asserts, ?_, ?_⟩
  · -- The facts of the tuple are ground, and bind every variable of the trigger.
    have ground : ∀ fact ∈ tuple, fact.isGround :=
      fun fact inTuple => sound.regular.wellFormed.ground fact (stored fact inTuple)
    exact isGround_substitute_of_unifyAll Bindings.acyclic_empty ground unified covered
  · -- The facts of the tuple lie in the model, which is closed under the rule.
    have inModel : ∀ fact ∈ tuple, fact ∈ model :=
      fun fact inTuple => sound.facts fact (stored fact inTuple)
    exact isModel.closed given isGiven tuple inModel _ unified form inBody fact asserts

/-- A form that asserts a ground fact does not fail. Its variables are replaced once by the drain
and once more by the form. -/
theorem evaluate_of_asserts (engine : Engine) {bindings : Bindings} (acyclic : bindings.Acyclic)
    {form fact : Term} (asserts : form.Asserts fact)
    (ground : (bindings.substitute fact).isGround) :
    ProductionSystem.evaluate engine bindings (bindings.substitute form) =
      (.ok .nil, (engine.assertFact (bindings.substitute fact)).2) := by
  have stored : (engine.assertFact (bindings.substitute fact)).1 = .ok engine.facts.size := by
    rw [assertFact_of_ground ground]
  rw [(asserts.substitute bindings).evaluate, acyclic.substitute_substitute]
  exact Prod.ext (congrArg (Except.map fun _ => Value.nil) stored) rfl

/-- Forms that assert ground facts of the model do not fail. What they assert is stored, and nothing
else changes but for the matches that wait. -/
theorem Sound.evaluateBody (sound : engine.Sound rules model) {bindings : Bindings}
    (acyclic : bindings.Acyclic) {body : List Term}
    (allowed : ∀ form ∈ body, ∃ fact, form.Asserts fact ∧
      (bindings.substitute fact).isGround ∧ bindings.substitute fact ∈ model) :
    ∃ last : Engine, evaluateBody engine bindings body = (.ok (), last) ∧
      last.Sound rules model ∧ engine.Adds last ∧ last.rules = engine.rules ∧
      last.facts.toList = engine.facts.toList ++ assertedFacts (body, bindings) := by
  induction body generalizing engine with
  | nil =>
    exact ⟨engine, rfl, sound, .refl sound.regular.wellFormed, rfl, (List.append_nil _).symm⟩
  | cons form forms ih =>
    obtain ⟨⟨fact, asserts, ground, inModel⟩, others⟩ := List.forall_mem_cons.mp allowed
    have first := sound.regular.wellFormed.assertFact_adds (bindings.substitute fact)
    obtain ⟨last, rest, soundLast, adds, sameRules, facts⟩ :=
      ih (sound.assertFact ground inModel).2 others
    refine ⟨last, ?_, soundLast, first.trans adds, ?_, ?_⟩
    · rw [ProductionSystem.evaluateBody, evaluate_of_asserts engine acyclic asserts ground]
      exact rest
    · rw [sameRules, assertFact_rules]
    · rw [facts, assertFact_facts ground, Array.toList_push, List.append_assoc, assertedFacts,
        assertedFacts, List.map_cons, asserts.assertedFact_eq]
      rfl

/-- **A drain of definite rules stays in the model, and no body fails.** -/
theorem Sound.drain (sound : engine.Sound rules model) (isModel : IsModel rules facts model)
    (limit : Nat) : ¬ (ProductionSystem.drain engine limit).1.ending.isFailed ∧
      (ProductionSystem.drain engine limit).2.Sound rules model := by
  induction limit generalizing engine with
  | zero =>
    rcases taken : ProductionSystem.takeNewest? engine with _ | ⟨activation, next⟩
    · rw [drain_of_none taken]
      exact ⟨Bool.false_ne_true, sound⟩
    · rw [drain_zero_of_some taken]
      exact ⟨Bool.false_ne_true, sound⟩
  | succ limit ih =>
    rcases taken : ProductionSystem.takeNewest? engine with _ | ⟨activation, next⟩
    · rw [drain_of_none taken]
      exact ⟨Bool.false_ne_true, sound⟩
    · have isMatch := (sound.regular.takeNewest? taken).1
      obtain ⟨last, fired, soundLast, -⟩ := (sound.takeNewest? taken).evaluateBody
        (sound.regular.acyclic_bindings isMatch) (sound.conclusions isModel isMatch)
      rw [drain_succ_of_ok taken fired]
      exact ih soundLast

/-! ## Histories -/

/-- What becomes of definite calls: none fails, the facts stay in the model, and what the calls
bring is stored. -/
structure Fulfils (rules : List DefiniteRule) (model : Set Term) (engine : Engine)
    (calls : List Call) : Prop where
  /-- No call fails. -/
  succeeds : ∀ response ∈ (performAll engine calls).1, ¬ response.isError
  /-- The facts stay in the model. -/
  sound : (performAll engine calls).2.Sound rules model
  /-- All facts and rules are stored. -/
  stored : ∀ call ∈ calls, call.Stored (performAll engine calls).2

/-- What a call left stays. -/
theorem Grows.stored {before after : Engine} (grows : before.Grows after) {call : Call}
    (stored : call.Stored before) : call.Stored after := by
  cases call with
  | assertFact fact => exact grows.facts fact stored
  | addRule trigger body environment =>
    obtain ⟨rule, isRule, same⟩ := stored
    exact ⟨rule, grows.rules rule isRule, same⟩
  | _ => trivial

/-- A definite call does not fail, stays in the model, and leaves what it brings. -/
theorem Sound.perform (sound : engine.Sound rules model) (isModel : IsModel rules facts model)
    (ground : ∀ fact ∈ facts, fact.isGround) {call : Call}
    (definite : call.IsDefinite rules facts) :
    ¬ (call.perform engine).1.isError ∧ (call.perform engine).2.Sound rules model ∧
      call.Stored (call.perform engine).2 := by
  cases definite with
  | addRule member =>
    refine ⟨Bool.false_ne_true, sound.addRule member, _, Array.mem_push_self, ?_⟩
    exact ⟨rfl, rfl, rfl⟩
  | @assertFact fact member =>
    obtain ⟨stored, soundNext⟩ := sound.assertFact (ground fact member)
      (isModel.facts fact member)
    refine ⟨?_, soundNext, mem_facts_of_assertFact stored⟩
    show ¬ (Response.asserted (engine.assertFact fact).1).isError
    rw [stored]
    exact Bool.false_ne_true
  | runRules limit =>
    obtain ⟨clean, soundNext⟩ := sound.drain isModel limit
    refine ⟨?_, soundNext, trivial⟩
    show ¬ (Response.drained (ProductionSystem.drain engine limit).1).isError
    rcases drained : (ProductionSystem.drain engine limit).1 with ⟨fired, _ | fault | _⟩
    · exact Bool.false_ne_true
    · simp [drained, Ending.isFailed] at clean
    · exact Bool.false_ne_true

/-- **Definite calls do not fail, stay in every model, and leave what they bring.** -/
theorem Sound.performAll (sound : engine.Sound rules model) (isModel : IsModel rules facts model)
    (ground : ∀ fact ∈ facts, fact.isGround) {calls : List Call}
    (definite : ∀ call ∈ calls, call.IsDefinite rules facts) :
    Fulfils rules model engine calls := by
  induction calls generalizing engine with
  | nil => exact ⟨nofun, sound, nofun⟩
  | cons call calls ih =>
    obtain ⟨definiteFirst, definiteRest⟩ := List.forall_mem_cons.mp definite
    obtain ⟨succeeds, soundNext, stored⟩ := sound.perform isModel ground definiteFirst
    have rest := ih soundNext definiteRest
    obtain ⟨-, grows⟩ := (grows_invariant (call.perform engine).2).performAll
      (fun call member => (definiteRest call member).supplies) ⟨soundNext.regular, .refl _⟩
    exact ⟨List.forall_mem_cons.mpr ⟨succeeds, rest.succeeds⟩, rest.sound,
      List.forall_mem_cons.mpr ⟨grows.stored stored, rest.stored⟩⟩

/-- When nothing waits, facts that are stored with all their consequences are a model. -/
theorem Accounted.isModel (accounted : engine.Accounted [])
    (empty : engine.agenda.waiting = []) (storedFacts : ∀ fact ∈ facts, fact ∈ engine.facts)
    (storedRules : ∀ rule ∈ rules, rule.call.Stored engine) :
    IsModel rules facts {fact | fact ∈ engine.facts} where
  facts := storedFacts
  closed given isGiven tuple stored bindings unified form inBody fact asserts := by
    obtain ⟨rule, isRule, trigger, body, environment⟩ := storedRules given isGiven
    rw [← trigger, ← environment] at unified
    rw [← body] at inBody
    exact (accounted.effective empty isRule stored unified form inBody).asserted fact asserts

/-- The calls of an interleaving are definite. -/
theorem isDefinite_of_interleaving {calls : List Call}
    (interleaving : (calls.filter fun call => !call.isRunRules).Perm
      (rules.map DefiniteRule.call ++ facts.map .assertFact)) :
    ∀ call ∈ calls, call.IsDefinite rules facts := by
  intro call member
  by_cases isRunRules : call.isRunRules
  · cases call with
    | runRules limit => exact .runRules limit
    | _ => simp [Call.isRunRules] at isRunRules
  · have others : call ∈ calls.filter fun call => !call.isRunRules :=
      List.mem_filter.mpr ⟨member, by simpa using isRunRules⟩
    rcases List.mem_append.mp (interleaving.mem_iff.mp others) with isRule | isFact
    · obtain ⟨rule, isGiven, rfl⟩ := List.mem_map.mp isRule
      exact .addRule isGiven
    · obtain ⟨fact, isGiven, rfl⟩ := List.mem_map.mp isFact
      exact .assertFact isGiven

/-- Nothing waits after a last drain in which no body fails and which comes to its end. -/
theorem waiting_of_last_drain {calls : List Call} {limit : Nat}
    (clean : ∀ ending ∈ endings engine (calls ++ [Call.runRules limit]), ¬ ending.isFailed)
    (finished : ∀ response ∈ (performAll engine (calls ++ [Call.runRules limit])).1,
      response.isFinished) :
    (performAll engine (calls ++ [Call.runRules limit])).2.agenda.waiting = [] := by
  rw [endings_append] at clean
  rw [performAll_append] at finished ⊢
  have last : (Response.drained
      (ProductionSystem.drain (performAll engine calls).2 limit).1).isFinished :=
    finished _ (List.mem_append_right _ List.mem_cons_self)
  have notFailed := clean _ (List.mem_append_right _ List.mem_cons_self)
  refine waiting_of_drained ?_
  rcases drained : ProductionSystem.drain (performAll engine calls).2 limit with
    ⟨⟨fired, _ | fault | _⟩, next⟩
  · rfl
  · rw [drained] at notFailed
    exact absurd rfl notFailed
  · -- A drain that reached its limit has not come to its end.
    rw [drained] at last
    exact absurd last Bool.false_ne_true

/-- **Forward chaining computes the least model.** Definite rules may be added, ground facts
asserted and the agenda drained in any order. When the last call is a drain and every drain comes to
its end, no call fails, and the facts are the least set that holds the asserted ones and is closed
under the rules. -/
theorem isLeast_facts (config : Config) {rules : List DefiniteRule} {facts : List Term}
    (ground : ∀ fact ∈ facts, fact.isGround) {calls : List Call} {limit : Nat}
    (interleaving : (calls.filter fun call => !call.isRunRules).Perm
      (rules.map DefiniteRule.call ++ facts.map .assertFact))
    (finished : ∀ response ∈ (performAll (new config) (calls ++ [Call.runRules limit])).1,
      response.isFinished) :
    (∀ response ∈ (performAll (new config) (calls ++ [Call.runRules limit])).1,
      ¬ response.isError) ∧
      IsLeast {model | IsModel rules facts model}
        {fact | fact ∈ (performAll (new config) (calls ++ [Call.runRules limit])).2.facts} := by
  have definite : ∀ call ∈ calls ++ [Call.runRules limit], call.IsDefinite rules facts :=
    List.forall_mem_append.mpr ⟨isDefinite_of_interleaving interleaving,
      List.forall_mem_singleton.mpr (.runRules limit)⟩
  have acyclic : ∀ call ∈ calls ++ [Call.runRules limit], call.Supplies Bindings.Acyclic :=
    fun call member => (definite call member).supplies
  have fulfils {model : Set Term} (isModel : IsModel rules facts model) :=
    (sound_new rules model config).performAll isModel ground definite
  -- That no call fails needs no model, so the set of all terms serves as one.
  obtain ⟨succeeds, -, stored⟩ := fulfils (isModel_univ rules facts)
  refine ⟨succeeds, ?_, fun model isModel => (fulfils isModel).sound.facts⟩
  -- The last call is a drain to the end, so the account of all matches is settled.
  have clean := not_isFailed_of_not_isError succeeds
  have accounted := (accounted_new config).performAll acyclic clean
  have empty := waiting_of_last_drain clean finished
  have isCall : ∀ call ∈ rules.map DefiniteRule.call ++ facts.map .assertFact,
      call.Stored (performAll (new config) (calls ++ [Call.runRules limit])).2 := by
    intro call member
    have inCalls := List.mem_of_mem_filter (interleaving.mem_iff.mpr member)
    exact stored call (List.mem_append_left _ inCalls)
  refine accounted.isModel empty ?_ ?_
  · exact fun fact isFact => isCall _ (List.mem_append_right _ (List.mem_map_of_mem isFact))
  · exact fun rule isRule => isCall _ (List.mem_append_left _ (List.mem_map_of_mem isRule))

/-- The parents of parents are grandparents. -/
def grandparents : DefiniteRule where
  trigger := ⟨[.list [.atom (.symbol "parent"), .var "?x", .var "?y"],
    .list [.atom (.symbol "parent"), .var "?y", .var "?z"]], List.cons_ne_nil _ _⟩
  body := [.list [.atom (.symbol "assert!"),
    .list [.atom (.symbol "grandparent"), .var "?x", .var "?z"]]]
  definite := by
    intro form inBody
    rw [List.mem_singleton.mp inBody]
    exact ⟨_, .assert _, by simp [Term.occurrences, Term.itemOccurrences]⟩

/-- The grandparents are the least model, also when the agenda is drained on the way. -/
theorem isLeast_facts_grandparents :
    let parent (older younger : String) : Term :=
      .list [.atom (.symbol "parent"), .atom (.symbol older), .atom (.symbol younger)]
    let facts := [parent "ann" "bob", parent "bob" "cid"]
    let calls : List Call := [.assertFact (parent "ann" "bob"), grandparents.call, .runRules 1,
      .assertFact (parent "bob" "cid")]
    (∀ response ∈ (performAll (new {}) (calls ++ [Call.runRules 1])).1, ¬ response.isError) ∧
      IsLeast {model | IsModel [grandparents] facts model}
        {fact | fact ∈ (performAll (new {}) (calls ++ [Call.runRules 1])).2.facts} := by
  intro parent facts calls
  have ground : ∀ fact ∈ facts, fact.isGround := by decide
  have interleaved : (calls.filter fun call => !call.isRunRules).Perm
      ([grandparents].map DefiniteRule.call ++ facts.map .assertFact) := .swap _ _ _
  have ends : ∀ response ∈ (performAll (new {}) (calls ++ [Call.runRules 1])).1,
      response.isFinished := by
    rw [(mirrors_performAll {} _).result]
    decide +kernel
  exact isLeast_facts {} ground interleaved ends

end Engine

end ForwardChaining
