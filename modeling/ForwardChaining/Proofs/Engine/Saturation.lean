import ForwardChaining.Proofs.Engine.Additions
import ForwardChaining.Proofs.Engine.Naive

/-! # Saturation

While an engine works, every match of every rule is accounted for: it waits, or it is firing, or its
body has taken effect (`Accounted`). Adding facts and rules keeps this, because the new matches
wait, and effects stay because nothing is ever taken away. A firing that does not fail keeps it as
well.

So when no firing has failed and nothing waits, all bodies of all matches have taken effect, also
those of rules that were made on the way (`saturated_of_drained`). -/

namespace ForwardChaining

open ProductionSystem

/-! ## Forms with effects -/

/-- A form that asserts a fact. -/
inductive Term.Asserts : (form fact : Term) → Prop where
  /-- Under its first name. -/
  | assert (fact : Term) : Asserts (.list [.atom (.symbol "assert!"), fact]) fact
  /-- Under its second name. -/
  | rassert (fact : Term) : Asserts (.list [.atom (.symbol "rassert!"), fact]) fact

/-- A form that adds a rule. -/
inductive Term.AddsRule : (form trigger : Term) → (body : List Term) → Prop where
  /-- A rule is written with its trigger before its body. -/
  | rule (trigger : Term) (body : List Term) :
    AddsRule (.list (.atom (.symbol "rule") :: trigger :: body)) trigger body

section

variable {σ : Type} [ProductionSystem σ] {form fact trigger : Term} {body : List Term}

/-- The variables of a fact to assert can be replaced. -/
theorem Term.Asserts.substitute (asserts : form.Asserts fact) (bindings : Bindings) :
    (bindings.substitute form).Asserts (bindings.substitute fact) := by
  cases asserts with
  | assert =>
    rw [Bindings.substitute_list, List.map_cons, List.map_singleton, Bindings.substitute_atom]
    exact .assert _
  | rassert =>
    rw [Bindings.substitute_list, List.map_cons, List.map_singleton, Bindings.substitute_atom]
    exact .rassert _

/-- The variables of a rule to add can be replaced. -/
theorem Term.AddsRule.substitute (adds : form.AddsRule trigger body) (bindings : Bindings) :
    (bindings.substitute form).AddsRule (bindings.substitute trigger)
      (body.map bindings.substitute) := by
  cases adds
  rw [Bindings.substitute_list, List.map_cons, List.map_cons, Bindings.substitute_atom]
  exact .rule _ _

/-- Evaluating a form that asserts a fact asserts it. -/
theorem Term.Asserts.evaluate (asserts : form.Asserts fact) (system : σ) (environment : Bindings) :
    evaluate system environment form =
      ((assertFact system (environment.substitute fact)).1.map fun _ => .nil,
        (assertFact system (environment.substitute fact)).2) := by
  cases asserts with
  | assert =>
    have named : (Term.atom (.symbol "assert!")).procedure? =
        some ("assert!", .special .assert) := rfl
    simp only [ProductionSystem.evaluate, Bindings.resolve_atom, named]
  | rassert =>
    have named : (Term.atom (.symbol "rassert!")).procedure? =
        some ("rassert!", .special .assert) := rfl
    simp only [ProductionSystem.evaluate, Bindings.resolve_atom, named]

/-- Evaluating a form that adds a rule adds it. -/
theorem Term.AddsRule.evaluate (adds : form.AddsRule trigger body) (system : σ)
    (environment : Bindings) : evaluate system environment form =
      (.ok .nil, (addRule system (.ofTerm trigger) body environment).1) := by
  cases adds
  have named : (Term.atom (.symbol "rule")).procedure? = some ("rule", .special .rule) := rfl
  simp only [ProductionSystem.evaluate, Bindings.resolve_atom, named]

end

namespace Engine

variable {engine before after next : Engine} {firing : List Activation}

/-! ## Effects -/

/-- A form of a body has taken effect under the bindings of a match: the fact that it asserts is
stored, and so is the rule that it adds. -/
structure Effective (engine : Engine) (bindings : Bindings) (form : Term) : Prop where
  /-- The fact is stored. -/
  asserted : ∀ fact, form.Asserts fact → bindings.substitute fact ∈ engine.facts
  /-- The rule is stored, and its matches extend the bindings. -/
  added : ∀ trigger body, form.AddsRule trigger body → ∃ rule ∈ engine.rules,
    rule.trigger = .ofTerm (bindings.substitute trigger) ∧
      rule.body = body.map bindings.substitute ∧ rule.environment = bindings

/-- Effects stay. -/
theorem Effective.mono {bindings : Bindings} {form : Term}
    (effective : before.Effective bindings form) (grows : before.Grows after) :
    after.Effective bindings form where
  asserted fact asserts := grows.facts _ (effective.asserted fact asserts)
  added trigger body adds := by
    obtain ⟨rule, isRule, same⟩ := effective.added trigger body adds
    exact ⟨rule, grows.rules rule isRule, same⟩

/-- A fact whose assertion succeeds is stored. -/
theorem mem_facts_of_assertFact {fact : Term} {id : FactId}
    (succeeds : (engine.assertFact fact).1 = .ok id) : fact ∈ (engine.assertFact fact).2.facts := by
  by_cases ground : fact.isGround
  · rw [assertFact_facts ground]
    exact Array.mem_push_self
  · rw [assertFact_of_not_ground ground] at succeeds
    cases succeeds

/-- Evaluating a form without a fault has the effect that the form describes. The bindings replace
its variables twice, which is the same as once. -/
theorem effective_of_evaluate {bindings : Bindings} (acyclic : bindings.Acyclic) {form : Term}
    {value : Value}
    (succeeds : ProductionSystem.evaluate engine bindings (bindings.substitute form) =
      (.ok value, next)) :
    next.Effective bindings form where
  asserted fact asserts := by
    rw [(asserts.substitute bindings).evaluate, acyclic.substitute_substitute] at succeeds
    obtain ⟨result, rfl⟩ := Prod.mk.inj succeeds
    cases assertion : (ProductionSystem.assertFact engine (bindings.substitute fact)).1 with
    | error fault =>
      rw [assertion] at result
      cases result
    | ok id => exact mem_facts_of_assertFact assertion
  added trigger body adds := by
    rw [(adds.substitute bindings).evaluate] at succeeds
    obtain ⟨-, rfl⟩ := Prod.mk.inj succeeds
    exact ⟨_, Array.mem_push_self, rfl, rfl, rfl⟩

/-- Evaluating a body without a fault has the effects of all its forms. -/
theorem effective_of_evaluateBody (regular : engine.Regular) {bindings : Bindings}
    (acyclic : bindings.Acyclic) {body : List Term}
    (succeeds : evaluateBody engine bindings body = (.ok (), next)) :
    ∀ form ∈ body, next.Effective bindings form := by
  induction body generalizing engine with
  | nil => simp
  | cons form forms ih =>
    rw [evaluateBody] at succeeds
    rcases evaluated : ProductionSystem.evaluate engine bindings (bindings.substitute form) with
      ⟨_ | value, middle⟩
    · rw [evaluated] at succeeds
      cases succeeds
    · -- The effect of the first form is there before the others are evaluated, and stays.
      have afterForm := (grows_invariant engine).evaluate acyclic (bindings.substitute form)
        ⟨regular, .refl engine⟩
      simp only [evaluated] at succeeds afterForm
      have afterForms := (grows_invariant middle).evaluateBody acyclic forms
        ⟨afterForm.1, .refl middle⟩
      rw [succeeds] at afterForms
      exact List.forall_mem_cons.mpr
        ⟨(effective_of_evaluate acyclic evaluated).mono afterForms.2, ih afterForm.1 succeeds⟩

/-! ## Accounting for all matches -/

/-- A regular engine in which each match waits, is among those that are firing, or has had the
effects of its body. -/
structure Accounted (firing : List Activation) (engine : Engine) : Prop where
  /-- The engine is regular. -/
  regular : engine.Regular
  /-- Each match is accounted for. -/
  each : ∀ activation ∈ engine.activations,
    activation ∈ engine.agenda.waiting ∨ activation ∈ firing ∨
      ∀ form ∈ activation.body, engine.Effective activation.bindings form

/-- A new engine has no matches to account for. -/
theorem accounted_new (config : Config) : (new config).Accounted [] where
  regular := regular_new config
  each activation member := absurd member (by simp [new, activations])

/-- New matches wait, and old ones stay accounted for. -/
theorem Accounted.add (accounted : before.Accounted firing) (adds : before.Adds after)
    (regular : after.Regular) : after.Accounted firing where
  regular := regular
  each activation member := by
    obtain ⟨added, agenda, perm⟩ := adds.queues
    rw [agenda, Agenda.waiting_pushAll, List.mem_append, List.mem_reverse]
    rcases List.mem_append.mp (perm.mem_iff.mp member) with old | new
    · rcases accounted.each activation old with waits | fires | effective
      · exact .inl (.inr waits)
      · exact .inr (.inl fires)
      · exact .inr (.inr fun form inBody => (effective form inBody).mono adds.toGrows)
    · exact .inl (.inl new)

/-- **Evaluation keeps account of all matches.** -/
theorem accounted_invariant (firing : List Activation) :
    EvaluationInvariant (Accounted firing) Bindings.Acyclic where
  assertFact accounted fact :=
    accounted.add (accounted.regular.wellFormed.assertFact_adds fact)
      (regular_invariant.assertFact accounted.regular fact)
  addRule accounted _ acyclic trigger body :=
    accounted.add (accounted.regular.wellFormed.addRule_adds trigger body _)
      (regular_invariant.addRule accounted.regular acyclic trigger body)

/-- Taking an activation makes it the one that is firing. -/
theorem Accounted.takeNewest? (accounted : engine.Accounted []) {activation : Activation}
    (taken : engine.takeNewest? = some (activation, next)) : next.Accounted [activation] := by
  have regular := (accounted.regular.takeNewest? taken).2
  obtain ⟨waiting, before, rfl⟩ := takeNewest?_eq_some_iff.mp taken
  refine ⟨regular, fun other member => ?_⟩
  rcases accounted.each other member with waits | fires | effective
  · -- What waited was the activation that was taken, or waits behind it.
    rw [before] at waits
    rcases List.mem_cons.mp waits with isFiring | waits
    · exact .inr (.inl (List.mem_singleton.mpr isFiring))
    · exact .inl waits
  · cases fires
  · exact .inr (.inr fun form inBody =>
      ⟨(effective form inBody).asserted, (effective form inBody).added⟩)

/-- **A firing that does not fail keeps account of all matches**: its own is settled then. -/
theorem Accounted.fire (accounted : engine.Accounted []) {activation : Activation} {last : Engine}
    (taken : engine.takeNewest? = some (activation, next))
    (fired : evaluateBody next activation.bindings activation.body = (.ok (), last)) :
    last.Accounted [] := by
  have acyclic := accounted.regular.acyclic_bindings (accounted.regular.takeNewest? taken).1
  have begun := accounted.takeNewest? taken
  have settled := effective_of_evaluateBody begun.regular acyclic fired
  have ended := (accounted_invariant [activation]).evaluateBody acyclic activation.body begun
  rw [fired] at ended
  refine ⟨ended.regular, fun other member => ?_⟩
  rcases ended.each other member with waits | fires | effective
  · exact .inl waits
  · -- This is the activation that fired, and all forms of its body have been evaluated.
    rw [List.mem_singleton.mp fires]
    exact .inr (.inr settled)
  · exact .inr (.inr effective)

/-! ## Drains and calls -/

/-- Nothing waits after a drain that came to its end. -/
theorem waiting_of_drained {limit : Nat}
    (drained : (ProductionSystem.drain engine limit).1.ending = .drained) :
    (ProductionSystem.drain engine limit).2.agenda.waiting = [] := by
  induction limit generalizing engine with
  | zero =>
    rcases taken : ProductionSystem.takeNewest? engine with _ | ⟨activation, next⟩
    · rw [drain_of_none taken]
      exact takeNewest?_eq_none_iff.mp taken
    · rw [drain_zero_of_some taken] at drained
      cases drained
  | succ limit ih =>
    rcases taken : ProductionSystem.takeNewest? engine with _ | ⟨activation, next⟩
    · rw [drain_of_none taken]
      exact takeNewest?_eq_none_iff.mp taken
    · rcases fired : evaluateBody next activation.bindings activation.body with ⟨fault | _, last⟩
      · rw [drain_succ_of_error taken fired] at drained
        cases drained
      · rw [drain_succ_of_ok taken fired] at drained ⊢
        exact ih drained

/-- **A drain in which no body fails keeps account of all matches.** -/
theorem Accounted.drain (accounted : engine.Accounted []) {limit : Nat}
    (clean : ¬ (ProductionSystem.drain engine limit).1.ending.isFailed) :
    (ProductionSystem.drain engine limit).2.Accounted [] := by
  induction limit generalizing engine with
  | zero => exact accounted
  | succ limit ih =>
    rcases taken : ProductionSystem.takeNewest? engine with _ | ⟨activation, next⟩
    · rw [drain_of_none taken]
      exact accounted
    · rcases fired : evaluateBody next activation.bindings activation.body with ⟨fault | _, last⟩
      · -- A body that fails ends the drain as a failed one.
        rw [drain_succ_of_error taken fired] at clean
        exact absurd rfl clean
      · rw [drain_succ_of_ok taken fired] at clean ⊢
        exact ih (accounted.fire taken fired) clean

/-- So does running forms when no body fails in the drains after them. -/
theorem Accounted.runForms (accounted : engine.Accounted []) {limit : Nat} {forms : List Term}
    (clean : ∀ ending ∈ formEndings engine limit forms, ¬ ending.isFailed) :
    (runForms engine limit forms).2.Accounted [] := by
  induction forms generalizing engine with
  | nil => exact accounted
  | cons form forms ih =>
    rw [ProductionSystem.runForms]
    rw [formEndings] at clean
    have afterForm := (accounted_invariant []).evaluate Bindings.acyclic_empty form accounted
    rcases evaluated : ProductionSystem.evaluate engine ∅ form with ⟨_ | value, next⟩
    · rw [evaluated] at afterForm
      exact afterForm
    · simp only [evaluated] at afterForm clean ⊢
      have afterDrain (clean : ¬ (ProductionSystem.drain next limit).1.ending.isFailed) :=
        afterForm.drain clean
      rcases drained : ProductionSystem.drain next limit with ⟨⟨fired, ending⟩, last⟩
      rw [drained] at afterDrain
      cases ending with
      | failed fault => simp [drained, Ending.isFailed] at clean
      | limited => exact afterDrain Bool.false_ne_true
      | drained =>
        simp only [drained, List.forall_mem_cons] at clean ⊢
        exact ih (afterDrain Bool.false_ne_true) clean.2

/-- So does a call. -/
theorem Accounted.perform (accounted : engine.Accounted []) {call : Call}
    (acyclic : call.Supplies Bindings.Acyclic)
    (clean : ∀ ending ∈ call.endings engine, ¬ ending.isFailed) :
    (call.perform engine).2.Accounted [] := by
  cases call with
  | assertFact fact => exact (accounted_invariant []).assertFact accounted fact
  | addRule trigger body environment =>
    exact (accounted_invariant []).addRule accounted acyclic trigger body
  | evaluate environment form => exact (accounted_invariant []).evaluate acyclic form accounted
  | runRules limit => exact accounted.drain (clean _ (List.mem_singleton.mpr rfl))
  | runProgram limit text =>
    rw [Call.endings] at clean
    show (ProductionSystem.runProgram engine limit text).2.Accounted []
    rw [ProductionSystem.runProgram]
    split
    · exact accounted
    · next forms read =>
      rw [read] at clean
      exact accounted.runForms clean

/-- **Every history in which no body fails keeps account of all matches.** -/
theorem Accounted.performAll (accounted : engine.Accounted []) {calls : List Call}
    (acyclic : ∀ call ∈ calls, call.Supplies Bindings.Acyclic)
    (clean : ∀ ending ∈ endings engine calls, ¬ ending.isFailed) :
    (performAll engine calls).2.Accounted [] := by
  induction calls generalizing engine with
  | nil => exact accounted
  | cons call calls ih =>
    obtain ⟨acyclicFirst, acyclicRest⟩ := List.forall_mem_cons.mp acyclic
    obtain ⟨cleanFirst, cleanRest⟩ := List.forall_mem_append.mp clean
    exact ih (accounted.perform acyclicFirst cleanFirst) acyclicRest cleanRest

/-- Where nothing waits, each match has had the effects of its body. -/
theorem Accounted.effective (accounted : engine.Accounted [])
    (empty : engine.agenda.waiting = []) {rule : Rule} (isRule : rule ∈ engine.rules)
    {tuple : List Term} (stored : ∀ fact ∈ tuple, fact ∈ engine.facts) {bindings : Bindings}
    (unified : unifyAll tuple rule.trigger.clauses rule.environment = some bindings) :
    ∀ form ∈ rule.body, engine.Effective bindings form := by
  have isMatch : (⟨rule.id, rule.body, bindings⟩ : Activation) ∈ engine.activations :=
    mem_activations.mpr ⟨rule, isRule, tuple, stored,
      Rule.match?_eq_some_iff.mpr ⟨unified, rfl, rfl⟩⟩
  rcases accounted.each _ isMatch with waits | fires | effective
  · rw [empty] at waits
    cases waits
  · cases fires
  · exact effective

/-- **A drained engine is saturated.** When no body has failed in a history of calls, and a drain
after it comes to its end, nothing waits, and every match of every stored rule with stored facts
has had the effects of its body, also when the rule was made by that drain. -/
theorem saturated_of_drained (config : Config) {calls : List Call} {limit : Nat}
    (acyclic : ∀ call ∈ calls, call.Supplies Bindings.Acyclic)
    (clean : ∀ ending ∈ endings (new config) calls, ¬ ending.isFailed)
    (drained : (drain (performAll (new config) calls).2 limit).1.ending = .drained) :
    let engine := (drain (performAll (new config) calls).2 limit).2
    engine.agenda.isEmpty ∧ ∀ rule ∈ engine.rules, ∀ tuple : List Term,
      (∀ fact ∈ tuple, fact ∈ engine.facts) → ∀ bindings : Bindings,
        unifyAll tuple rule.trigger.clauses rule.environment = some bindings →
          ∀ form ∈ rule.body, engine.Effective bindings form := by
  intro engine
  have before := (accounted_new config).performAll acyclic clean
  have accounted : engine.Accounted [] := before.drain (by simp [drained, Ending.isFailed])
  have empty : engine.agenda.waiting = [] := waiting_of_drained drained
  refine ⟨by rw [Agenda.isEmpty, empty, List.isEmpty_nil], ?_⟩
  intro rule isRule tuple stored bindings unified
  exact accounted.effective empty isRule stored unified

/-- A rule makes a rule, which finds a fact that was there before it. -/
theorem saturated_of_drained_implies :
    let symbol (name : String) : Term := .atom (.symbol name)
    let makesRule : Term :=
      .list [symbol "rule", .var "?p", .list [symbol "rassert!", .var "?q"]]
    let calls : List Call :=
      [.addRule (.single (.list [symbol "implies", .var "?p", .var "?q"])) [makesRule] ∅,
        .assertFact (.list [symbol "rain"]),
        .assertFact (.list [symbol "implies", .list [symbol "rain"], .list [symbol "wet"]])]
    let engine := (drain (performAll (new {}) calls).2 2).2
    engine.agenda.isEmpty ∧ ∀ rule ∈ engine.rules, ∀ tuple : List Term,
      (∀ fact ∈ tuple, fact ∈ engine.facts) → ∀ bindings : Bindings,
        unifyAll tuple rule.trigger.clauses rule.environment = some bindings →
          ∀ form ∈ rule.body, engine.Effective bindings form := by
  intro symbol makesRule calls
  have acyclic : ∀ call ∈ calls, call.Supplies Bindings.Acyclic := by
    simp only [calls, List.forall_mem_cons]
    exact ⟨Bindings.acyclic_empty, trivial, trivial, nofun⟩
  have clean : ∀ ending ∈ endings (new {}) calls, ¬ ending.isFailed := by
    simp [calls, endings, Call.endings]
  have drained : (drain (performAll (new {}) calls).2 2).1.ending = .drained := by
    rw [(mirrors_simulation.drain 2 (mirrors_performAll {} calls).systems).result]
    decide +kernel
  exact saturated_of_drained {} acyclic clean drained

end Engine

end ForwardChaining
