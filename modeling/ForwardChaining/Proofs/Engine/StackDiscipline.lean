import ForwardChaining.Proofs.Engine.WellFormed

/-! # The agenda is a stack

Nothing that happens in a drain depends on what waits at the bottom of the agenda. Adding facts and
rules only puts activations on top, so an engine with more activations at the bottom does the same
as one without them (`above_simulation`), until the upper ones are used up.

So a drain deals with the newer activations, and with all that comes of them, before it touches the
older ones (`drain_holding_append`). When a body fails on the way, the older ones are left as they
were. -/

namespace ForwardChaining

open ProductionSystem

/-- Putting activations on top leaves those at the bottom where they are. -/
theorem Agenda.pushAll_append (waiting older activations : List Activation) :
    (⟨waiting ++ older⟩ : Agenda).pushAll activations =
      ⟨((⟨waiting⟩ : Agenda).pushAll activations).waiting ++ older⟩ := by
  have sameWaiting : ((⟨waiting ++ older⟩ : Agenda).pushAll activations).waiting =
      ((⟨waiting⟩ : Agenda).pushAll activations).waiting ++ older := by
    rw [waiting_pushAll, waiting_pushAll, List.append_assoc]
  exact congrArg Agenda.mk sameWaiting

namespace Engine

variable (engine : Engine) (older : List Activation)

/-- The engine with other activations waiting. -/
def holding (waiting : List Activation) : Engine := { engine with agenda := ⟨waiting⟩ }

/-- The engine with older activations waiting below its own. -/
def above : Engine := engine.holding (engine.agenda.waiting ++ older)

/-! ## Nothing looks below -/

/-- What is queued lies above what waited. -/
theorem queue_above (activations : List Activation) :
    (engine.above older).queue activations = (engine.queue activations).above older :=
  congrArg (fun agenda => { engine with agenda := agenda })
    (Agenda.pushAll_append engine.agenda.waiting older activations)

/-- The facts to try around a new one do not depend on what waits. -/
theorem candidatesAround_above (fact : FactId) (fixed position : Nat) (clauses : List Term) :
    (engine.above older).candidatesAround fact fixed position clauses =
      engine.candidatesAround fact fixed position clauses := by
  induction clauses generalizing position with
  | nil => rfl
  | cons clause clauses ih =>
    rw [candidatesAround, candidatesAround, ih]
    rfl

/-- The matches of a new fact do not depend on what waits. -/
theorem matchesAt_above (fact : FactId) :
    (engine.above older).matchesAt fact = engine.matchesAt fact := by
  funext clause
  have sameRule : (engine.above older).rule? clause.rule = engine.rule? clause.rule := rfl
  rw [matchesAt, matchesAt, sameRule]
  split
  · rfl
  · rw [candidatesAround_above]
    rfl

/-- Asserting a fact does the same above older activations. -/
theorem assertFact_above (fact : Term) :
    (engine.above older).assertFact fact =
      ((engine.assertFact fact).1, (engine.assertFact fact).2.above older) := by
  by_cases ground : fact.isGround
  · have stored : (engine.above older).withFact fact = (engine.withFact fact).above older := rfl
    rw [assertFact_of_ground ground, assertFact_of_ground ground, stored, matchesAt_above,
      queue_above]
    rfl
  · rw [assertFact_of_not_ground ground, assertFact_of_not_ground ground]

/-- Adding a rule does the same above older activations. -/
theorem addRule_above (trigger : Trigger) (body : List Term) (environment : Bindings) :
    (engine.above older).addRule trigger body environment =
      ((engine.addRule trigger body environment).1.above older,
        (engine.addRule trigger body environment).2) := by
  let stored : Engine :=
    { engine with
      index := (indexClauses (engine.newestRule + 1) 0 trigger.clauses engine.index).1
      newestRule := engine.newestRule + 1
      rules := engine.rules.push (engine.ruleToAdd trigger body environment) }
  exact Prod.ext (queue_above stored older _) rfl

/-- **Evaluation does not look below the newer activations.** -/
theorem above_simulation :
    EvaluationSimulation (fun tall short : Engine => tall = short.above older) fun _ => True where
  assertFact := by
    rintro _ short rfl fact
    have same : ProductionSystem.assertFact (short.above older) fact = _ :=
      assertFact_above short older fact
    rw [same]
    exact ⟨rfl, rfl⟩
  addRule := by
    rintro _ short rfl environment - trigger body
    have same : ProductionSystem.addRule (short.above older) trigger body environment = _ :=
      addRule_above short older trigger body environment
    rw [same]
    exact ⟨rfl, rfl⟩

/-! ## Drains -/

/-- The newest activation is the same above older ones. -/
theorem takeNewest?_above {engine next : Engine} {activation : Activation}
    (taken : engine.takeNewest? = some (activation, next)) :
    (engine.above older).takeNewest? = some (activation, next.above older) := by
  obtain ⟨waiting, before, rfl⟩ := takeNewest?_eq_some_iff.mp taken
  refine takeNewest?_eq_some_iff.mpr ⟨waiting ++ older, ?_, rfl⟩
  rw [above, before]
  rfl

/-- A drain above older activations is the drain of the older ones where no newer one is left. -/
theorem drain_above_of_none {engine : Engine} (noneTaken : engine.takeNewest? = none)
    (limit : Nat) :
    ProductionSystem.drain (engine.above older) limit =
      ((ProductionSystem.drain (engine.holding older) limit).1.after [],
        (ProductionSystem.drain (engine.holding older) limit).2) := by
  rw [above, takeNewest?_eq_none_iff.mp noneTaken]
  rfl

/-- A body that fires above older activations does what it does without them. -/
theorem evaluateBody_above (bindings : Bindings) (body : List Term) :
    evaluateBody (engine.above older) bindings body =
      ((evaluateBody engine bindings body).1,
        (evaluateBody engine bindings body).2.above older) := by
  have agree : Agree (fun tall short : Engine => tall = short.above older)
      (evaluateBody (engine.above older) bindings body) (evaluateBody engine bindings body) :=
    (above_simulation older).evaluateBody trivial body rfl
  exact Prod.ext agree.result agree.systems

/-- **The agenda is a stack.** Take an engine on which newer activations wait above older ones. If
the drain of the newer ones alone comes to its end, the drain of all of them fires the same rules,
and then goes on as the drain of the older ones on the engine that the first one left. If a body
fails, or the limit is reached, it does so in both, and the older activations go on waiting below
what the shorter drain left. -/
theorem drain_holding_append (engine : Engine) (newer older : List Activation) (limit : Nat) :
    match drain (engine.holding newer) limit with
    | (⟨fired, .drained⟩, last) => ∀ more,
        drain (engine.holding (newer ++ older)) (fired.length + more) =
          ((drain (last.holding older) more).1.after fired, (drain (last.holding older) more).2)
    | (⟨fired, .failed fault⟩, last) => ∀ more,
        drain (engine.holding (newer ++ older)) (fired.length + more) =
          (⟨fired, .failed fault⟩, last.holding (last.agenda.waiting ++ older))
    | (⟨fired, .limited⟩, last) =>
        drain (engine.holding (newer ++ older)) limit =
          (⟨fired, .limited⟩, last.holding (last.agenda.waiting ++ older)) := by
  unfold Engine.drain
  induction limit generalizing engine newer with
  | zero =>
    rcases taken : ProductionSystem.takeNewest? (engine.holding newer) with _ | ⟨activation, next⟩
    · rw [drain_of_none taken]
      intro more
      rw [List.length_nil, Nat.zero_add]
      exact drain_above_of_none older taken more
    · rw [drain_zero_of_some taken]
      exact drain_zero_of_some (takeNewest?_above older taken)
  | succ limit ih =>
    rcases taken : ProductionSystem.takeNewest? (engine.holding newer) with _ | ⟨activation, next⟩
    · rw [drain_of_none taken]
      intro more
      rw [List.length_nil, Nat.zero_add]
      exact drain_above_of_none older taken more
    · have takenAbove := takeNewest?_above older taken
      have firedAbove := evaluateBody_above next older activation.bindings activation.body
      rcases fired : evaluateBody next activation.bindings activation.body with ⟨fault | _, last⟩
      · -- The body fails in both engines, and the older activations stay.
        rw [fired] at firedAbove
        rw [drain_succ_of_error taken fired]
        intro more
        rw [List.length_singleton, Nat.add_comm]
        exact drain_succ_of_error takenAbove firedAbove more
      · -- The rest of the drain goes the same way, with one firing before it.
        rw [fired] at firedAbove
        have step := drain_succ_of_ok takenAbove firedAbove
        have onwards {count : Nat} {report : Drain} {final : Engine}
            (rest : ProductionSystem.drain (last.above older) count = (report, final)) :
            ProductionSystem.drain ((engine.holding newer).above older) (count + 1) =
              (report.after [activation.rule], final) := by
          rw [step, rest]
        have rest := ih last last.agenda.waiting
        have same : last.holding last.agenda.waiting = last := rfl
        rw [same] at rest
        rw [drain_succ_of_ok taken fired]
        rcases drained : ProductionSystem.drain last limit with ⟨⟨rules, _ | fault | _⟩, final⟩
        · rw [drained] at rest
          intro more
          rw [List.length_append, List.length_singleton, Nat.add_comm 1, Nat.add_right_comm]
          exact onwards (rest more)
        · rw [drained] at rest
          intro more
          rw [List.length_append, List.length_singleton, Nat.add_comm 1, Nat.add_right_comm]
          exact onwards (rest more)
        · rw [drained] at rest
          exact onwards rest

end Engine

end ForwardChaining
