import ForwardChaining.Proofs.Engine.Naive

/-! # Engines only grow

What an engine holds is never changed and never lost. Facts and rules are added at the end, and so
are the entries of every bucket, so a number that stands for a fact, a rule or a bucket stands for
the same one for ever (`Engine.ExtendedBy`). Drains count firings on top of the old ones. Adding
facts and rules, also from inside a form, fires nothing, and puts activations on top of those that
wait (`Engine.AddedTo`).

None of this needs an engine to be well-formed, or a call to succeed: what was done before a fault
is an addition like any other. -/

namespace ForwardChaining

/-! ## The index -/

/-- One state of a bucket is an earlier one of another: entries were added at the end. -/
structure Bucket.ExtendedBy (before after : Bucket) : Prop where
  /-- The signature stays. -/
  signature : after.signature = before.signature
  /-- Facts are added at the end. -/
  facts : before.facts.toList <+: after.facts.toList
  /-- Clauses are added at the end. -/
  clauses : before.clauses.toList <+: after.clauses.toList

namespace Bucket.ExtendedBy

/-- Nothing need be added to a bucket. -/
theorem refl (bucket : Bucket) : bucket.ExtendedBy bucket :=
  ⟨rfl, List.prefix_refl _, List.prefix_refl _⟩

/-- What is added to a bucket in two steps is added at the end. -/
theorem trans {before middle after : Bucket} (first : before.ExtendedBy middle)
    (second : middle.ExtendedBy after) : before.ExtendedBy after where
  signature := second.signature.trans first.signature
  facts := first.facts.trans second.facts
  clauses := first.clauses.trans second.clauses

end Bucket.ExtendedBy

namespace Index

/-- One state of the index is an earlier one of another: the buckets stay at their places, and
entries were added to them. -/
def ExtendedBy (before after : Index) : Prop :=
  ∀ (id : BucketId) (bucket : Bucket), before.buckets[id]? = some bucket →
    ∃ later, after.buckets[id]? = some later ∧ bucket.ExtendedBy later

/-- Nothing need be added to an index. -/
theorem ExtendedBy.refl (index : Index) : index.ExtendedBy index :=
  fun _ bucket found => ⟨bucket, found, .refl bucket⟩

/-- What is added to an index in two steps is added. -/
theorem ExtendedBy.trans {before middle after : Index} (first : before.ExtendedBy middle)
    (second : middle.ExtendedBy after) : before.ExtendedBy after := by
  intro id bucket found
  obtain ⟨next, foundNext, toNext⟩ := first id bucket found
  obtain ⟨last, foundLast, toLast⟩ := second id next foundNext
  exact ⟨last, foundLast, toNext.trans toLast⟩

/-- A new bucket comes after the old ones. -/
theorem extendedBy_addBucket (index : Index) (signature : Signature) :
    index.ExtendedBy (index.addBucket signature) := by
  intro id bucket found
  have inside : id < index.buckets.size := (Array.getElem?_eq_some_iff.mp found).1
  refine ⟨bucket, ?_, .refl bucket⟩
  rw [addBucket, Array.getElem?_push, if_neg (Nat.ne_of_lt inside), found]

/-- Looking for a bucket adds one at most. -/
theorem extendedBy_bucketFor (index : Index) (signature : Signature) :
    index.ExtendedBy (index.bucketFor signature).1 := by
  rw [bucketFor]
  split
  · exact .refl index
  · exact index.extendedBy_addBucket signature

/-- Adding entries to a bucket leaves the others alone. -/
theorem extendedBy_update (index : Index) (id : BucketId) {change : Bucket → Bucket}
    (adds : ∀ old : Bucket, old.ExtendedBy (change old)) :
    index.ExtendedBy (index.update id change) := by
  intro other bucket found
  rw [update, Array.getElem?_modify, found]
  by_cases same : id = other
  · rw [if_pos same]
    exact ⟨change bucket, rfl, adds bucket⟩
  · rw [if_neg same]
    exact ⟨bucket, rfl, .refl bucket⟩

/-- Inserting a fact adds it at the end of a bucket. -/
theorem extendedBy_insertFact (index : Index) (signature : Signature) (fact : FactId) :
    index.ExtendedBy (index.insertFact signature fact).1 := by
  refine (index.extendedBy_bucketFor signature).trans (extendedBy_update _ _ fun old => ?_)
  exact ⟨rfl, by simp, List.prefix_refl _⟩

/-- Inserting a clause adds it at the end of a bucket. -/
theorem extendedBy_insertClause (index : Index) (signature : Signature) (clause : ClauseRef) :
    index.ExtendedBy (index.insertClause signature clause).1 := by
  refine (index.extendedBy_bucketFor signature).trans (extendedBy_update _ _ fun old => ?_)
  exact ⟨rfl, List.prefix_refl _, by simp⟩

end Index

/-- Whether a call drains the agenda. -/
def Call.drains : Call → Bool
  | .runRules _ | .runProgram _ _ => true
  | _ => false

namespace Engine

variable {before middle after : Engine}

/-- Indexing the clauses of a rule adds them one by one. -/
theorem extendedBy_indexClauses (id : RuleId) (position : Nat) (clauses : List Term)
    (index : Index) : index.ExtendedBy (indexClauses id position clauses index).1 := by
  induction clauses generalizing position index with
  | nil => exact .refl index
  | cons clause clauses ih =>
    exact (index.extendedBy_insertClause (Signature.of clause) ⟨id, position⟩).trans
      (ih (position + 1) _)

/-! ## Engines -/

/-- One state of an engine is an earlier one of another: whatever was stored is still at its
place. -/
structure ExtendedBy (before after : Engine) : Prop where
  /-- The configuration stays. -/
  config : after.config = before.config
  /-- Facts are added at the end. -/
  facts : before.facts.toList <+: after.facts.toList
  /-- Rules are added at the end, and the old ones stay as they are. -/
  rules : before.rules.toList <+: after.rules.toList
  /-- Buckets and their entries are added at the end. -/
  index : before.index.ExtendedBy after.index
  /-- No firing is taken back. -/
  firings : before.firings ≤ after.firings

/-- Nothing need be added to an engine. -/
theorem ExtendedBy.refl (engine : Engine) : engine.ExtendedBy engine :=
  ⟨rfl, List.prefix_refl _, List.prefix_refl _, .refl _, Nat.le_refl _⟩

/-- What is added to an engine in two steps is added. -/
theorem ExtendedBy.trans (first : before.ExtendedBy middle) (second : middle.ExtendedBy after) :
    before.ExtendedBy after where
  config := second.config.trans first.config
  facts := first.facts.trans second.facts
  rules := first.rules.trans second.rules
  index := first.index.trans second.index
  firings := Nat.le_trans first.firings second.firings

/-- An item of an array is at the same place of an array that goes on where the first one ends. -/
theorem getElem?_of_isPrefix {α : Type} {first second : Array α}
    (isPrefix : first.toList <+: second.toList) {place : Nat} {item : α}
    (found : first[place]? = some item) : second[place]? = some item := by
  obtain ⟨more, equal⟩ := isPrefix
  rw [← Array.getElem?_toList] at found ⊢
  rw [← equal, List.getElem?_append_left (List.getElem?_eq_some_iff.mp found).1, found]

/-- The number of a fact stands for the same fact for ever. -/
theorem ExtendedBy.getElem?_facts (extended : before.ExtendedBy after) {id : FactId} {fact : Term}
    (found : before.facts[id]? = some fact) : after.facts[id]? = some fact :=
  getElem?_of_isPrefix extended.facts found

/-- The number of a rule stands for the same rule for ever. -/
theorem ExtendedBy.rule?_eq_some (extended : before.ExtendedBy after) {id : RuleId} {rule : Rule}
    (found : before.rule? id = some rule) : after.rule? id = some rule := by
  rw [Engine.rule?] at found ⊢
  split at found
  · cases found
  · next positive =>
    rw [if_neg positive]
    exact getElem?_of_isPrefix extended.rules found

/-- An engine from which another one comes by adding facts and rules: besides, no rule fires, and
what waits stays below what is added. -/
structure AddedTo (before after : Engine) : Prop extends before.ExtendedBy after where
  /-- No rule fires. -/
  firings_eq : after.firings = before.firings
  /-- Activations are put on top of those that wait. -/
  agenda : before.agenda.waiting <:+ after.agenda.waiting

/-- Nothing need be added to an engine. -/
theorem AddedTo.refl (engine : Engine) : engine.AddedTo engine :=
  ⟨.refl engine, rfl, List.suffix_refl _⟩

/-- What is added to an engine in two steps is added. -/
theorem AddedTo.trans (first : before.AddedTo middle) (second : middle.AddedTo after) :
    before.AddedTo after where
  toExtendedBy := first.toExtendedBy.trans second.toExtendedBy
  firings_eq := second.firings_eq.trans first.firings_eq
  agenda := first.agenda.trans second.agenda

/-! ## What the operations add -/

/-- Activations are queued on top. -/
theorem addedTo_queue (engine : Engine) (activations : List Activation) :
    engine.AddedTo (engine.queue activations) where
  toExtendedBy :=
    ⟨rfl, List.prefix_refl _, List.prefix_refl _, .refl engine.index, Nat.le_refl _⟩
  firings_eq := rfl
  agenda := by
    rw [queue, Agenda.waiting_pushAll]
    exact List.suffix_append _ _

/-- Asserting a fact adds it, or nothing when it is refused. -/
theorem addedTo_assertFact (engine : Engine) (fact : Term) :
    engine.AddedTo (engine.assertFact fact).2 := by
  by_cases ground : fact.isGround
  · rw [assertFact_of_ground ground]
    have stored : engine.AddedTo (engine.withFact fact) :=
      { config := rfl
        facts := by simp [withFact]
        rules := List.prefix_refl _
        index := engine.index.extendedBy_insertFact _ _
        firings := Nat.le_refl _
        firings_eq := rfl
        agenda := List.suffix_refl _ }
    exact stored.trans (addedTo_queue _ _)
  · rw [assertFact_of_not_ground ground]
    exact .refl engine

/-- Adding a rule adds it and its clauses. -/
theorem addedTo_addRule (engine : Engine) (trigger : Trigger) (body : List Term)
    (environment : Bindings) : engine.AddedTo (engine.addRule trigger body environment).1 := by
  let stored : Engine :=
    { engine with
      index := (indexClauses (engine.newestRule + 1) 0 trigger.clauses engine.index).1
      newestRule := engine.newestRule + 1
      rules := engine.rules.push (engine.ruleToAdd trigger body environment) }
  have adds : engine.AddedTo stored :=
    { config := rfl
      facts := List.prefix_refl _
      rules := by simp [stored]
      index := extendedBy_indexClauses _ _ _ _
      firings := Nat.le_refl _
      firings_eq := rfl
      agenda := List.suffix_refl _ }
  exact adds.trans (addedTo_queue stored _)

/-- Taking an activation counts a firing and leaves all that is stored. -/
theorem extendedBy_takeNewest? {engine next : Engine} {activation : Activation}
    (taken : engine.takeNewest? = some (activation, next)) : engine.ExtendedBy next := by
  obtain ⟨waiting, -, rfl⟩ := takeNewest?_eq_some_iff.mp taken
  exact ⟨rfl, List.prefix_refl _, List.prefix_refl _, .refl _, Nat.le_succ _⟩

/-- **Evaluation only adds**, whatever the form and wherever it fails. -/
theorem addedTo_invariant (engine : Engine) :
    EvaluationInvariant (fun next => engine.AddedTo next) fun _ => True where
  assertFact added fact := added.trans (addedTo_assertFact _ fact)
  addRule added _ _ trigger body := added.trans (addedTo_addRule _ trigger body _)

/-- **Engines only grow.** -/
theorem extendedBy_invariant (engine : Engine) :
    Invariant (fun next => engine.ExtendedBy next) fun _ => True where
  assertFact extended fact := extended.trans (addedTo_assertFact _ fact).toExtendedBy
  addRule extended _ _ trigger body :=
    extended.trans (addedTo_addRule _ trigger body _).toExtendedBy
  empty := trivial
  takeNewest? extended taken := ⟨trivial, extended.trans (extendedBy_takeNewest? taken)⟩

/-! ## What calls add -/

/-- **An engine only grows, and what stands for its parts stays valid**, whether a call succeeds or
fails: facts, rules and buckets keep their places and contents, buckets and the count of firings
only grow, and the number of a fact or a rule finds the same one as before. A call that does not
drain the agenda fires nothing and leaves the waiting activations below what it adds. -/
theorem perform_extends (engine : Engine) (call : Call) :
    let after := (call.perform engine).2
    engine.ExtendedBy after ∧
      (∀ (id : FactId) (fact : Term), engine.facts[id]? = some fact →
        after.facts[id]? = some fact) ∧
      (∀ (id : RuleId) (rule : Rule), engine.rule? id = some rule →
        after.rule? id = some rule) ∧
      (call.drains = false → engine.AddedTo after) := by
  have extended : engine.ExtendedBy (call.perform engine).2 :=
    (extendedBy_invariant engine).perform (call.supplies_of_forall fun _ => trivial) (.refl engine)
  refine ⟨extended, fun _ _ => extended.getElem?_facts, fun _ _ => extended.rule?_eq_some, ?_⟩
  intro direct
  cases call with
  | assertFact fact => exact addedTo_assertFact engine fact
  | addRule trigger body environment => exact addedTo_addRule engine trigger body environment
  | evaluate environment form =>
    exact (addedTo_invariant engine).evaluate trivial form (.refl engine)
  | runRules limit => cases direct
  | runProgram limit text => cases direct

/-- A form that fails in its second argument, after the first one has asserted a fact that matches
a rule: the fact and the activation stay. -/
theorem perform_extends_failing :
    let symbol (name : String) : Term := .atom (.symbol name)
    let assert (fact : Term) : Term := .list [symbol "assert!", fact]
    let engine := (performAll (new {}) [.addRule (.single (.list [symbol "p", .var "?x"])) [] ∅,
      .assertFact (.list [symbol "p", symbol "a"])]).2
    let call : Call := .evaluate ∅
      (.list [symbol "=", assert (.list [symbol "p", symbol "b"]), assert (.var "?x")])
    call.drains = false ∧ engine.AddedTo (call.perform engine).2 ∧
      (call.perform engine).1.isError ∧
      (call.perform engine).2.facts.size = 2 ∧ (call.perform engine).2.agenda.size = 2 := by
  intro symbol assert engine call
  have supplies : call.Supplies fun _ => True := call.supplies_of_forall fun _ => trivial
  have before : Mirrors engine _ := (mirrors_performAll {} _).systems
  obtain ⟨response, after⟩ := mirrors_simulation.perform supplies before
  refine ⟨rfl, (perform_extends _ _).2.2.2 rfl, ?_, ?_, ?_⟩
  · rw [response]
    decide +kernel
  · rw [after.facts_eq]
    decide +kernel
  · rw [after.agenda_eq]
    decide +kernel

/-- Engines grow in every history of calls. -/
theorem extendedBy_performAll (engine : Engine) (calls : List Call) :
    engine.ExtendedBy (performAll engine calls).2 :=
  (extendedBy_invariant engine).performAll
    (fun call _ => call.supplies_of_forall fun _ => trivial) (.refl engine)

end Engine

end ForwardChaining
