import ForwardChaining.Proofs.Engine.Growth
import ForwardChaining.Proofs.Text.Reading

/-! # Programs in pieces

A program is read as a whole and then evaluated form by form, so it may be cut between two forms:
running the pieces one after another, as long as none fails, is running the whole
(`runProgram_pieces`). The number that a program returns is the number of its firings. -/

namespace ForwardChaining

namespace ProductionSystem

variable {σ : Type} [ProductionSystem σ]

/-- One program and then another on the system that it leaves, unless it fails. The firings add
up. -/
def andThen (outcome : Except ProgramError Nat × σ) (next : σ → Except ProgramError Nat × σ) :
    Except ProgramError Nat × σ :=
  match outcome with
  | (.ok count, system) => ((next system).1.map (count + ·), (next system).2)
  | (.error error, system) => (.error error, system)

/-- Forms are run before those that follow them. -/
theorem runForms_append (system : σ) (limit : Nat) (forms more : List Term) :
    runForms system limit (forms ++ more) =
      andThen (runForms system limit forms) fun next => runForms next limit more := by
  induction forms generalizing system with
  | nil =>
    rw [List.nil_append, runForms, andThen]
    rcases runForms system limit more with ⟨error | count, last⟩
    · rfl
    · simp [Except.map]
  | cons form forms ih =>
    rw [List.cons_append, runForms, runForms]
    rcases evaluate system ∅ form with ⟨fault | value, next⟩
    · rfl
    · dsimp only
      rcases drain next limit with ⟨⟨fired, _ | fault | _⟩, last⟩
      · -- Only after a drain that came to its end are there other forms to run.
        dsimp only
        rw [ih]
        rcases runForms last limit forms with ⟨error | count, after⟩
        · rfl
        · simp only [andThen, Except.map]
          rcases runForms after limit more with ⟨error | others, final⟩
          · rfl
          · simp [Nat.add_assoc]
      · rfl
      · rfl

end ProductionSystem

namespace Engine

open ProductionSystem

/-! ## Counting -/

/-- Evaluating the body of a rule fires nothing. -/
theorem evaluateBody_firings (engine : Engine) (bindings : Bindings) (body : List Term) :
    (evaluateBody engine bindings body).2.firings = engine.firings :=
  ((addedTo_invariant engine).evaluateBody trivial body (.refl engine)).firings_eq

/-- A drain reports every firing, also the one of a body that fails. -/
theorem drain_firings (engine : Engine) (limit : Nat) :
    (engine.drain limit).2.firings = engine.firings + (engine.drain limit).1.fired.length := by
  unfold Engine.drain
  induction limit generalizing engine with
  | zero => rfl
  | succ limit ih =>
    rcases taken : ProductionSystem.takeNewest? engine with _ | ⟨activation, next⟩
    · rw [drain_of_none taken]
      rfl
    · have body := evaluateBody_firings next activation.bindings activation.body
      obtain ⟨waiting, -, equal⟩ := takeNewest?_eq_some_iff.mp taken
      have counted : next.firings = engine.firings + 1 := by rw [equal]
      rcases fired : evaluateBody next activation.bindings activation.body with ⟨fault | _, last⟩
      · rw [fired] at body
        rw [drain_succ_of_error taken fired]
        exact body.trans counted
      · rw [fired] at body
        rw [drain_succ_of_ok taken fired]
        dsimp only at body ⊢
        rw [ih, body, counted, Drain.after, List.length_append, List.length_singleton,
          Nat.add_assoc]

/-- Evaluating a form fires nothing. -/
theorem evaluate_firings (engine : Engine) (environment : Bindings) (form : Term) :
    (engine.evaluate environment form).2.firings = engine.firings :=
  ((addedTo_invariant engine).evaluate trivial form (.refl engine)).firings_eq

/-- Forms that run to their end return the number of their firings. -/
theorem runForms_firings {engine last : Engine} {limit count : Nat} {forms : List Term}
    (runs : runForms engine limit forms = (.ok count, last)) :
    last.firings = engine.firings + count := by
  induction forms generalizing engine count with
  | nil =>
    cases runs
    rfl
  | cons form forms ih =>
    rw [runForms] at runs
    rcases evaluated : ProductionSystem.evaluate engine ∅ form with ⟨fault | value, next⟩
    · rw [evaluated] at runs
      cases runs
    · have evaluation := evaluate_firings engine ∅ form
      have drained := drain_firings next limit
      rw [evaluated] at runs
      rw [Engine.evaluate, evaluated] at evaluation
      rcases report : ProductionSystem.drain next limit with ⟨⟨fired, _ | fault | _⟩, middle⟩
      · rw [Engine.drain, report] at drained
        rcases rest : runForms middle limit forms with ⟨error | others, final⟩
        · simp [report, rest, Except.map] at runs
        · simp only [report, rest, Except.map, Prod.mk.injEq, Except.ok.injEq] at runs
          obtain ⟨rfl, rfl⟩ := runs
          dsimp only at evaluation drained
          rw [ih rest, drained, evaluation, Nat.add_assoc]
      · simp [report] at runs
      · simp [report] at runs

/-! ## Pieces -/

/-- Programs leave the marker as it is. -/
theorem runProgram_config (engine : Engine) (limit : Nat) (text : String) :
    (engine.runProgram limit text).2.config = engine.config := by
  have supplies : (Call.runProgram limit text).Supplies fun _ => True := trivial
  exact ((extendedBy_invariant engine).perform supplies (.refl engine)).config

/-- A text that can be read runs its forms. -/
theorem runProgram_of_ok {engine : Engine} {text : String} {forms : List Term}
    (reads : readProgram engine.config.marker text = .ok forms) (limit : Nat) :
    engine.runProgram limit text = runForms engine limit forms := by
  have same : ProductionSystem.marker engine = engine.config.marker := rfl
  rw [Engine.runProgram, ProductionSystem.runProgram, same, reads]

/-- A text that cannot be read does nothing. -/
theorem runProgram_of_error {engine : Engine} {text : String} {error : ReadError}
    (unreadable : readProgram engine.config.marker text = .error error) (limit : Nat) :
    engine.runProgram limit text = (.error (.unreadable error), engine) := by
  have same : ProductionSystem.marker engine = engine.config.marker := rfl
  rw [Engine.runProgram, ProductionSystem.runProgram, same, unreadable]

/-- **Running a program in pieces is running it whole.** Where two texts can be read, running them
together, with a line feed between them, is running the first one and then, unless it fails, the
second one on the engine that it leaves; the firings add up, and a failure of the first one leaves
the engine as it is then. The number that a program returns is by how much the count of firings has
grown. A text that cannot be read leaves the engine as it was, and so does one that can be read only
up to its second piece. -/
theorem runProgram_pieces (engine : Engine) (limit : Nat) :
    (∀ (first second : String) (forms more : List Term),
      readProgram engine.config.marker first = .ok forms →
      readProgram engine.config.marker second = .ok more →
        engine.runProgram limit (first ++ "\n" ++ second) =
          andThen (engine.runProgram limit first) fun next => next.runProgram limit second) ∧
    (∀ (text : String) (count : Nat) (last : Engine),
      engine.runProgram limit text = (.ok count, last) →
        last.firings = engine.firings + count) ∧
    (∀ (text : String) (error : ReadError),
      readProgram engine.config.marker text = .error error →
        engine.runProgram limit text = (.error (.unreadable error), engine)) ∧
    ∀ (first second : String) (forms : List Term) (error : ReadError),
      readProgram engine.config.marker first = .ok forms →
      readProgram engine.config.marker second = .error error →
        ∃ failure, engine.runProgram limit (first ++ "\n" ++ second) =
          (.error (.unreadable failure), engine) := by
  refine ⟨?_, ?_, fun _ _ unreadable => runProgram_of_error unreadable limit, ?_⟩
  · intro first second forms more readsFirst readsSecond
    have readsAll := (readProgram_append readsFirst _).mpr ⟨more, readsSecond, rfl⟩
    have config := runProgram_config engine limit first
    rw [runProgram_of_ok readsFirst] at config ⊢
    rw [runProgram_of_ok readsAll, runForms_append]
    rcases ran : runForms engine limit forms with ⟨error | count, next⟩
    · rfl
    · -- The second piece is read with the same marker, although the engine is another one.
      rw [ran] at config
      rw [← config] at readsSecond
      rw [andThen, andThen, runProgram_of_ok readsSecond]
  · intro text count last runs
    rcases reads : readProgram engine.config.marker text with error | forms
    · rw [runProgram_of_error reads] at runs
      cases runs
    · rw [runProgram_of_ok reads] at runs
      exact runForms_firings runs
  · intro first second forms error readsFirst unreadable
    rcases reads : readProgram engine.config.marker (first ++ "\n" ++ second) with failure | all
    · exact ⟨failure, runProgram_of_error reads limit⟩
    · obtain ⟨more, readsSecond, -⟩ := (readProgram_append readsFirst all).mp reads
      rw [unreadable] at readsSecond
      cases readsSecond

/-- A piece that ends in a comment, a piece that fails after a firing, and a piece with a list that
is not closed. -/
theorem runProgram_pieces_comment :
    let first := "(rule (p ?x) (assert! (q ?x))) (assert! (p 1)) ; one"
    let second := "(assert! (p 2)) (/ 1 0)"
    let engine := Engine.new {}
    engine.runProgram 3 (first ++ "\n" ++ second) =
        andThen (engine.runProgram 3 first) (fun next => next.runProgram 3 second) ∧
      (engine.runProgram 3 first).1 = .ok 1 ∧
      (engine.runProgram 3 first).2.firings = engine.firings + 1 ∧
      ∃ failure, engine.runProgram 3 (first ++ "\n" ++ "(p 2") =
        (.error (.unreadable failure), engine) := by
  intro first second engine
  let symbol (name : String) : Term := .atom (.symbol name)
  let number (value : Int64) : Term := .atom (.number (.int value))
  let assert (name : String) (item : Term) : Term :=
    .list [symbol "assert!", .list [symbol name, item]]
  have readsFirst : readProgram engine.config.marker first =
      .ok [.list [symbol "rule", .list [symbol "p", .var "?x"], assert "q" (.var "?x")],
        assert "p" (number 1)] := by
    decide +kernel
  have readsSecond : readProgram engine.config.marker second =
      .ok [assert "p" (number 2), .list [symbol "/", number 1, number 0]] := by
    decide +kernel
  have unreadable : readProgram engine.config.marker "(p 2" =
      .error ⟨"(p 2".toList, [], [.closing, .term]⟩ := by
    decide +kernel
  have returns : (engine.runProgram 3 first).1 = .ok 1 := by
    have same := (mirrors_simulation.runProgram 3 first (mirrors_new {})).result
    exact same.trans (by decide +kernel)
  obtain ⟨pieces, counts, -, partly⟩ := runProgram_pieces engine 3
  exact ⟨pieces _ _ _ _ readsFirst readsSecond, returns, counts _ _ _ (Prod.ext returns rfl),
    partly _ _ _ _ readsFirst unreadable⟩

end Engine

end ForwardChaining
