import ForwardChaining.Proofs.Matching.Renaming
import ForwardChaining.Proofs.System.History

/-! # Histories under other names

Evaluation hands variables on and compares terms, but never looks at a name. So it does the same
when the form and the environment have other names for their variables, as far as the system that it
works on does: `EvaluationSimulationUpTo` asks for two systems whose operations agree up to one
renaming, and from it follows that forms and bodies do. Values and faults then differ in the names
only.

Different rules can be under different renamings. `SimulationUpTo` adds that the systems have the
same next activation up to one of several renamings, and carries this over to drains, programs and
calls. -/

namespace ForwardChaining

open ProductionSystem

variable {σ τ α : Type} (π : Equiv.Perm String)

/-! ## Values and faults -/

/-- A value with other names for its variables. -/
def Value.rename (names : String → String) : Value → Value
  | .term content => .term (content.rename names)
  | value => value

/-- A fault with other names for the variables in what caused it. -/
def Fault.rename (names : String → String) : Fault → Fault
  | .nonGroundFact fact => .nonGroundFact (fact.rename names)
  | .notCallable head => .notCallable (head.rename names)
  | .typeMismatch name left right => .typeMismatch name (left.rename names) (right.rename names)
  | fault => fault

/-- A result with other names for the variables of its fault or of what it gives. -/
def renameResult (names : String → String) (rename : α → α) : Except Fault α → Except Fault α
  | .error fault => .error (fault.rename names)
  | .ok value => .ok (rename value)

namespace Value

/-- Keeping all names changes nothing. -/
@[simp] theorem rename_id : rename id = id := by
  funext value
  cases value <;> simp [rename]

/-- A number has no variables. -/
@[simp] theorem rename_ofNumber (names : String → String) (number : Number) :
    (ofNumber number).rename names = ofNumber number := rfl

/-- Numbers stay, and nothing else becomes one. -/
@[simp] theorem number?_rename (names : String → String) (value : Value) :
    (value.rename names).number? = value.number? := by
  match value with
  | .nil | .bool _ | .term (.atom _) | .term (.var _) => rfl
  | .term (.list items) =>
    rw [rename, Term.rename_list]
    rfl

/-- Atoms stay, and nothing else becomes one. -/
@[simp] theorem atom?_rename (names : String → String) (value : Value) :
    (value.rename names).atom? = value.atom? := by
  match value with
  | .nil | .bool _ | .term (.atom _) | .term (.var _) => rfl
  | .term (.list items) =>
    rw [rename, Term.rename_list]
    rfl

/-- Tests hold under all names. -/
@[simp] theorem isTrue_rename (names : String → String) (value : Value) :
    (value.rename names).isTrue = value.isTrue := by
  match value with
  | .nil | .bool _ | .term (.atom _) | .term (.var _) => rfl
  | .term (.list items) =>
    rw [rename, Term.rename_list, isTrue, isTrue, List.isEmpty_map]

/-- Different values stay different. -/
theorem rename_injective : Function.Injective (rename π) := by
  intro left right equal
  cases left <;> cases right <;> simp_all [rename, (Term.rename_injective π).eq_iff]

end Value

/-- Keeping all names changes nothing. -/
@[simp] theorem Fault.rename_id : Fault.rename id = id := by
  funext fault
  cases fault <;> simp [Fault.rename]

/-- Keeping all names changes nothing. -/
@[simp] theorem renameResult_id : renameResult id (id : α → α) = id := by
  funext result
  cases result <;> simp [renameResult]

/-! ## Primitives -/

/-- The faults of arithmetic have no variables. -/
theorem Arithmetic.compute_rename (names : String → String) (name : String)
    (operation : Arithmetic) (left right : Number) :
    renameResult names id (operation.compute name left right) =
      operation.compute name left right := by
  have checked (value : Int) : renameResult names id (checked name value) = checked name value := by
    rw [Arithmetic.checked]
    split <;> rfl
  have onIntegers (left right : Int64) : renameResult names id
      (onIntegers name operation left right) = onIntegers name operation left right := by
    cases operation with
    | add | sub | mul => exact checked _
    | div | mod =>
      rw [Arithmetic.onIntegers]
      split <;> rfl
  have onDoubles (left right : Double) : renameResult names id
      (onDoubles name operation left right) = onDoubles name operation left right := by
    cases operation with
    | add | sub | mul => rfl
    | div | mod =>
      rw [Arithmetic.onDoubles]
      split <;> rfl
  cases left with
  | int left =>
    cases right with
    | int right => exact onIntegers left right
    | double right => exact onDoubles _ _
  | double left => exact onDoubles _ _

/-- Values are compared under all names. -/
theorem Comparison.compareValues_rename (name : String) (comparison : Comparison)
    (left right : Value) :
    comparison.compareValues name (left.rename π) (right.rename π) =
      renameResult π id (comparison.compareValues name left right) := by
  simp only [compareValues, Value.number?_rename, Value.atom?_rename,
    (Value.rename_injective π).eq_iff]
  split
  · split <;> rfl
  · split
    · rfl
    · split
      · split <;> rfl
      · rfl

/-- **Primitives do not look at names.** -/
theorem Primitive.apply_rename (name : String) (primitive : Primitive) (values : List Value) :
    primitive.apply name (values.map (Value.rename π)) =
      renameResult π (Value.rename π) (primitive.apply name values) := by
  match values with
  | [] | [_] | _ :: _ :: _ :: _ => simp [Primitive.apply, renameResult, Fault.rename]
  | [left, right] =>
    cases primitive with
    | comparison relation =>
      rw [List.map_cons, List.map_singleton, Primitive.apply, Primitive.apply,
        relation.compareValues_rename]
      cases relation.compareValues name left right <;> rfl
    | arithmetic operation =>
      simp only [List.map_cons, List.map_nil, Primitive.apply, Value.number?_rename]
      split
      · next first second _ _ =>
        have same := operation.compute_rename π name first second
        cases computed : operation.compute name first second with
        | ok number => rfl
        | error fault =>
          rw [computed] at same
          exact congrArg Except.error (Except.error.inj same).symm
      · rfl

/-- The head of a form names the same procedure. -/
theorem Term.procedure?_rename (names : String → String) (head : Term) :
    (head.rename names).procedure? = head.procedure? := by
  rw [Term.procedure?, Term.procedure?, Term.symbol?_rename]

/-! ## Activations and responses -/

/-- An activation with other names for the variables of its rule. -/
def Activation.rename (activation : Activation) : Activation :=
  ⟨activation.rule, activation.body.map (Term.rename π), activation.bindings.rename π⟩

/-- The end of a drain, with other names in the fault. -/
def Ending.rename (names : String → String) : Ending → Ending
  | .failed fault => .failed (fault.rename names)
  | ending => ending

/-- The report on a drain, with other names in its fault. -/
def Drain.rename (names : String → String) (drain : Drain) : Drain :=
  { drain with ending := drain.ending.rename names }

/-- Why a program failed, with other names in the fault. -/
def ProgramError.rename (names : String → String) : ProgramError → ProgramError
  | .fault cause => .fault (cause.rename names)
  | error => error

/-- A response with other names for all variables in it. -/
def Response.rename (names : String → String) : Response → Response
  | .asserted result => .asserted (renameResult names id result)
  | .added rule => .added rule
  | .evaluated result => .evaluated (renameResult names (Value.rename names) result)
  | .drained drain => .drained (drain.rename names)
  | .ran result => .ran (result.mapError (ProgramError.rename names))

/-- Keeping all names changes nothing. -/
@[simp] theorem Activation.rename_refl (activation : Activation) :
    activation.rename (.refl String) = activation := by
  simp [rename]

/-- Keeping all names changes nothing. -/
@[simp] theorem Drain.rename_id : Drain.rename id = id := by
  funext ⟨fired, ending⟩
  cases ending <;> simp [Drain.rename, Ending.rename]

/-- Keeping all names changes nothing. -/
@[simp] theorem ProgramError.rename_id : ProgramError.rename id = id := by
  funext error
  cases error <;> simp [ProgramError.rename]

/-- Keeping all names changes nothing. -/
@[simp] theorem Response.rename_id : Response.rename id = id := by
  funext response
  cases response with
  | ran result => cases result <;> simp [Response.rename, Except.mapError]
  | _ => simp [Response.rename]

/-! ## Evaluation -/

/-- Two outcomes, the second of which has the result of the first under other names, and that leave
related systems. -/
structure AgreeUpTo (rename : α → α) (Related : σ → τ → Prop) (left : α × σ) (right : α × τ) :
    Prop where
  /-- The second result is the first one under other names. -/
  result : right.1 = rename left.1
  /-- The systems are related. -/
  systems : Related left.2 right.2

/-- Both fail with the same fault, or both give the same value, up to the names. -/
theorem AgreeUpTo.cases {names : String → String} {rename : α → α} {Related : σ → τ → Prop}
    {left : Except Fault α × σ} {right : Except Fault α × τ}
    (agree : AgreeUpTo (renameResult names rename) Related left right) :
    (∃ fault nextLeft nextRight, left = (.error fault, nextLeft) ∧
      right = (.error (fault.rename names), nextRight) ∧ Related nextLeft nextRight) ∨
    ∃ value nextLeft nextRight, left = (.ok value, nextLeft) ∧
      right = (.ok (rename value), nextRight) ∧ Related nextLeft nextRight := by
  obtain ⟨leftResult, nextLeft⟩ := left
  obtain ⟨rightResult, nextRight⟩ := right
  obtain ⟨result, systems⟩ := agree
  cases (show rightResult = _ from result)
  cases leftResult with
  | error fault => exact .inl ⟨fault, nextLeft, nextRight, rfl, rfl, systems⟩
  | ok value => exact .inr ⟨value, nextLeft, nextRight, rfl, rfl, systems⟩

variable [ProductionSystem σ] [ProductionSystem τ]

/-- A relation between systems that adding facts and rules keeps, under other names on the right
and with results that agree up to the names. -/
structure EvaluationSimulationUpTo (Related : σ → τ → Prop) (Allowed : Bindings → Prop) :
    Prop where
  /-- Asserting a fact keeps it. -/
  assertFact : ∀ {left right}, Related left right → ∀ fact, AgreeUpTo (renameResult π id) Related
    (assertFact left fact) (assertFact right (fact.rename π))
  /-- Adding a rule keeps it. -/
  addRule : ∀ {left right}, Related left right → ∀ {environment}, Allowed environment →
    ∀ trigger body, AgreeUpTo id Related (addRule left trigger body environment).swap
      (addRule right (trigger.rename π) (body.map (Term.rename π)) (environment.rename π)).swap

section

variable {π} {Related : σ → τ → Prop} {Allowed : Bindings → Prop}

/-- Evaluating forms in turn keeps the relation when evaluating each of them does. -/
theorem evaluateAll_agreeUpTo {environment : Bindings} {forms : List Term}
    (each : ∀ form ∈ forms, ∀ {left right}, Related left right →
      AgreeUpTo (renameResult π (Value.rename π)) Related (evaluate left environment form)
        (evaluate right (environment.rename π) (form.rename π)))
    {left : σ} {right : τ} (related : Related left right) :
    AgreeUpTo (renameResult π (List.map (Value.rename π))) Related
      (evaluateAll left environment forms)
      (evaluateAll right (environment.rename π) (forms.map (Term.rename π))) := by
  induction forms generalizing left right with
  | nil => exact ⟨rfl, related⟩
  | cons form forms ih =>
    obtain ⟨first, others⟩ := List.forall_mem_cons.mp each
    rw [List.map_cons, evaluateAll, evaluateAll]
    obtain ⟨fault, nextLeft, nextRight, ofLeft, ofRight, systems⟩ |
      ⟨value, nextLeft, nextRight, ofLeft, ofRight, systems⟩ := (first related).cases
    · simp only [ofLeft, ofRight]
      exact ⟨rfl, systems⟩
    · obtain ⟨fault, lastLeft, lastRight, restLeft, restRight, systems⟩ |
        ⟨values, lastLeft, lastRight, restLeft, restRight, systems⟩ := (ih others systems).cases
      · simp only [ofLeft, ofRight, restLeft, restRight]
        exact ⟨rfl, systems⟩
      · simp only [ofLeft, ofRight, restLeft, restRight]
        exact ⟨rfl, systems⟩

namespace EvaluationSimulationUpTo

variable (simulation : EvaluationSimulationUpTo π Related Allowed)
include simulation

/-- **Evaluating a form under other names does the same** up to the names. -/
theorem evaluate {environment : Bindings} (allowed : Allowed environment) (form : Term) {left : σ}
    {right : τ} (related : Related left right) :
    AgreeUpTo (renameResult π (Value.rename π)) Related (evaluate left environment form)
      (evaluate right (environment.rename π) (form.rename π)) := by
  induction form generalizing left right with
  | atom constant => exact ⟨rfl, related⟩
  | var name =>
    have same := environment.substitute_rename π (.var name)
    exact ⟨congrArg (fun term => Except.ok (Value.term term)) same, related⟩
  | list items ih =>
    cases items with
    | nil => exact ⟨rfl, related⟩
    | cons head arguments =>
      -- The head names the same procedure in both systems.
      replace ih := (List.forall_mem_cons.mp ih).2
      have sameHead := environment.resolve_rename π head
      have sameProcedure := Term.procedure?_rename π (environment.resolve head)
      rw [Term.rename_list, List.map_cons, ProductionSystem.evaluate, ProductionSystem.evaluate,
        sameHead, sameProcedure]
      rcases (environment.resolve head).procedure? with _ | ⟨name, form | primitive⟩
      · exact ⟨rfl, related⟩
      · cases form with
        | rule =>
          match arguments with
          | [] => exact ⟨rfl, related⟩
          | trigger :: body =>
            have added := simulation.addRule related allowed (.ofTerm trigger) body
            rw [← Trigger.ofTerm_rename] at added
            exact ⟨rfl, added.systems⟩
        | assert =>
          match arguments with
          | [] | _ :: _ :: _ => exact ⟨rfl, related⟩
          | [fact] =>
            have asserted := simulation.assertFact related (environment.substitute fact)
            rw [← Bindings.substitute_rename] at asserted
            obtain ⟨fault, nextLeft, nextRight, ofLeft, ofRight, systems⟩ |
              ⟨value, nextLeft, nextRight, ofLeft, ofRight, systems⟩ := asserted.cases
            · simp only [List.map_cons, List.map_nil, ofLeft, ofRight]
              exact ⟨rfl, systems⟩
            · simp only [List.map_cons, List.map_nil, ofLeft, ofRight]
              exact ⟨rfl, systems⟩
        | when =>
          match arguments with
          | [] | [_] | _ :: _ :: _ :: _ => exact ⟨rfl, related⟩
          | [test, consequent] =>
            obtain ⟨fault, nextLeft, nextRight, ofLeft, ofRight, systems⟩ |
              ⟨value, nextLeft, nextRight, ofLeft, ofRight, systems⟩ :=
              (ih test (by simp) related).cases
            · simp only [List.map_cons, List.map_nil, ofLeft, ofRight]
              exact ⟨rfl, systems⟩
            · simp only [List.map_cons, List.map_nil, ofLeft, ofRight, Value.isTrue_rename]
              split
              · exact ih consequent (by simp) systems
              · exact ⟨rfl, systems⟩
      · obtain ⟨fault, nextLeft, nextRight, ofLeft, ofRight, systems⟩ |
          ⟨values, nextLeft, nextRight, ofLeft, ofRight, systems⟩ :=
          (evaluateAll_agreeUpTo ih related).cases
        · simp only [ofLeft, ofRight]
          exact ⟨rfl, systems⟩
        · simp only [ofLeft, ofRight]
          exact ⟨primitive.apply_rename π name values, systems⟩

/-- **Evaluating the body of a rule under other names does the same** up to the names. -/
theorem evaluateBody {bindings : Bindings} (allowed : Allowed bindings) (body : List Term)
    {left : σ} {right : τ} (related : Related left right) :
    AgreeUpTo (renameResult π id) Related (evaluateBody left bindings body)
      (evaluateBody right (bindings.rename π) (body.map (Term.rename π))) := by
  induction body generalizing left right with
  | nil => exact ⟨rfl, related⟩
  | cons form forms ih =>
    have first := simulation.evaluate allowed (bindings.substitute form) related
    rw [← Bindings.substitute_rename] at first
    rw [List.map_cons, ProductionSystem.evaluateBody, ProductionSystem.evaluateBody]
    obtain ⟨fault, nextLeft, nextRight, ofLeft, ofRight, systems⟩ |
      ⟨value, nextLeft, nextRight, ofLeft, ofRight, systems⟩ := first.cases
    · simp only [ofLeft, ofRight]
      exact ⟨rfl, systems⟩
    · simp only [ofLeft, ofRight]
      exact ih systems

end EvaluationSimulationUpTo

end

/-! ## Drains and calls -/

/-- A relation between systems that all operations keep, with results that agree up to some
renamings. -/
structure SimulationUpTo (Names : Set (Equiv.Perm String)) (Related : σ → τ → Prop)
    (Allowed : Bindings → Prop) : Prop where
  /-- Adding facts and rules keeps it under each renaming. -/
  evaluation : ∀ π ∈ Names, EvaluationSimulationUpTo π Related Allowed
  /-- The names may stay as they are. -/
  refl_mem : .refl String ∈ Names
  /-- Related systems read programs with the same marker. -/
  marker : ∀ {left right}, Related left right → marker left = marker right
  /-- Programs start without bindings. -/
  empty : Allowed ∅
  /-- Related systems have no activation left, or the same next one up to a renaming. -/
  takeNewest? : ∀ {left right}, Related left right →
    (takeNewest? left = none ∧ takeNewest? right = none) ∨
    ∃ π ∈ Names, ∃ activation nextLeft nextRight,
      takeNewest? left = some (activation, nextLeft) ∧
      takeNewest? right = some (activation.rename π, nextRight) ∧ Allowed activation.bindings ∧
      Related nextLeft nextRight

/-- The same form under other names. -/
def Term.AlikeUpTo (Names : Set (Equiv.Perm String)) (form other : Term) : Prop :=
  ∃ π ∈ Names, other = form.rename π

/-- The same call under other names: one renaming for all that it brings, except for programs, which
have one for each form. -/
inductive Call.AlikeUpTo (Names : Set (Equiv.Perm String)) (marker : Char) : Call → Call → Prop
    where
  /-- Asserting a fact. -/
  | assertFact {π : Equiv.Perm String} (member : π ∈ Names) (fact : Term) :
    AlikeUpTo Names marker (.assertFact fact) (.assertFact (fact.rename π))
  /-- Adding a rule. -/
  | addRule {π : Equiv.Perm String} (member : π ∈ Names) (trigger : Trigger) (body : List Term)
    (environment : Bindings) : AlikeUpTo Names marker (.addRule trigger body environment)
      (.addRule (trigger.rename π) (body.map (Term.rename π)) (environment.rename π))
  /-- Evaluating a form. -/
  | evaluate {π : Equiv.Perm String} (member : π ∈ Names) (environment : Bindings) (form : Term) :
    AlikeUpTo Names marker (.evaluate environment form)
      (.evaluate (environment.rename π) (form.rename π))
  /-- Draining the agenda. -/
  | runRules (limit : Nat) : AlikeUpTo Names marker (.runRules limit) (.runRules limit)
  /-- Running a text that cannot be read. -/
  | unreadable (limit : Nat) {text : String} {error : ReadError}
    (unread : readProgram marker text = .error error) :
    AlikeUpTo Names marker (.runProgram limit text) (.runProgram limit text)
  /-- Running a program. -/
  | runProgram (limit : Nat) {text other : String} {forms others : List Term}
    (read : readProgram marker text = .ok forms)
    (readOther : readProgram marker other = .ok others)
    (alike : List.Forall₂ (Term.AlikeUpTo Names) forms others) :
    AlikeUpTo Names marker (.runProgram limit text) (.runProgram limit other)

/-- Every call is the same as itself. -/
theorem Call.alikeUpTo_self {Names : Set (Equiv.Perm String)} (refl_mem : .refl String ∈ Names)
    (marker : Char) (call : Call) : call.AlikeUpTo Names marker call := by
  cases call with
  | assertFact fact => simpa using AlikeUpTo.assertFact refl_mem fact
  | addRule trigger body environment =>
    simpa using AlikeUpTo.addRule refl_mem trigger body environment
  | evaluate environment form => simpa using AlikeUpTo.evaluate refl_mem environment form
  | runRules limit => exact .runRules limit
  | runProgram limit text =>
    cases read : readProgram marker text with
    | error error => exact .unreadable limit read
    | ok forms =>
      refine .runProgram limit read read (List.forall₂_same.mpr fun form _ => ?_)
      exact ⟨_, refl_mem, by simp⟩

namespace SimulationUpTo

variable {Names : Set (Equiv.Perm String)} {Related : σ → τ → Prop} {Allowed : Bindings → Prop}
  (simulation : SimulationUpTo Names Related Allowed)
include simulation

/-- **A drain fires the same rules** and ends in the same way up to the names. -/
theorem drain (limit : Nat) {left : σ} {right : τ} (related : Related left right) :
    ∃ π ∈ Names, AgreeUpTo (Drain.rename π) Related (drain left limit) (drain right limit) := by
  induction limit generalizing left right with
  | zero =>
    obtain ⟨noneLeft, noneRight⟩ | ⟨_, -, activation, nextLeft, nextRight, ofLeft, ofRight, -⟩ :=
      simulation.takeNewest? related
    · rw [drain_of_none noneLeft, drain_of_none noneRight]
      exact ⟨_, simulation.refl_mem, rfl, related⟩
    · rw [drain_zero_of_some ofLeft, drain_zero_of_some ofRight]
      exact ⟨_, simulation.refl_mem, rfl, related⟩
  | succ limit ih =>
    obtain ⟨noneLeft, noneRight⟩ |
      ⟨π, member, activation, nextLeft, nextRight, ofLeft, ofRight, allowed, taken⟩ :=
      simulation.takeNewest? related
    · rw [drain_of_none noneLeft, drain_of_none noneRight]
      exact ⟨_, simulation.refl_mem, rfl, related⟩
    · obtain ⟨fault, lastLeft, lastRight, firedLeft, firedRight, systems⟩ |
        ⟨_, lastLeft, lastRight, firedLeft, firedRight, systems⟩ :=
        ((simulation.evaluation π member).evaluateBody allowed activation.body taken).cases
      · rw [drain_succ_of_error ofLeft firedLeft, drain_succ_of_error ofRight firedRight]
        exact ⟨π, member, rfl, systems⟩
      · -- The rest of the drain may end with the fault of another rule, under other names.
        rw [drain_succ_of_ok ofLeft firedLeft, drain_succ_of_ok ofRight firedRight]
        obtain ⟨other, otherMember, rest, systems⟩ := ih systems
        exact ⟨other, otherMember, by rw [rest]; rfl, systems⟩

/-- Running forms under other names does the same up to the names. -/
theorem runForms (limit : Nat) {forms others : List Term}
    (alike : List.Forall₂ (Term.AlikeUpTo Names) forms others) {left : σ} {right : τ}
    (related : Related left right) :
    ∃ π ∈ Names, AgreeUpTo (Except.mapError (ProgramError.rename π)) Related
      (runForms left limit forms) (runForms right limit others) := by
  induction alike generalizing left right with
  | nil => exact ⟨_, simulation.refl_mem, rfl, related⟩
  | @cons form _ forms others first _ ih =>
    obtain ⟨π, member, rfl⟩ := first
    have evaluated := (simulation.evaluation π member).evaluate simulation.empty form related
    rw [Bindings.rename_empty] at evaluated
    rw [ProductionSystem.runForms, ProductionSystem.runForms]
    obtain ⟨fault, nextLeft, nextRight, ofLeft, ofRight, systems⟩ |
      ⟨value, nextLeft, nextRight, ofLeft, ofRight, systems⟩ := evaluated.cases
    · simp only [ofLeft, ofRight]
      exact ⟨π, member, rfl, systems⟩
    · obtain ⟨π, member, result, systems⟩ := simulation.drain limit systems
      rcases drainedLeft : ProductionSystem.drain nextLeft limit with ⟨⟨fired, ending⟩, lastLeft⟩
      rcases drainedRight : ProductionSystem.drain nextRight limit with ⟨drainRight, lastRight⟩
      simp only [drainedLeft, drainedRight] at result systems
      cases ending with
      | failed fault =>
        simp only [ofLeft, ofRight, drainedLeft, drainedRight, result]
        exact ⟨π, member, rfl, systems⟩
      | limited =>
        simp only [ofLeft, ofRight, drainedLeft, drainedRight, result]
        exact ⟨π, member, rfl, systems⟩
      | drained =>
        -- There is no fault to rename, so both go on after the same firings.
        replace result : drainRight = ⟨fired, .drained⟩ := result
        obtain ⟨π, member, rest, systems⟩ := ih systems
        simp only [ofLeft, ofRight, drainedLeft, drainedRight, result, rest]
        refine ⟨π, member, ?_, systems⟩
        cases (ProductionSystem.runForms lastLeft limit forms).1 <;> rfl

/-- **A call under other names does the same** up to the names. -/
theorem perform {left : σ} {right : τ} (related : Related left right) {call other : Call}
    (alike : call.AlikeUpTo Names (ProductionSystem.marker left) other)
    (allowed : call.Supplies Allowed) :
    ∃ π ∈ Names, AgreeUpTo (Response.rename π) Related (call.perform left)
      (other.perform right) := by
  cases alike with
  | assertFact member fact =>
    obtain ⟨result, systems⟩ := (simulation.evaluation _ member).assertFact related fact
    exact ⟨_, member, congrArg Response.asserted result, systems⟩
  | addRule member trigger body environment =>
    obtain ⟨result, systems⟩ :=
      (simulation.evaluation _ member).addRule related allowed trigger body
    exact ⟨_, member, congrArg Response.added result, systems⟩
  | evaluate member environment form =>
    obtain ⟨result, systems⟩ := (simulation.evaluation _ member).evaluate allowed form related
    exact ⟨_, member, congrArg Response.evaluated result, systems⟩
  | runRules limit =>
    obtain ⟨π, member, result, systems⟩ := simulation.drain limit related
    exact ⟨π, member, congrArg Response.drained result, systems⟩
  | unreadable limit unread =>
    refine ⟨_, simulation.refl_mem, ?_⟩
    rw [Call.perform, Call.perform, ProductionSystem.runProgram, ProductionSystem.runProgram,
      ← simulation.marker related, unread]
    exact ⟨rfl, related⟩
  | runProgram limit read readOther alike =>
    obtain ⟨π, member, result, systems⟩ := simulation.runForms limit alike related
    refine ⟨π, member, ?_⟩
    rw [Call.perform, Call.perform, ProductionSystem.runProgram, ProductionSystem.runProgram,
      ← simulation.marker related, read, readOther]
    exact ⟨congrArg Response.ran result, systems⟩

end SimulationUpTo

end ForwardChaining
