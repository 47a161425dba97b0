import ForwardChaining.Engine.Program

/-! # Histories of calls

What a user does with a production system is a list of calls. A call gives a response, which may be
a fault, and leaves the system ready for the next call either way.

Drains take a limit on their firings. A drain that reaches it stands for one that has not come to
its end, so a statement about all limits covers every drain that ends, and the drains that go on
for ever as far as they have come. -/

namespace ForwardChaining

open ProductionSystem

/-- A call of the programming interface. -/
inductive Call where
  /-- Asserts a fact. -/
  | assertFact (fact : Term)
  /-- Adds a rule that captures an environment. -/
  | addRule (trigger : Trigger) (body : List Term) (environment : Bindings)
  /-- Evaluates a form in an environment. -/
  | evaluate (environment : Bindings) (form : Term)
  /-- Drains the agenda. -/
  | runRules (limit : Nat)
  /-- Runs a program, with a drain after each of its forms. -/
  | runProgram (limit : Nat) (text : String)
  deriving DecidableEq

/-- What a call gives back. -/
inductive Response where
  /-- The number of an asserted fact. -/
  | asserted (result : Except Fault FactId)
  /-- The number of an added rule. -/
  | added (rule : RuleId)
  /-- The value of a form. -/
  | evaluated (result : Except Fault Value)
  /-- What a drain did. -/
  | drained (drain : Drain)
  /-- The number of firings of a program. -/
  | ran (result : Except ProgramError Nat)

/-- Whether a call ended in an error. -/
def Response.isError : Response → Bool
  | .asserted (.error _) | .evaluated (.error _) | .drained ⟨_, .failed _⟩ => true
  | .ran (.error error) => error ≠ .limited
  | _ => false

/-- Whether every drain of a call came to its end. -/
def Response.isFinished : Response → Bool
  | .drained ⟨_, .limited⟩ | .ran (.error .limited) => false
  | _ => true

variable {σ : Type} [ProductionSystem σ]

/-- Performs a call. -/
def Call.perform (system : σ) : Call → Response × σ
  | .assertFact fact =>
    let (result, system) := ProductionSystem.assertFact system fact
    (.asserted result, system)
  | .addRule trigger body environment =>
    let (system, rule) := ProductionSystem.addRule system trigger body environment
    (.added rule, system)
  | .evaluate environment form =>
    let (result, system) := ProductionSystem.evaluate system environment form
    (.evaluated result, system)
  | .runRules limit =>
    let (drain, system) := drain system limit
    (.drained drain, system)
  | .runProgram limit text =>
    let (result, system) := ProductionSystem.runProgram system limit text
    (.ran result, system)

/-- Performs calls one after another. -/
def performAll (system : σ) : List Call → List Response × σ
  | [] => ([], system)
  | call :: calls =>
    let (response, system) := call.perform system
    let (responses, system) := performAll system calls
    (response :: responses, system)

/-! ## Drains step by step -/

/-- The report on a drain that goes on where another one has fired some rules. -/
def Drain.after (drain : Drain) (fired : List RuleId) : Drain :=
  { drain with fired := fired ++ drain.fired }

section

variable {system next last : σ} {activation : Activation}

/-- A drain ends where no activation is left. -/
theorem drain_of_none (noneTaken : takeNewest? system = none) (limit : Nat) :
    drain system limit = (⟨[], .drained⟩, system) := by
  cases limit with
  | zero =>
    rw [drain, noneTaken]
    rfl
  | succ limit => rw [drain, noneTaken]

/-- A drain stops at its limit. -/
theorem drain_zero_of_some (taken : takeNewest? system = some (activation, next)) :
    drain system 0 = (⟨[], .limited⟩, system) := by
  rw [drain, taken]
  rfl

/-- A drain ends with a body that fails. -/
theorem drain_succ_of_error (taken : takeNewest? system = some (activation, next)) {fault : Fault}
    (fired : evaluateBody next activation.bindings activation.body = (.error fault, last))
    (limit : Nat) : drain system (limit + 1) = (⟨[activation.rule], .failed fault⟩, last) := by
  simp only [drain, taken, fired]

/-- Where a body does not fail, the drain goes on. -/
theorem drain_succ_of_ok (taken : takeNewest? system = some (activation, next))
    (fired : evaluateBody next activation.bindings activation.body = (.ok (), last))
    (limit : Nat) : drain system (limit + 1) =
      ((drain last limit).1.after [activation.rule], (drain last limit).2) := by
  simp only [drain, taken, fired]
  rfl

end

/-! ## How drains end -/

/-- Whether a body failed. -/
def Ending.isFailed : Ending → Bool
  | .failed _ => true
  | _ => false

/-- How the drains end that follow the forms of a program. -/
def formEndings (system : σ) (limit : Nat) : List Term → List Ending
  | [] => []
  | form :: forms =>
    match ProductionSystem.evaluate system ∅ form with
    | (.error _, _) => []
    | (.ok _, system) =>
      match drain system limit with
      | (⟨_, .drained⟩, system) => .drained :: formEndings system limit forms
      | (⟨_, ending⟩, _) => [ending]

/-- How the drains of a call end. -/
def Call.endings (system : σ) : Call → List Ending
  | .runRules limit => [(drain system limit).1.ending]
  | .runProgram limit text =>
    match readProgram (marker system) text with
    | .error _ => []
    | .ok forms => formEndings system limit forms
  | _ => []

/-- How all the drains of some calls end, those inside programs as well. -/
def endings (system : σ) : List Call → List Ending
  | [] => []
  | call :: calls => call.endings system ++ endings (call.perform system).2 calls

/-- A body that fails after a form of a program makes the program fail. -/
theorem exists_fault_of_formEndings {system : σ} {limit : Nat} {forms : List Term}
    {ending : Ending} (member : ending ∈ formEndings system limit forms)
    (failed : ending.isFailed) :
    ∃ fault, (runForms system limit forms).1 = .error (.fault fault) := by
  induction forms generalizing system with
  | nil => cases member
  | cons form forms ih =>
    rw [formEndings] at member
    rw [runForms]
    rcases evaluated : ProductionSystem.evaluate system ∅ form with ⟨_ | value, next⟩
    · rw [evaluated] at member
      cases member
    · rcases drained : drain next limit with ⟨⟨fired, last⟩, after⟩
      simp only [evaluated, drained] at member ⊢
      cases last with
      | failed fault => exact ⟨fault, rfl⟩
      | limited =>
        -- The only drain that is listed reached its limit.
        rw [List.mem_singleton.mp member] at failed
        cases failed
      | drained =>
        -- The failure comes later, and the count of firings is lost with it.
        rcases List.mem_cons.mp member with rfl | later
        · cases failed
        · obtain ⟨fault, result⟩ := ih later
          exact ⟨fault, by simp only [result, Except.map]⟩

/-- A body that fails shows in the response to the call. -/
theorem Call.isError_of_isFailed {system : σ} {call : Call} {ending : Ending}
    (member : ending ∈ call.endings system) (failed : ending.isFailed) :
    (call.perform system).1.isError := by
  cases call with
  | runRules limit =>
    rw [List.mem_singleton.mp member] at failed
    show (Response.drained (drain system limit).1).isError
    rcases drained : (drain system limit).1 with ⟨fired, _ | fault | _⟩
    · simp [drained, Ending.isFailed] at failed
    · rfl
    · simp [drained, Ending.isFailed] at failed
  | runProgram limit text =>
    show (Response.ran (ProductionSystem.runProgram system limit text).1).isError
    rw [endings] at member
    rw [ProductionSystem.runProgram]
    split
    · rfl
    · next forms read =>
      rw [read] at member
      obtain ⟨fault, result⟩ := exists_fault_of_formEndings member failed
      rw [result]
      rfl
  | _ => cases member

/-- When no call ends in an error, no body has failed. -/
theorem not_isFailed_of_not_isError {system : σ} {calls : List Call}
    (succeeds : ∀ response ∈ (performAll system calls).1, ¬ response.isError) :
    ∀ ending ∈ endings system calls, ¬ ending.isFailed := by
  induction calls generalizing system with
  | nil => nofun
  | cons call calls ih =>
    obtain ⟨first, others⟩ := List.forall_mem_cons.mp succeeds
    refine List.forall_mem_append.mpr ⟨?_, ih others⟩
    intro ending member failed
    exact first (call.isError_of_isFailed member failed)

/-! ## Lists of calls -/

/-- Whether a call hands over no other environment than allowed ones. -/
def Call.Supplies (Allowed : Bindings → Prop) : Call → Prop
  | .addRule _ _ environment | .evaluate environment _ => Allowed environment
  | _ => True

/-- Where all environments are allowed, every call may be made. -/
theorem Call.supplies_of_forall {Allowed : Bindings → Prop}
    (all : ∀ environment, Allowed environment) (call : Call) : call.Supplies Allowed := by
  cases call with
  | addRule trigger body environment => exact all environment
  | evaluate environment form => exact all environment
  | _ => trivial

/-- Calls are performed before those that follow them. -/
theorem performAll_append (system : σ) (calls later : List Call) :
    performAll system (calls ++ later) =
      ((performAll system calls).1 ++ (performAll (performAll system calls).2 later).1,
        (performAll (performAll system calls).2 later).2) := by
  induction calls generalizing system with
  | nil => rfl
  | cons call calls ih => simp [performAll, ih]

/-- So are their drains. -/
theorem endings_append (system : σ) (calls later : List Call) :
    endings system (calls ++ later) =
      endings system calls ++ endings (performAll system calls).2 later := by
  induction calls generalizing system with
  | nil => rfl
  | cons call calls ih => simp [endings, performAll, ih]

end ForwardChaining
