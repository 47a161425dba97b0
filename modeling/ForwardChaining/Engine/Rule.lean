import ForwardChaining.Matching.Index
import ForwardChaining.Matching.Trigger
import ForwardChaining.Matching.Unification

/-! # Rules and the agenda

A rule fires once for every tuple of facts that matches its trigger. A match waits on the agenda as
an activation, and the activation that was added last is the first to go. -/

namespace ForwardChaining

/-- A rule as it is stored. It never changes. -/
structure Rule where
  /-- The number of the rule. -/
  id : RuleId
  /-- What the rule waits for. -/
  trigger : Trigger
  /-- The forms that it evaluates for every match. -/
  body : List Term
  /-- The bindings that every match extends. -/
  environment : Bindings
  /-- The buckets of the clauses, one for each. -/
  buckets : List BucketId

/-- A rule number as it is written. -/
def RuleId.text (id : RuleId) : String := "#" ++ id.repr

/-- The text of a rule: its number, its trigger and its body. -/
def Rule.text (rule : Rule) : String :=
  " ".intercalate
    ("Rule" :: RuleId.text rule.id :: rule.trigger.text :: rule.body.map Term.text)

/-- A match of a rule that has not fired. -/
structure Activation where
  /-- The rule that matched. -/
  rule : RuleId
  /-- Its body. -/
  body : List Term
  /-- The bindings of the match. -/
  bindings : Bindings
  deriving DecidableEq

/-- The activations that wait, the one added last in front. -/
structure Agenda where
  /-- The activations from the newest to the oldest. -/
  waiting : List Activation
  deriving DecidableEq

namespace Agenda

instance : EmptyCollection Agenda := ⟨⟨[]⟩⟩
instance : Inhabited Agenda := ⟨∅⟩

/-- Adds an activation. -/
def push (agenda : Agenda) (activation : Activation) : Agenda :=
  ⟨activation :: agenda.waiting⟩

/-- Adds activations one after another. -/
def pushAll (agenda : Agenda) (activations : List Activation) : Agenda :=
  activations.foldl push agenda

/-- Takes the activation that was added last. -/
def pop? (agenda : Agenda) : Option (Activation × Agenda) :=
  match agenda.waiting with
  | [] => none
  | activation :: waiting => some (activation, ⟨waiting⟩)

/-- The number of activations. -/
def size (agenda : Agenda) : Nat := agenda.waiting.length

/-- Whether no activation waits. -/
def isEmpty (agenda : Agenda) : Bool := agenda.waiting.isEmpty

/-- Nothing waits on the empty agenda. -/
@[simp] theorem waiting_empty : (∅ : Agenda).waiting = [] := rfl

/-- An added activation waits in front. -/
@[simp] theorem waiting_push (agenda : Agenda) (activation : Activation) :
    (agenda.push activation).waiting = activation :: agenda.waiting := rfl

/-- Activations are added in their order, so they wait in the opposite one. -/
@[simp] theorem waiting_pushAll (agenda : Agenda) (activations : List Activation) :
    (agenda.pushAll activations).waiting = activations.reverse ++ agenda.waiting := by
  unfold pushAll
  induction activations generalizing agenda with
  | nil => rfl
  | cons activation activations ih => simp [ih]

/-- What was added last comes off first. -/
@[simp] theorem pop?_push (agenda : Agenda) (activation : Activation) :
    (agenda.push activation).pop? = some (activation, agenda) := rfl

/-- Only the empty agenda has nothing to take. -/
theorem pop?_eq_none_iff {agenda : Agenda} : agenda.pop? = none ↔ agenda = ∅ := by
  obtain ⟨_ | ⟨activation, waiting⟩⟩ := agenda
  · exact iff_of_true rfl rfl
  · exact iff_of_false nofun nofun

end Agenda

end ForwardChaining
