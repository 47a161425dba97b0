import ForwardChaining.Engine.Rule
import ForwardChaining.Proofs.Matching.Product

/-! # The matches of a rule

A rule has a match for every tuple of facts that unifies with its clauses. `Rule.allMatches` tries
all tuples, without an index and without a memory of earlier searches. `Rule.newMatches` only tries
the tuples that hold the newest fact, and finds exactly the matches that were not there before it
(`Rule.allMatches_push_perm`).

Rules that match the same facts, one with what a change makes of the matches of the other, do so in
all these searches (`Rule.MatchesAs`). -/

namespace ForwardChaining

/-- The facts with some numbers. -/
def termsAt (facts : Array Term) (ids : List FactId) : List Term := ids.filterMap (facts[·]?)

/-- Numbers of old facts stand for the same facts when one more is stored. -/
theorem termsAt_push {facts : Array Term} {ids : List FactId} (old : ∀ id ∈ ids, id < facts.size)
    (fact : Term) : termsAt (facts.push fact) ids = termsAt facts ids := by
  refine List.filterMap_congr fun id member => ?_
  rw [Array.getElem?_push, if_neg (Nat.ne_of_lt (old id member))]

/-- Numbers of stored facts stand for one fact each. -/
theorem forall₂_termsAt {facts : Array Term} {ids : List FactId}
    (stored : ∀ id ∈ ids, id < facts.size) :
    List.Forall₂ (fun id fact => facts[id]? = some fact) ids (termsAt facts ids) := by
  induction ids with
  | nil => exact .nil
  | cons id ids ih =>
    obtain ⟨first, others⟩ := List.forall_mem_cons.mp stored
    have found : facts[id]? = some facts[id] := Array.getElem?_eq_getElem first
    rw [termsAt, List.filterMap_cons_some found]
    exact .cons found (ih others)

/-- Only stored facts are meant. -/
theorem mem_of_mem_termsAt {facts : Array Term} {ids : List FactId} {fact : Term}
    (member : fact ∈ termsAt facts ids) : fact ∈ facts := by
  obtain ⟨id, -, found⟩ := List.mem_filterMap.mp member
  exact Array.mem_of_getElem? found

/-- Every list of stored facts is that of some numbers. -/
theorem exists_termsAt {facts : Array Term} {list : List Term}
    (stored : ∀ fact ∈ list, fact ∈ facts) :
    ∃ ids, ids.length = list.length ∧ (∀ id ∈ ids, id < facts.size) ∧
      termsAt facts ids = list := by
  induction list with
  | nil => exact ⟨[], rfl, by simp, rfl⟩
  | cons fact list ih =>
    obtain ⟨first, others⟩ := List.forall_mem_cons.mp stored
    obtain ⟨id, found⟩ := Array.mem_iff_getElem?.mp first
    obtain ⟨ids, length, below, equal⟩ := ih others
    refine ⟨id :: ids, by simp [length], ?_, ?_⟩
    · exact List.forall_mem_cons.mpr ⟨(Array.getElem?_eq_some_iff.mp found).1, below⟩
    · rw [termsAt, List.filterMap_cons_some found, ← equal, termsAt]

namespace Rule

/-- The match of a rule with some facts. -/
def match? (rule : Rule) (facts : List Term) : Option Activation :=
  (unifyAll facts rule.trigger.clauses rule.environment).map fun bindings =>
    ⟨rule.id, rule.body, bindings⟩

/-- The matches of a rule with some tuples of facts. -/
def matchesAmong (rule : Rule) (facts : Array Term) (candidates : List (List FactId)) :
    List Activation :=
  candidates.filterMap fun tuple => rule.match? (termsAt facts tuple)

/-- The matches of a rule with all tuples of facts, in lexicographic order. -/
def allMatches (rule : Rule) (facts : Array Term) : List Activation :=
  rule.matchesAmong facts (tuples facts.size rule.trigger.size)

/-- The matches of a rule that hold the fact `newest` at the clause `fixed`, and only older facts
before it, in lexicographic order. -/
def matchesAround (rule : Rule) (facts : Array Term) (newest : FactId) (fixed : Nat) :
    List Activation :=
  rule.matchesAmong facts (tuplesAround newest fixed rule.trigger.size)

/-- The matches of a rule that hold the newest fact, by its first clause. -/
def newMatches (rule : Rule) (facts : Array Term) (newest : FactId) : List Activation :=
  (List.range rule.trigger.size).flatMap (rule.matchesAround facts newest)

variable {rule : Rule} {facts : Array Term} {activation : Activation}

/-- A match is that of a rule with as many facts as it has clauses. -/
theorem mem_allMatches : activation ∈ rule.allMatches facts ↔
    ∃ tuple : List FactId, tuple.length = rule.trigger.size ∧ (∀ id ∈ tuple, id < facts.size) ∧
      rule.match? (termsAt facts tuple) = some activation := by
  simp only [allMatches, matchesAmong, List.mem_filterMap, mem_tuples, and_assoc]

/-- An activation of a rule tells its number, its body and bindings that match. -/
theorem match?_eq_some_iff {list : List Term} : rule.match? list = some activation ↔
    unifyAll list rule.trigger.clauses rule.environment = some activation.bindings ∧
      activation.rule = rule.id ∧ activation.body = rule.body := by
  obtain ⟨id, body, bindings⟩ := activation
  simp only [match?, Option.map_eq_some_iff, Activation.mk.injEq]
  constructor
  · rintro ⟨_, unified, rfl, rfl, rfl⟩
    exact ⟨unified, rfl, rfl⟩
  · rintro ⟨unified, rfl, rfl⟩
    exact ⟨bindings, unified, rfl, rfl, rfl⟩

/-- Tuples of old facts have the same matches when one more fact is stored. -/
theorem matchesAmong_push (rule : Rule) {candidates : List (List FactId)}
    (old : ∀ tuple ∈ candidates, ∀ id ∈ tuple, id < facts.size) (fact : Term) :
    rule.matchesAmong (facts.push fact) candidates = rule.matchesAmong facts candidates := by
  refine List.filterMap_congr fun tuple member => ?_
  rw [termsAt_push (old tuple member)]

open scoped List in
/-- **One more fact adds its new matches**, each once, and takes none away. -/
theorem allMatches_push_perm (rule : Rule) (facts : Array Term) (fact : Term) :
    (rule.allMatches (facts.push fact)).Perm
      (rule.allMatches facts ++ rule.newMatches (facts.push fact) facts.size) := by
  have old : rule.matchesAmong (facts.push fact) (tuples facts.size rule.trigger.size) =
      rule.allMatches facts :=
    rule.matchesAmong_push (fun tuple member => (mem_tuples.mp member).2) fact
  calc rule.allMatches (facts.push fact)
      = rule.matchesAmong (facts.push fact) (tuples (facts.size + 1) rule.trigger.size) := by
        rw [allMatches, Array.size_push]
    _ ~ rule.matchesAmong (facts.push fact) (tuples facts.size rule.trigger.size ++
          (List.range rule.trigger.size).flatMap (tuplesAround facts.size · rule.trigger.size)) :=
        (tuples_succ_perm facts.size rule.trigger.size).filterMap _
    _ = rule.allMatches facts ++ rule.newMatches (facts.push fact) facts.size := by
        rw [← old]
        simp only [matchesAmong, List.filterMap_append, List.filterMap_flatMap, newMatches]
        rfl

/-! ## Rules that match alike -/

/-- One rule matches as another one does: with the same ground facts, and with matches that a change
makes of those of the other. -/
structure MatchesAs (change : Activation → Activation) (rule other : Rule) : Prop where
  /-- They have equally many clauses. -/
  size_eq : other.trigger.size = rule.trigger.size
  /-- They match the same ground facts. -/
  match?_eq : ∀ list : List Term, (∀ fact ∈ list, fact.isGround) →
    other.match? list = (rule.match? list).map change

namespace MatchesAs

variable {change : Activation → Activation} {other : Rule} (alike : rule.MatchesAs change other)
include alike

/-- It matches so with any tuples of ground facts. -/
theorem matchesAmong_eq (ground : ∀ fact ∈ facts, fact.isGround) (candidates : List (List FactId)) :
    other.matchesAmong facts candidates = (rule.matchesAmong facts candidates).map change := by
  rw [matchesAmong, matchesAmong, List.map_filterMap]
  refine List.filterMap_congr fun tuple _ => ?_
  exact alike.match?_eq _ fun fact member => ground fact (mem_of_mem_termsAt member)

/-- It matches so with all tuples. -/
theorem allMatches_eq (ground : ∀ fact ∈ facts, fact.isGround) :
    other.allMatches facts = (rule.allMatches facts).map change := by
  rw [allMatches, allMatches, alike.size_eq]
  exact alike.matchesAmong_eq ground _

/-- It matches so with the newest fact. -/
theorem newMatches_eq (ground : ∀ fact ∈ facts, fact.isGround) (newest : FactId) :
    other.newMatches facts newest = (rule.newMatches facts newest).map change := by
  rw [newMatches, newMatches, alike.size_eq, List.map_flatMap]
  refine List.flatMap_congr fun fixed _ => ?_
  rw [matchesAround, matchesAround, alike.size_eq]
  exact alike.matchesAmong_eq ground _

end MatchesAs

end Rule

end ForwardChaining
