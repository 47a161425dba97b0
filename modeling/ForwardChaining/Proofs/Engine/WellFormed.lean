import ForwardChaining.Proofs.Engine.Matches
import ForwardChaining.Proofs.Matching.Compatibility
import ForwardChaining.Proofs.Matching.IndexContents
import ForwardChaining.Proofs.System.Simulation
import Mathlib.Data.List.Induction

/-! # Well-formed engines

In a well-formed engine the facts are ground, the rules are numbered from one, and the index holds
exactly the stored facts and clauses. Calls keep engines well-formed.

From well-formedness it follows that the searches lose nothing by asking the index: a new rule
queues all its matches (`WellFormed.addRule_agenda`), and a new fact queues the new matches of all
rules, by rule and then by clause (`WellFormed.assertFact_agenda`). -/

namespace ForwardChaining

/-- The places of some items of a list, with the items dropped. -/
theorem map_snd_filter_zipIdx {α : Type} (keep : α → Bool) (list : List α) :
    (list.zipIdx.filter (keep ·.1)).map (·.2) =
      (List.range list.length).filter fun place => list[place]?.any keep := by
  induction list using List.reverseRecOn with
  | nil => rfl
  | append_singleton list item ih =>
    have old : (List.range list.length).filter (fun place => (list ++ [item])[place]?.any keep) =
        (List.range list.length).filter fun place => list[place]?.any keep := by
      refine List.filter_congr fun place below => ?_
      rw [List.getElem?_append_left (List.mem_range.mp below)]
    rw [List.length_append, List.length_singleton, List.range_succ, List.filter_append, old, ← ih,
      List.zipIdx_append, List.filter_append, List.map_append]
    by_cases kept : keep item <;> simp [kept]

namespace Engine

variable {engine : Engine}

/-! ## What the index holds -/

/-- Facts by signature, with their numbers. -/
def factEntries (facts : List Term) : List (Signature × FactId) :=
  facts.zipIdx.map fun (fact, id) => (Signature.of fact, id)

/-- The clauses of a rule by signature, from some position on. -/
def clauseEntries (id : RuleId) (position : Nat) (clauses : List Term) :
    List (Signature × ClauseRef) :=
  (clauses.zipIdx position).map fun (clause, place) => (Signature.of clause, ⟨id, place⟩)

/-- All clauses of a rule by signature. -/
def ruleEntries (rule : Rule) : List (Signature × ClauseRef) :=
  clauseEntries rule.id 0 rule.trigger.clauses

/-- One more fact is entered under its signature. -/
theorem factEntries_append (facts : List Term) (fact : Term) :
    factEntries (facts ++ [fact]) = factEntries facts ++ [(Signature.of fact, facts.length)] := by
  simp [factEntries, List.zipIdx_append]

/-- Facts are entered in their order. -/
theorem map_snd_factEntries (facts : List Term) :
    (factEntries facts).map (·.2) = List.range facts.length := by
  have numbers := List.zipIdx_map_snd 0 facts
  rw [← List.range_eq_range'] at numbers
  rw [factEntries, List.map_map, ← numbers]
  rfl

/-- The clauses of a rule are entered in their order. -/
theorem map_snd_ruleEntries (rule : Rule) :
    (ruleEntries rule).map (·.2) = (List.range rule.trigger.size).map (⟨rule.id, ·⟩) := by
  have places := List.zipIdx_map_snd 0 rule.trigger.clauses
  rw [← List.range_eq_range'] at places
  rw [ruleEntries, clauseEntries, List.map_map, Trigger.size, ← places, List.map_map]
  rfl

/-- Indexing the clauses of a rule enters each of them. -/
theorem holds_indexClauses {index : Index} {facts : List (Signature × FactId)}
    {entries : List (Signature × ClauseRef)} (holds : index.Holds facts entries) (id : RuleId)
    (position : Nat) (clauses : List Term) :
    (indexClauses id position clauses index).1.Holds facts
      (entries ++ clauseEntries id position clauses) := by
  induction clauses generalizing position index entries with
  | nil => simpa [clauseEntries, indexClauses] using holds
  | cons clause clauses ih =>
    have rest := ih (holds.insertClause (Signature.of clause) ⟨id, position⟩) (position + 1)
    rw [List.append_assoc] at rest
    exact rest

/-- What every engine keeps to. -/
structure WellFormed (engine : Engine) : Prop where
  /-- The facts are ground. -/
  ground : ∀ fact ∈ engine.facts, fact.isGround
  /-- The rules are numbered from one. -/
  numbered : ∀ (position : Nat) (rule : Rule), engine.rules[position]? = some rule →
    rule.id = position + 1
  /-- The newest rule has the largest number. -/
  newest : engine.newestRule = engine.rules.size
  /-- The index holds the facts and the clauses of the rules. -/
  index : engine.index.Holds (factEntries engine.facts.toList)
    (engine.rules.toList.flatMap ruleEntries)

/-- A new engine is well-formed. -/
theorem wellFormed_new (config : Config) : (Engine.new config).WellFormed where
  ground := by simp [Engine.new]
  numbered := by simp [Engine.new]
  newest := rfl
  index := Index.holds_empty

/-! ## Adding a rule -/

/-- The rule that `addRule` stores. -/
def ruleToAdd (engine : Engine) (trigger : Trigger) (body : List Term) (environment : Bindings) :
    Rule :=
  ⟨engine.newestRule + 1, trigger, body, environment,
    (indexClauses (engine.newestRule + 1) 0 trigger.clauses engine.index).2⟩

section

variable (engine) (trigger : Trigger) (body : List Term) (environment : Bindings)

/-- A rule is stored last. -/
@[simp] theorem addRule_rules : (engine.addRule trigger body environment).1.rules =
    engine.rules.push (engine.ruleToAdd trigger body environment) := rfl

/-- Adding a rule stores no fact. -/
@[simp] theorem addRule_facts :
    (engine.addRule trigger body environment).1.facts = engine.facts := rfl

/-- Adding a rule does not change the configuration. -/
@[simp] theorem addRule_config :
    (engine.addRule trigger body environment).1.config = engine.config := rfl

/-- Adding a rule fires none. -/
@[simp] theorem addRule_firings :
    (engine.addRule trigger body environment).1.firings = engine.firings := rfl

/-- A rule gets the next number. -/
@[simp] theorem addRule_newestRule :
    (engine.addRule trigger body environment).1.newestRule = engine.newestRule + 1 := rfl

end

/-- Adding a rule keeps an engine well-formed. -/
theorem WellFormed.addRule (wellFormed : engine.WellFormed) (trigger : Trigger) (body : List Term)
    (environment : Bindings) : (engine.addRule trigger body environment).1.WellFormed where
  ground := wellFormed.ground
  numbered position rule found := by
    rw [addRule_rules, Array.getElem?_push] at found
    split at found
    · next last =>
      cases found
      rw [ruleToAdd, wellFormed.newest, last]
    · exact wellFormed.numbered position rule found
  newest := by simp [wellFormed.newest]
  index := by
    have held := holds_indexClauses wellFormed.index (engine.newestRule + 1) 0 trigger.clauses
    rw [addRule_rules, Array.toList_push, List.flatMap_append, List.flatMap_singleton]
    exact held

/-- Whether the fact with a number has a signature that is compatible with that of a pattern. -/
def fits (facts : Array Term) (pattern : Term) (id : FactId) : Bool :=
  facts[id]?.any fun fact => (Signature.of fact).compatible (Signature.of pattern)

/-- A fact with a compatible signature fits. -/
theorem fits_of_compatible {facts : Array Term} {id : FactId} {fact pattern : Term}
    (found : facts[id]? = some fact)
    (compatible : (Signature.of fact).compatible (Signature.of pattern)) :
    fits facts pattern id := by
  rw [fits, found]
  exact compatible

/-- The index finds the facts that fit, in the order of assertion. -/
theorem candidates_eq {entries : List (Signature × ClauseRef)}
    (holds : engine.index.Holds (factEntries engine.facts.toList) entries) (pattern : Term) :
    engine.candidates pattern =
      (List.range engine.facts.size).filter (fits engine.facts pattern) := by
  have numbers : (((factEntries engine.facts.toList).filter
      (·.1.compatible (Signature.of pattern))).map (·.2)) =
      (List.range engine.facts.size).filter (fits engine.facts pattern) := by
    rw [factEntries, List.filter_map, List.map_map]
    have found := map_snd_filter_zipIdx
      (fun fact => (Signature.of fact).compatible (Signature.of pattern)) engine.facts.toList
    unfold fits
    simpa [Function.comp_def] using found
  rw [candidates, holds.lookupFacts, numbers]
  refine List.mergeSort_of_pairwise ?_
  refine (List.pairwise_lt_range.imp fun less => ?_).filter _
  simpa using Nat.le_of_lt less

/-- Looking for matches tries the tuples of the product. -/
theorem findMatches_eq (engine : Engine) (rule : Rule) (lists : List (List FactId)) :
    engine.findMatches rule lists = rule.matchesAmong engine.facts (product lists) := by
  rw [findMatches, CrossProduct.filterMap_eq, CrossProduct.toList_ofLists, List.map_map]
  have same : Array.toList ∘ List.toArray = (id : List FactId → List FactId) := rfl
  rw [same, List.map_id]
  rfl

/-- Relations between the items of lists can be put one after the other. -/
theorem forall₂_comp {α β γ : Type} {R : α → β → Prop} {S : β → γ → Prop} {list : List α}
    {middle : List β} {last : List γ} (first : List.Forall₂ R list middle)
    (second : List.Forall₂ S middle last) : List.Forall₂ (Relation.Comp R S) list last := by
  induction first generalizing last with
  | nil =>
    cases second
    exact .nil
  | cons head tail ih =>
    cases second with
    | cons next others => exact .cons ⟨_, head, next⟩ (ih others)

/-- Facts with other signatures are not missed: a tuple that holds one does not match. -/
theorem matchesAmong_filter {rule : Rule} {facts : Array Term} {ι : Type} {places : List ι}
    {clause : ι → Term} (clauses : places.map clause = rule.trigger.clauses)
    {list : ι → List FactId} (stored : ∀ place, ∀ id ∈ list place, id < facts.size)
    {keep : ι → FactId → Bool}
    (keeps : ∀ place id fact, facts[id]? = some fact →
      (Signature.of fact).compatible (Signature.of (clause place)) → keep place id) :
    rule.matchesAmong facts (product (places.map fun place => (list place).filter (keep place))) =
      rule.matchesAmong facts (product (places.map list)) := by
  refine filterMap_product_filter places list keep _ fun tuple isTuple activation matched => ?_
  have inLists := mem_product.mp isTuple
  rw [List.forall₂_map_right_iff] at inLists
  -- The numbers of a tuple from the lists all stand for facts, so the facts and the clauses meet
  -- place by place.
  have below : ∀ id ∈ tuple, id < facts.size :=
    ((List.forall₂_and_left tuple places).mp
      (inLists.imp fun id place member => ⟨stored place id member, member⟩)).1
  have compatible := forall₂_compatible_of_unifyAll (Rule.match?_eq_some_iff.mp matched).1
  rw [← clauses, List.forall₂_map_right_iff] at compatible
  refine (forall₂_comp (forall₂_termsAt below) compatible).imp ?_
  rintro id place ⟨fact, found, fits⟩
  exact keeps place id fact found fits

/-- **A new rule queues all its matches with the stored facts.** -/
theorem WellFormed.addRule_agenda (wellFormed : engine.WellFormed) (trigger : Trigger)
    (body : List Term) (environment : Bindings) :
    (engine.addRule trigger body environment).1.agenda =
      engine.agenda.pushAll
        ((engine.ruleToAdd trigger body environment).allMatches engine.facts) := by
  let rule := engine.ruleToAdd trigger body environment
  -- The search runs on the engine with the new clauses in its index, and before the rule is stored.
  let indexed : Engine :=
    { engine with
      index := (indexClauses (engine.newestRule + 1) 0 trigger.clauses engine.index).1
      newestRule := engine.newestRule + 1 }
  have candidates := indexed.candidates_eq (holds_indexClauses wellFormed.index _ 0 trigger.clauses)
  have matchesEq : indexed.findMatches rule (trigger.clauses.map indexed.candidates) =
      rule.allMatches engine.facts := by
    rw [findMatches_eq, List.map_congr_left fun clause _ => candidates clause]
    refine (matchesAmong_filter (List.map_id _) ?_ ?_).trans ?_
    · intro _ id
      exact List.mem_range.mp
    · exact fun clause id fact found compatible => fits_of_compatible found compatible
    · rw [List.map_const']
      rfl
  exact congrArg engine.agenda.pushAll matchesEq

/-! ## Asserting a fact -/

/-- The engine with one more fact, before it is matched. -/
def withFact (engine : Engine) (fact : Term) : Engine :=
  { engine with
    facts := engine.facts.push fact
    index := (engine.index.insertFact (Signature.of fact) engine.facts.size).1 }

/-- A fact with variables is refused, and the engine stays as it was. -/
theorem assertFact_of_not_ground {fact : Term} (notGround : ¬ fact.isGround) :
    engine.assertFact fact = (.error (.nonGroundFact fact), engine) := by
  rw [assertFact, if_neg notGround]

/-- A ground fact gets the next number, and the clauses that it could match are searched. -/
theorem assertFact_of_ground {fact : Term} (ground : fact.isGround) :
    engine.assertFact fact =
      (.ok engine.facts.size, (engine.withFact fact).queue
        (((engine.withFact fact).index.lookupClauses (Signature.of fact)).flatMap
          ((engine.withFact fact).matchesAt engine.facts.size))) := by
  rw [assertFact, if_pos ground]
  rfl

/-- A ground fact is stored last. -/
theorem assertFact_facts {fact : Term} (ground : fact.isGround) :
    (engine.assertFact fact).2.facts = engine.facts.push fact := by
  rw [assertFact_of_ground ground]
  rfl

/-- Asserting a fact adds no rule. -/
@[simp] theorem assertFact_rules (engine : Engine) (fact : Term) :
    (engine.assertFact fact).2.rules = engine.rules := by
  rw [assertFact]
  split <;> rfl

/-- Asserting a fact does not change the configuration. -/
@[simp] theorem assertFact_config (engine : Engine) (fact : Term) :
    (engine.assertFact fact).2.config = engine.config := by
  rw [assertFact]
  split <;> rfl

/-- Asserting a fact fires no rule. -/
@[simp] theorem assertFact_firings (engine : Engine) (fact : Term) :
    (engine.assertFact fact).2.firings = engine.firings := by
  rw [assertFact]
  split <;> rfl

/-- Storing a ground fact keeps an engine well-formed. -/
theorem WellFormed.withFact (wellFormed : engine.WellFormed) {fact : Term}
    (ground : fact.isGround) : (engine.withFact fact).WellFormed where
  ground := by
    intro other member
    rcases Array.mem_push.mp member with old | rfl
    · exact wellFormed.ground other old
    · exact ground
  numbered := wellFormed.numbered
  newest := wellFormed.newest
  index := by
    have held := wellFormed.index.insertFact (Signature.of fact) engine.facts.size
    rw [Engine.withFact, Array.toList_push, factEntries_append, Array.length_toList]
    exact held

/-- Whether matches wait does not matter. -/
theorem WellFormed.queue (wellFormed : engine.WellFormed) (activations : List Activation) :
    (engine.queue activations).WellFormed :=
  ⟨wellFormed.ground, wellFormed.numbered, wellFormed.newest, wellFormed.index⟩

/-- Asserting a fact keeps an engine well-formed. -/
theorem WellFormed.assertFact (wellFormed : engine.WellFormed) (fact : Term) :
    (engine.assertFact fact).2.WellFormed := by
  by_cases ground : fact.isGround
  · rw [assertFact_of_ground ground]
    exact (wellFormed.withFact ground).queue _
  · rw [assertFact_of_not_ground ground]
    exact wellFormed

/-- Around a new fact, the index is asked for the numbers that may stand at each clause. -/
theorem candidatesAround_eq {entries : List (Signature × ClauseRef)}
    (holds : engine.index.Holds (factEntries engine.facts.toList) entries) {newest : FactId}
    (size : engine.facts.size = newest + 1) (fixed position : Nat) (clauses : List Term) :
    engine.candidatesAround newest fixed position clauses =
      (clauses.zipIdx position).map fun (clause, place) =>
        (numbersAround newest fixed place).filter fun id =>
          place = fixed || fits engine.facts clause id := by
  induction clauses generalizing position with
  | nil => rfl
  | cons clause clauses ih =>
    rw [candidatesAround, ih, List.zipIdx_cons, List.map_cons, candidates_eq holds, size]
    refine congrArg (· :: _) ?_
    dsimp only
    by_cases atFixed : position = fixed
    · -- At its own place the new fact is tried without a look-up.
      simp [numbersAround, atFixed]
    · rw [if_neg atFixed, numbersAround]
      by_cases before : position < fixed
      · -- Before the new fact only older ones are looked up.
        rw [if_pos before, if_pos before, List.filter_filter, List.range_succ, List.filter_append,
          List.filter_singleton]
        simp only [Nat.lt_irrefl, decide_false, Bool.false_and, cond_false, List.append_nil]
        refine List.filter_congr fun id below => ?_
        simp [List.mem_range.mp below, atFixed]
      · -- After it all facts are looked up, itself included.
        rw [if_neg before, if_neg before, if_neg atFixed]
        simp [atFixed]

/-- The tuples around a new fact, as they are enumerated clause by clause. -/
theorem tuplesAround_eq (newest fixed : Nat) (clauses : List Term) :
    tuplesAround newest fixed clauses.length =
      product (clauses.zipIdx.map fun place => numbersAround newest fixed place.2) := by
  have places := List.zipIdx_map_snd 0 clauses
  rw [← List.range_eq_range'] at places
  rw [tuplesAround, ← places, List.map_map]
  rfl

/-- Searching at a clause gives the matches around the new fact there. -/
theorem matchesAt_eq {entries : List (Signature × ClauseRef)}
    (holds : engine.index.Holds (factEntries engine.facts.toList) entries) {newest : FactId}
    (size : engine.facts.size = newest + 1) {rule : Rule} (found : engine.rule? rule.id = some rule)
    (fixed : Nat) :
    engine.matchesAt newest ⟨rule.id, fixed⟩ = rule.matchesAround engine.facts newest fixed := by
  have below : ∀ place, ∀ id ∈ numbersAround newest fixed place, id < engine.facts.size :=
    fun place id member => size ▸ lt_of_mem_numbersAround member
  rw [matchesAt, found]
  dsimp only
  rw [findMatches_eq, candidatesAround_eq holds size, Rule.matchesAround, Trigger.size,
    tuplesAround_eq]
  refine matchesAmong_filter (List.zipIdx_map_fst 0 _) (fun place => below place.2) ?_
  intro place id other otherAt compatible
  simp [fits_of_compatible otherAt compatible]

/-- A new fact has no match at a clause with another signature. -/
theorem matchesAround_eq_nil {rule : Rule} {facts : Array Term} {newest : FactId}
    (size : facts.size = newest + 1) {fixed : Nat} {clause : Term}
    (clauseAt : rule.trigger.clauses[fixed]? = some clause) {fact : Term}
    (factAt : facts[newest]? = some fact)
    (incompatible : ¬ (Signature.of fact).compatible (Signature.of clause)) :
    rule.matchesAround facts newest fixed = [] := by
  have narrowed : rule.matchesAmong facts (product (rule.trigger.clauses.zipIdx.map fun place =>
      (numbersAround newest fixed place.2).filter (fits facts place.1))) =
      rule.matchesAround facts newest fixed := by
    rw [Rule.matchesAround, Trigger.size, tuplesAround_eq]
    refine matchesAmong_filter (List.zipIdx_map_fst 0 _) ?_ ?_
    · exact fun place id member => size ▸ lt_of_mem_numbersAround member
    · exact fun place id other otherAt compatible => fits_of_compatible otherAt compatible
  -- Nothing is left to try at the place of the new fact.
  have empty : [] ∈ rule.trigger.clauses.zipIdx.map fun place =>
      (numbersAround newest fixed place.2).filter (fits facts place.1) := by
    refine List.mem_map.mpr ⟨(clause, fixed), List.mem_zipIdx_iff_getElem?.mpr clauseAt, ?_⟩
    simpa [numbersAround, fits, factAt] using incompatible
  rw [← narrowed, product_eq_nil_iff.mpr empty]
  rfl

/-- Every stored rule is found by its number. -/
theorem WellFormed.rule?_of_mem (wellFormed : engine.WellFormed) {rule : Rule}
    (member : rule ∈ engine.rules) : engine.rule? rule.id = some rule := by
  obtain ⟨position, found⟩ := Array.mem_iff_getElem?.mp member
  have number := wellFormed.numbered position rule found
  rw [rule?, number, if_neg (Nat.succ_ne_zero position), Nat.add_sub_cancel, found]

/-- Later rules have larger numbers. -/
theorem WellFormed.pairwise_rules (wellFormed : engine.WellFormed) :
    engine.rules.toList.Pairwise fun left right => left.id < right.id := by
  rw [List.pairwise_iff_getElem]
  intro first second inFirst inSecond before
  have idOf {position : Nat} (inside : position < engine.rules.toList.length) :
      engine.rules.toList[position].id = position + 1 := by
    refine wellFormed.numbered position _ ?_
    rw [← Array.getElem?_toList, List.getElem?_eq_getElem inside]
  rw [idOf inFirst, idOf inSecond]
  exact Nat.succ_lt_succ before

/-- The clauses are entered by rule and then by position. -/
theorem WellFormed.pairwise_clauses (wellFormed : engine.WellFormed) :
    ((engine.rules.toList.flatMap ruleEntries).map (·.2)).Pairwise
      fun left right => ClauseRef.le left right := by
  rw [List.map_flatMap, List.pairwise_flatMap]
  constructor
  · -- The clauses of one rule are entered by position.
    intro rule _
    rw [ruleEntries, clauseEntries, List.map_map, List.pairwise_map]
    have places := List.pairwise_lt_range' (s := 0) (n := rule.trigger.clauses.length)
    rw [← List.zipIdx_map_snd, List.pairwise_map] at places
    refine places.imp fun before => ?_
    simpa [ClauseRef.le] using Nat.le_of_lt before
  · -- Rules are entered by number.
    refine wellFormed.pairwise_rules.imp fun before => ?_
    simp only [ruleEntries, clauseEntries, List.map_map, List.mem_map, Function.comp_apply]
    rintro _ ⟨_, -, rfl⟩ _ ⟨_, -, rfl⟩
    simp [ClauseRef.le, before]

/-- **A new fact queues the new matches of all rules**, by rule and then by clause. -/
theorem WellFormed.assertFact_agenda (wellFormed : engine.WellFormed) {fact : Term}
    (ground : fact.isGround) :
    (engine.assertFact fact).2.agenda =
      engine.agenda.pushAll (engine.rules.toList.flatMap fun rule =>
        rule.newMatches (engine.facts.push fact) engine.facts.size) := by
  let stored := engine.withFact fact
  have storedWell : stored.WellFormed := wellFormed.withFact ground
  have size : stored.facts.size = engine.facts.size + 1 := Array.size_push _
  have factAt : stored.facts[engine.facts.size]? = some fact := Array.getElem?_push_size
  -- The clauses found are a sublist of a list in order, so sorting them changes nothing.
  have entries : stored.index.lookupClauses (Signature.of fact) =
      ((engine.rules.toList.flatMap ruleEntries).filter
        (·.1.compatible (Signature.of fact))).map (·.2) := by
    rw [storedWell.index.lookupClauses]
    exact List.mergeSort_of_pairwise
      (storedWell.pairwise_clauses.sublist (List.filter_sublist.map _))
  have matchesEq : (stored.index.lookupClauses (Signature.of fact)).flatMap
      (stored.matchesAt engine.facts.size) =
      engine.rules.toList.flatMap fun rule => rule.newMatches stored.facts engine.facts.size := by
    rw [entries, List.flatMap_map, flatMap_filter, List.flatMap_assoc]
    · -- Walking through the entries of a rule is walking through its places.
      refine List.flatMap_congr fun rule member => ?_
      have isStored : rule ∈ stored.rules := Array.mem_toList_iff.mp member
      have found := storedWell.rule?_of_mem isStored
      have places := List.zipIdx_map_snd 0 rule.trigger.clauses
      rw [← List.range_eq_range'] at places
      rw [ruleEntries, clauseEntries, List.flatMap_map, Rule.newMatches, Trigger.size, ← places,
        List.flatMap_map]
      exact List.flatMap_congr fun place _ => matchesAt_eq storedWell.index size found place.2
    · -- A clause with another signature has no new match.
      intro entry member incompatible
      obtain ⟨rule, isRule, inRule⟩ := List.mem_flatMap.mp member
      obtain ⟨⟨clause, place⟩, atPlace, rfl⟩ := List.mem_map.mp inRule
      have isStored : rule ∈ stored.rules := Array.mem_toList_iff.mp isRule
      have found := storedWell.rule?_of_mem isStored
      rw [matchesAt_eq storedWell.index size found]
      rw [Signature.compatible_comm] at incompatible
      exact matchesAround_eq_nil size (List.mem_zipIdx_iff_getElem?.mp atPlace) factAt incompatible
  rw [assertFact_of_ground ground]
  exact congrArg engine.agenda.pushAll matchesEq

/-! ## All calls -/

/-- Taking an activation takes it off the agenda, counts it and changes nothing else. -/
theorem takeNewest?_eq_some_iff {activation : Activation} {next : Engine} :
    engine.takeNewest? = some (activation, next) ↔ ∃ waiting,
      engine.agenda.waiting = activation :: waiting ∧
      next = { engine with agenda := ⟨waiting⟩, firings := engine.firings + 1 } := by
  rw [takeNewest?, Agenda.pop?]
  cases engine.agenda.waiting with
  | nil => simp
  | cons newest waiting => simp [eq_comm, and_assoc]

/-- Nothing is taken when nothing waits. -/
theorem takeNewest?_eq_none_iff : engine.takeNewest? = none ↔ engine.agenda.waiting = [] := by
  rw [takeNewest?, Agenda.pop?]
  cases engine.agenda.waiting <;> simp

/-- **Engines stay well-formed**, whatever the environments. -/
theorem wellFormed_invariant : Invariant WellFormed fun _ => True where
  assertFact wellFormed fact := wellFormed.assertFact fact
  addRule wellFormed _ _ trigger body := wellFormed.addRule trigger body _
  empty := trivial
  takeNewest? := by
    intro engine activation next wellFormed taken
    obtain ⟨waiting, -, rfl⟩ := takeNewest?_eq_some_iff.mp taken
    exact ⟨trivial, wellFormed.ground, wellFormed.numbered, wellFormed.newest, wellFormed.index⟩

end Engine

end ForwardChaining
