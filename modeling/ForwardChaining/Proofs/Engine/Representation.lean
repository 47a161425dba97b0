import ForwardChaining.Proofs.Engine.WellFormed

/-! # How the parts of an engine are linked

An engine keeps its facts and rules in arrays, and the index refers to them by number; a rule refers
back to the buckets of its clauses. `Engine.Linked` adds these references to what well-formed
engines keep to, and is an invariant of the operations (`linked_invariant`).

`Engine.Consistent` spells out what follows for facts, rules, numbers and buckets. It holds of every
engine that calls can lead to, those that fail included (`consistent_of_reachable`). -/

namespace ForwardChaining

namespace Engine

variable {engine : Engine}

/-! ## Indexing the clauses of a rule -/

/-- Indexing clauses leaves every bucket at its place. -/
theorem getElem?_signatures_indexClauses {index : Index} {bucket : BucketId}
    {signature : Signature} (found : index.signatures[bucket]? = some signature) (id : RuleId)
    (position : Nat) (clauses : List Term) :
    (indexClauses id position clauses index).1.signatures[bucket]? = some signature := by
  induction clauses generalizing position index with
  | nil => exact found
  | cons clause clauses ih =>
    -- Inserting a clause has the signatures of looking for its bucket.
    have kept := Index.getElem?_signatures_bucketFor found (Signature.of clause)
    rw [← index.signatures_insertClause _ ⟨id, position⟩] at kept
    exact ih kept (position + 1)

/-- Only the signatures of the clauses can get new buckets. -/
theorem mem_signatures_of_indexClauses {index : Index} {id : RuleId} {position : Nat}
    {clauses : List Term} {signature : Signature}
    (member : signature ∈ (indexClauses id position clauses index).1.signatures) :
    signature ∈ index.signatures ∨ ∃ clause ∈ clauses, Signature.of clause = signature := by
  induction clauses generalizing position index with
  | nil => exact .inl member
  | cons clause clauses ih =>
    rcases ih member with earlier | ⟨other, inRest, equal⟩
    · have same := index.signatures_insertClause (Signature.of clause) ⟨id, position⟩
      replace earlier := same ▸ earlier
      rcases Index.mem_signatures_of_bucketFor earlier with old | new
      · exact .inl old
      · exact .inr ⟨clause, List.mem_cons_self, new.symm⟩
    · exact .inr ⟨other, List.mem_cons_of_mem _ inRest, equal⟩

/-- The buckets of a rule have the signatures of its clauses, clause by clause. -/
def InBuckets (index : Index) (buckets : List BucketId) (clauses : List Term) : Prop :=
  List.Forall₂ (fun bucket clause => index.signatures[bucket]? = some (Signature.of clause))
    buckets clauses

/-- Indexing clauses tells their buckets. -/
theorem inBuckets_indexClauses {index : Index} {facts : List (Signature × FactId)}
    {entries : List (Signature × ClauseRef)} (holds : index.Holds facts entries) (id : RuleId)
    (position : Nat) (clauses : List Term) :
    InBuckets (indexClauses id position clauses index).1
      (indexClauses id position clauses index).2 clauses := by
  induction clauses generalizing position index entries with
  | nil => exact .nil
  | cons clause clauses ih =>
    -- The bucket of the first clause is right at once, and stays in its place.
    have here := holds.signature_insertClause (Signature.of clause) ⟨id, position⟩
    have next := holds.insertClause (Signature.of clause) ⟨id, position⟩
    exact .cons (getElem?_signatures_indexClauses here id (position + 1) clauses)
      (ih next (position + 1))

/-! ## Links -/

/-- A signature is in use when a stored fact or a clause of a rule has it. -/
def Uses (engine : Engine) (signature : Signature) : Prop :=
  (∃ fact ∈ engine.facts, Signature.of fact = signature) ∨
    ∃ rule ∈ engine.rules, ∃ clause ∈ rule.trigger.clauses, Signature.of clause = signature

/-- A well-formed engine with rules that know the buckets of their clauses, and without a bucket
that was never needed. -/
structure Linked (engine : Engine) : Prop extends engine.WellFormed where
  /-- The rules know the buckets of their clauses. -/
  buckets : ∀ rule ∈ engine.rules, InBuckets engine.index rule.buckets rule.trigger.clauses
  /-- The signature of every bucket is in use. -/
  uses : ∀ signature ∈ engine.index.signatures, engine.Uses signature

/-- The parts of a new engine are linked. -/
theorem linked_new (config : Config) : (Engine.new config).Linked where
  toWellFormed := wellFormed_new config
  buckets := by simp [Engine.new]
  uses := by simp [Engine.new]

/-- Storing a ground fact keeps the links. -/
theorem Linked.withFact (linked : engine.Linked) {fact : Term} (ground : fact.isGround) :
    (engine.withFact fact).Linked where
  toWellFormed := linked.toWellFormed.withFact ground
  buckets rule member := by
    refine (linked.buckets rule member).imp fun bucket clause found => ?_
    rw [Engine.withFact, Index.signatures_insertFact]
    exact Index.getElem?_signatures_bucketFor found _
  uses signature member := by
    rw [Engine.withFact, Index.signatures_insertFact] at member
    rcases Index.mem_signatures_of_bucketFor member with old | rfl
    · rcases linked.uses signature old with ⟨other, stored, equal⟩ | ofClause
      · exact .inl ⟨other, Array.mem_push_of_mem _ stored, equal⟩
      · exact .inr ofClause
    · exact .inl ⟨fact, Array.mem_push_self, rfl⟩

/-- Whether matches wait does not matter for the links. -/
theorem Linked.queue (linked : engine.Linked) (activations : List Activation) :
    (engine.queue activations).Linked :=
  ⟨linked.toWellFormed.queue activations, linked.buckets, linked.uses⟩

/-- Asserting a fact keeps the links. -/
theorem Linked.assertFact (linked : engine.Linked) (fact : Term) :
    (engine.assertFact fact).2.Linked := by
  by_cases ground : fact.isGround
  · rw [assertFact_of_ground ground]
    exact (linked.withFact ground).queue _
  · rw [assertFact_of_not_ground ground]
    exact linked

/-- Adding a rule keeps the links. -/
theorem Linked.addRule (linked : engine.Linked) (trigger : Trigger) (body : List Term)
    (environment : Bindings) : (engine.addRule trigger body environment).1.Linked where
  toWellFormed := linked.toWellFormed.addRule trigger body environment
  buckets rule member := by
    rcases Array.mem_push.mp member with old | rfl
    · exact (linked.buckets rule old).imp fun bucket clause found =>
        getElem?_signatures_indexClauses found _ _ _
    · exact inBuckets_indexClauses linked.index _ _ _
  uses signature member := by
    rcases mem_signatures_of_indexClauses member with old | ⟨clause, inTrigger, equal⟩
    · rcases linked.uses signature old with ofFact | ⟨rule, stored, ofClause⟩
      · exact .inl ofFact
      · exact .inr ⟨rule, Array.mem_push_of_mem _ stored, ofClause⟩
    · exact .inr ⟨_, Array.mem_push_self, clause, inTrigger, equal⟩

/-- **Engines stay linked**, whatever the environments. -/
theorem linked_invariant : Invariant Linked fun _ => True where
  assertFact linked fact := linked.assertFact fact
  addRule linked _ _ trigger body := linked.addRule trigger body _
  empty := trivial
  takeNewest? := by
    intro engine activation next linked taken
    have wellFormed := (wellFormed_invariant.takeNewest? linked.toWellFormed taken).2
    obtain ⟨waiting, -, rfl⟩ := takeNewest?_eq_some_iff.mp taken
    exact ⟨trivial, wellFormed, linked.buckets, linked.uses⟩

/-! ## Consistency -/

/-- The engines that calls can lead to, one after another, whether they fail or not. -/
inductive Reachable : Engine → Prop where
  /-- Every engine starts without facts and rules. -/
  | new (config : Config) : Reachable (Engine.new config)
  /-- A call leads on. -/
  | call {engine : Engine} (reached : Reachable engine) (call : Call) :
    Reachable (call.perform engine).2
  /-- So does loading a program from bytes. -/
  | load {engine : Engine} (reached : Reachable engine) (limit : Nat)
    (bytes : Option ByteArray) : Reachable (engine.runBytes limit bytes).2

/-- The positions of all clauses of all rules. -/
def clauseRefs (engine : Engine) : List ClauseRef :=
  engine.rules.toList.flatMap fun rule => (List.range rule.trigger.size).map (⟨rule.id, ·⟩)

/-- The facts, the rules, their numbers and the buckets of the index agree. -/
structure Consistent (engine : Engine) : Prop where
  /-- The facts are ground. -/
  ground : ∀ fact ∈ engine.facts, fact.isGround
  /-- The rules are numbered from one, in the order of their creation. -/
  numbered : ∀ (position : Nat) (rule : Rule), engine.rules[position]? = some rule →
    rule.id = position + 1
  /-- The number of the newest rule is the number of rules. -/
  newest : engine.newestRule = engine.rules.size
  /-- A number finds exactly the rule that has it. -/
  rule? : ∀ (id : RuleId) (rule : Rule),
    engine.rule? id = some rule ↔ rule ∈ engine.rules ∧ rule.id = id
  /-- Every rule has clauses, and as many buckets. -/
  clauses : ∀ rule ∈ engine.rules,
    rule.trigger.clauses ≠ [] ∧ rule.buckets.length = rule.trigger.clauses.length
  /-- No two buckets have the same signature. -/
  distinct : (engine.index.buckets.toList.map (·.signature)).Nodup
  /-- The signatures of the buckets are those of stored facts and of clauses. -/
  uses : ∀ signature,
    (∃ bucket ∈ engine.index.buckets, bucket.signature = signature) ↔ engine.Uses signature
  /-- A signature finds exactly the bucket that has it. -/
  find? : ∀ (signature : Signature) (bucket : Bucket),
    engine.index.find? signature = some bucket ↔
      bucket ∈ engine.index.buckets ∧ bucket.signature = signature
  /-- The buckets together list every fact once. -/
  everyFact :
    (engine.index.buckets.toList.flatMap (·.facts.toList)).Perm (List.range engine.facts.size)
  /-- A fact is listed under its signature. -/
  factBucket : ∀ bucket ∈ engine.index.buckets, ∀ id ∈ bucket.facts,
    ∃ fact, engine.facts[id]? = some fact ∧ Signature.of fact = bucket.signature
  /-- A bucket lists its facts in the order of assertion. -/
  ascending : ∀ bucket ∈ engine.index.buckets, bucket.facts.toList.Pairwise (· < ·)
  /-- The buckets together list every clause once. -/
  everyClause :
    (engine.index.buckets.toList.flatMap (·.clauses.toList)).Perm engine.clauseRefs ∧
      engine.clauseRefs.Nodup
  /-- A clause is listed in the bucket that its rule tells, which has its signature. -/
  clauseBucket : ∀ rule ∈ engine.rules, ∀ (position : Nat) (clause : Term),
    rule.trigger.clauses[position]? = some clause →
      ∃ id bucket, rule.buckets[position]? = some id ∧ engine.index.buckets[id]? = some bucket ∧
        bucket.signature = Signature.of clause ∧ ⟨rule.id, position⟩ ∈ bucket.clauses

/-- The clauses of stored rules are entered under their signatures. -/
theorem mem_flatMap_ruleEntries {rule : Rule} (stored : rule ∈ engine.rules) {position : Nat}
    {clause : Term} (clauseAt : rule.trigger.clauses[position]? = some clause) :
    (Signature.of clause, ⟨rule.id, position⟩) ∈ engine.rules.toList.flatMap ruleEntries := by
  refine List.mem_flatMap.mpr ⟨rule, stored.val, List.mem_map.mpr ⟨(clause, position), ?_, rfl⟩⟩
  exact List.mem_zipIdx_iff_getElem?.mpr clauseAt

section

variable (linked : engine.Linked)
include linked

/-- A number finds exactly the rule that has it. -/
theorem Linked.rule?_eq_some_iff {id : RuleId} {rule : Rule} :
    engine.rule? id = some rule ↔ rule ∈ engine.rules ∧ rule.id = id := by
  constructor
  · intro found
    rw [Engine.rule?] at found
    split at found
    · cases found
    · next positive =>
      have number := linked.numbered _ rule found
      rw [Nat.sub_add_cancel (Nat.pos_of_ne_zero positive)] at number
      exact ⟨Array.mem_of_getElem? found, number⟩
  · rintro ⟨stored, rfl⟩
    exact linked.rule?_of_mem stored

/-- The buckets have the signatures that are in use. -/
theorem Linked.mem_signatures_iff {signature : Signature} :
    signature ∈ engine.index.signatures ↔ engine.Uses signature := by
  -- The other direction is that the index holds every fact and every clause.
  refine ⟨linked.uses signature, ?_⟩
  rintro (⟨fact, stored, rfl⟩ | ⟨rule, stored, clause, inTrigger, rfl⟩)
  · obtain ⟨id, found⟩ := Array.mem_iff_getElem?.mp stored
    refine linked.index.facts.found (Signature.of fact, id) (List.mem_map.mpr ⟨(fact, id), ?_, rfl⟩)
    rwa [List.mem_zipIdx_iff_getElem?, Array.getElem?_toList]
  · obtain ⟨position, found⟩ := List.mem_iff_getElem?.mp inTrigger
    exact linked.index.clauses.found _ (mem_flatMap_ruleEntries stored found)

/-- The buckets together list every fact once. -/
theorem Linked.facts_perm :
    (engine.index.buckets.toList.flatMap (·.facts.toList)).Perm (List.range engine.facts.size) := by
  have listed := linked.index.facts.flatMap_perm linked.index.tables
  rwa [map_snd_factEntries, Array.length_toList] at listed

/-- The buckets together list every clause once. -/
theorem Linked.clauses_perm :
    (engine.index.buckets.toList.flatMap (·.clauses.toList)).Perm engine.clauseRefs := by
  have listed := linked.index.clauses.flatMap_perm linked.index.tables
  rw [List.map_flatMap] at listed
  refine listed.trans (List.Perm.of_eq (List.flatMap_congr fun rule _ => ?_))
  exact map_snd_ruleEntries rule

/-- No clause is counted twice. -/
theorem Linked.nodup_clauseRefs : engine.clauseRefs.Nodup := by
  refine List.nodup_flatMap.mpr ⟨fun rule _ => ?_, linked.pairwise_rules.imp fun before => ?_⟩
  · -- Different clauses of one rule have different positions.
    refine List.nodup_range.map fun left right equal => ?_
    exact congrArg ClauseRef.clause equal
  · -- Clauses of different rules have different rules.
    refine List.disjoint_left.mpr fun ref inLeft inRight => ?_
    obtain ⟨_, -, rfl⟩ := List.mem_map.mp inLeft
    obtain ⟨_, -, equal⟩ := List.mem_map.mp inRight
    exact Nat.ne_of_lt before (congrArg ClauseRef.rule equal).symm

variable {bucket : Bucket} (inIndex : bucket ∈ engine.index.buckets)
include inIndex

/-- A bucket lists the facts with its signature, in the order of assertion. -/
theorem Linked.bucket_facts : bucket.facts.toList =
    ((factEntries engine.facts.toList).filter (·.1 = bucket.signature)).map (·.2) := by
  obtain ⟨position, found⟩ := Array.mem_iff_getElem?.mp inIndex
  exact linked.index.facts.content_eq position bucket found

/-- A fact is listed under its signature. -/
theorem Linked.signature_of_mem {id : FactId} (listed : id ∈ bucket.facts) :
    ∃ fact, engine.facts[id]? = some fact ∧ Signature.of fact = bucket.signature := by
  rw [← Array.mem_toList_iff, linked.bucket_facts inIndex] at listed
  obtain ⟨entry, isEntry, rfl⟩ := List.mem_map.mp listed
  obtain ⟨inEntries, equal⟩ := List.mem_filter.mp isEntry
  obtain ⟨⟨fact, id⟩, isFact, rfl⟩ := List.mem_map.mp inEntries
  rw [List.mem_zipIdx_iff_getElem?, Array.getElem?_toList] at isFact
  exact ⟨fact, isFact, by simpa using equal⟩

/-- The order of assertion is strictly ascending. -/
theorem Linked.pairwise_facts : bucket.facts.toList.Pairwise (· < ·) := by
  rw [linked.bucket_facts inIndex]
  refine List.Pairwise.sublist (List.filter_sublist.map _) ?_
  rw [map_snd_factEntries]
  exact List.pairwise_lt_range

end

/-- A clause is listed in the bucket that its rule tells, which has its signature. -/
theorem Linked.exists_bucket (linked : engine.Linked) {rule : Rule} (stored : rule ∈ engine.rules)
    {position : Nat} {clause : Term} (clauseAt : rule.trigger.clauses[position]? = some clause) :
    ∃ id bucket, rule.buckets[position]? = some id ∧ engine.index.buckets[id]? = some bucket ∧
      bucket.signature = Signature.of clause ∧ ⟨rule.id, position⟩ ∈ bucket.clauses := by
  obtain ⟨sameLength, each⟩ := List.forall₂_iff_get.mp (linked.buckets rule stored)
  obtain ⟨inTrigger, rfl⟩ := List.getElem?_eq_some_iff.mp clauseAt
  have known := each position (sameLength ▸ inTrigger) inTrigger
  rw [Index.signatures, Array.getElem?_map, Option.map_eq_some_iff] at known
  obtain ⟨bucket, found, equal⟩ := known
  refine ⟨_, bucket, List.getElem?_eq_getElem (sameLength ▸ inTrigger), found, equal, ?_⟩
  -- The entry of the clause has the signature of the bucket, so the bucket lists it.
  rw [← Array.mem_toList_iff, linked.index.clauses.content_eq _ bucket found]
  have entered := mem_flatMap_ruleEntries stored clauseAt
  exact List.mem_map.mpr ⟨_, List.mem_filter.mpr ⟨entered, by simpa using equal.symm⟩, rfl⟩

/-- **Linked engines are consistent.** -/
theorem Linked.consistent (linked : engine.Linked) : engine.Consistent where
  ground := linked.ground
  numbered := linked.numbered
  newest := linked.newest
  rule? _ _ := linked.rule?_eq_some_iff
  clauses rule stored := ⟨rule.trigger.clauses_ne_nil, (linked.buckets rule stored).length_eq⟩
  distinct := by simpa [Index.signatures] using linked.index.tables.nodup_signatures
  uses signature := by
    rw [← linked.mem_signatures_iff, Index.signatures, Array.mem_map]
  find? _ _ := linked.index.tables.find?_eq_some_iff
  everyFact := linked.facts_perm
  factBucket _ inIndex _ := linked.signature_of_mem inIndex
  ascending _ := linked.pairwise_facts
  everyClause := ⟨linked.clauses_perm, linked.nodup_clauseRefs⟩
  clauseBucket _ stored _ _ := linked.exists_bucket stored

/-- Reachable engines are linked. -/
theorem Reachable.linked (reached : Reachable engine) : engine.Linked := by
  induction reached with
  | new config => exact linked_new config
  | call _ call ih =>
    exact linked_invariant.perform (call.supplies_of_forall fun _ => trivial) ih
  | load _ limit bytes ih => exact linked_invariant.runBytes limit bytes ih

/-- Calls one after another lead on. -/
theorem Reachable.performAll (reached : Reachable engine) (calls : List Call) :
    Reachable (performAll engine calls).2 := by
  induction calls generalizing engine with
  | nil => exact reached
  | cons call calls ih => exact ih (reached.call call)

/-- **Every engine that calls can lead to is consistent**, whether they fail or not: its facts are
ground, its rules have consecutive numbers and know the buckets of their clauses, and its index
lists every fact and every clause once, in the only bucket of its signature. -/
theorem consistent_of_reachable (reached : Reachable engine) : engine.Consistent :=
  reached.linked.consistent

/-- A refused fact, a rule with two clauses of one signature, a fact of that signature, and a
program that fails on its way. -/
theorem consistent_of_reachable_failing :
    let edge (left right : Term) : Term := .list [.atom (.symbol "edge"), left, right]
    let calls : List Call := [.assertFact (edge (.var "?x") (.var "?y")),
      .addRule ⟨[edge (.var "?x") (.var "?y"), edge (.var "?y") (.var "?z")], List.cons_ne_nil _ _⟩
        [.list [.atom (.symbol "assert!"), edge (.var "?x") (.var "?z")]] ∅,
      .assertFact (edge (.atom (.symbol "a")) (.atom (.symbol "b"))),
      .runProgram 5 "(assert! (edge b c)) (assert! ?x)"]
    (performAll (new {}) calls).2.Consistent :=
  consistent_of_reachable ((Reachable.new {}).performAll _)

end Engine

end ForwardChaining
