import ForwardChaining.Matching.Index
import Mathlib.Data.List.Nodup
import Mathlib.Data.List.Perm.Basic

/-! # What an index holds

`Index.Holds index facts clauses` says that an index holds exactly the given facts and clauses, each
entered under its signature: its two tables describe its buckets, and a bucket lists the entries of
its signature in the order of insertion. Insertions keep it (`Holds.insertFact`,
`Holds.insertClause`), and from it look-ups are read off: they give the entries with compatible
signatures, sorted (`Holds.lookupFacts`, `Holds.lookupClauses`). -/

namespace ForwardChaining

variable {α κ : Type}

/-- Picking the entries of one key after another gives those of all the keys that were picked. -/
theorem flatMap_entries_perm [DecidableEq κ] {keys : List κ} (nodup : keys.Nodup)
    (entries : List (κ × α)) :
    (keys.flatMap fun key => (entries.filter (·.1 = key)).map (·.2)).Perm
      ((entries.filter (·.1 ∈ keys)).map (·.2)) := by
  induction keys with
  | nil => simp
  | cons key keys ih =>
    obtain ⟨fresh, nodupRest⟩ := List.nodup_cons.mp nodup
    have ofKey : entries.filter (·.1 = key) =
        (entries.filter (·.1 ∈ key :: keys)).filter (·.1 = key) := by
      rw [List.filter_filter]
      exact List.filter_congr fun entry _ => by simp +contextual
    have ofRest : entries.filter (·.1 ∈ keys) =
        (entries.filter (·.1 ∈ key :: keys)).filter fun entry => !decide (entry.1 = key) := by
      rw [List.filter_filter]
      refine List.filter_congr fun entry _ => ?_
      by_cases equal : entry.1 = key
      · simp [equal, fresh]
      · simp [equal]
    rw [List.flatMap_cons]
    refine ((ih nodupRest).append_left _).trans ?_
    rw [← List.map_append, ofKey, ofRest]
    exact (List.filter_append_perm _ _).map _

/-- The items of an array are those at the positions below its size. -/
theorem toList_eq_filterMap_range (array : Array α) :
    array.toList = (List.range array.size).filterMap (array[·]?) := by
  have ofList (list : List α) : list = (List.range list.length).filterMap (list[·]?) := by
    induction list with
    | nil => rfl
    | cons item list ih =>
      rw [List.length_cons, List.range_succ_eq_map,
        List.filterMap_cons_some List.getElem?_cons_zero, List.filterMap_map]
      exact congrArg _ ih
  simpa using ofList array.toList

/-- Looking up some positions of an array and keeping some of the items found is looking up only the
positions of these. -/
theorem filter_filterMap_getElem? (array : Array α) (keep : α → Bool) (positions : List Nat) :
    (positions.filterMap (array[·]?)).filter keep =
      (positions.filter fun position => array[position]?.any keep).filterMap (array[·]?) := by
  have test (item? : Option α) : item?.filter keep = if item?.any keep then item? else none := by
    cases item? <;> rfl
  rw [List.filter_filterMap, List.filterMap_filter]
  exact List.filterMap_congr fun position _ => test _

namespace ClauseRef

/-- Clauses are ordered by their rules, and those of one rule by their positions. -/
theorem le_iff {left right : ClauseRef} :
    left.le right ↔
      left.rule < right.rule ∨ left.rule = right.rule ∧ left.clause ≤ right.clause := by
  simp [ClauseRef.le]

/-- The order of clauses is transitive. -/
theorem le_trans (a b c : ClauseRef) (first : a.le b) (second : b.le c) : a.le c := by
  rw [le_iff] at first second ⊢
  unfold RuleId at *
  omega

/-- It is total. -/
theorem le_total (a b : ClauseRef) : a.le b || b.le a := by
  rw [Bool.or_eq_true, le_iff, le_iff]
  unfold RuleId at *
  omega

/-- It is antisymmetric. -/
theorem le_antisymm (a b : ClauseRef) (first : a.le b) (second : b.le a) : a = b := by
  rw [le_iff] at first second
  obtain ⟨rule, clause⟩ := a
  obtain ⟨otherRule, otherClause⟩ := b
  rw [mk.injEq]
  unfold RuleId at *
  dsimp only at first second
  omega

end ClauseRef

namespace Index

variable {index : Index}

/-! ## The tables -/

/-- The signatures of the buckets, in the order of their creation. -/
def signatures (index : Index) : Array Signature := index.buckets.map (·.signature)

/-- The tables describe the buckets. -/
structure Tables (index : Index) : Prop where
  /-- The first table finds the bucket of a signature, and no two buckets have the same. -/
  positions : ∀ (signature : Signature) (bucket : BucketId),
    index.positions[signature]? = some bucket ↔ index.signatures[bucket]? = some signature
  /-- The second table lists the buckets of a kind. -/
  kinds : ∀ (kind : Kind) (bucket : BucketId), bucket ∈ index.ofKind kind ↔
    ∃ signature, index.signatures[bucket]? = some signature ∧ signature.kind = kind
  /-- It lists each of them once. -/
  nodup : ∀ kind, (index.ofKind kind).Nodup

/-- The empty index has no bucket. -/
@[simp] theorem signatures_empty : (∅ : Index).signatures = #[] := Array.map_empty

/-- It lists none. -/
@[simp] theorem ofKind_empty (kind : Kind) : (∅ : Index).ofKind kind = [] := by
  show ((∅ : Std.HashMap Kind (Array BucketId)).getD kind #[]).toList = []
  simp

/-- The tables of the empty index describe no bucket. -/
theorem tables_empty : (∅ : Index).Tables where
  positions signature bucket := by
    show (∅ : Std.HashMap Signature BucketId)[signature]? = some bucket ↔ _
    simp
  kinds kind bucket := by simp
  nodup kind := by simp

/-- A new bucket is the last one. -/
@[simp] theorem signatures_addBucket (index : Index) (signature : Signature) :
    (index.addBucket signature).signatures = index.signatures.push signature := by
  simp [signatures, addBucket]

/-- There are as many signatures as buckets. -/
@[simp] theorem size_signatures (index : Index) :
    index.signatures.size = index.buckets.size := by simp [signatures]

/-- A new bucket is listed under the kind of its signature. -/
theorem ofKind_addBucket (index : Index) (signature : Signature) (kind : Kind) :
    (index.addBucket signature).ofKind kind =
      if signature.kind = kind then index.ofKind kind ++ [index.buckets.size]
      else index.ofKind kind := by
  simp only [ofKind, addBucket, Std.HashMap.getD_insert, beq_iff_eq]
  split
  · next equal => simp [equal]
  · rfl

/-- Adding a bucket for a new signature keeps the tables right. -/
theorem Tables.addBucket (tables : index.Tables) {signature : Signature}
    (absent : index.positions[signature]? = none) : (index.addBucket signature).Tables where
  positions other bucket := by
    rw [signatures_addBucket, Array.getElem?_push, size_signatures]
    simp only [Index.addBucket, Std.HashMap.getElem?_insert, beq_iff_eq]
    by_cases same : signature = other
    · -- The new signature is found at the end, and was at no earlier position.
      subst same
      rw [if_pos rfl]
      constructor
      · intro found
        rw [← Option.some.inj found, if_pos rfl]
      · intro found
        split at found
        · next last => rw [last]
        · rw [(tables.positions signature bucket).mpr found] at absent
          cases absent
    · -- Any other signature is found where it was.
      rw [if_neg same, tables.positions]
      split
      · next last =>
        have outside : index.signatures[bucket]? = none := by simp [last]
        simp [outside, same]
      · rfl
  kinds kind bucket := by
    rw [ofKind_addBucket, signatures_addBucket, Array.getElem?_push, size_signatures]
    have old := tables.kinds kind bucket
    by_cases last : bucket = index.buckets.size
    · have outside : bucket ∉ index.ofKind kind := by
        rw [old]
        rintro ⟨_, found, -⟩
        simp [last] at found
      by_cases same : signature.kind = kind <;> simp [last, same, last ▸ outside]
    · by_cases same : signature.kind = kind <;> simp [last, same, old]
  nodup kind := by
    rw [ofKind_addBucket]
    split
    · refine List.nodup_append.mpr ⟨tables.nodup kind, List.nodup_singleton _, ?_⟩
      rintro bucket member _ new rfl
      obtain ⟨_, found, -⟩ := (tables.kinds kind bucket).mp member
      rw [List.mem_singleton.mp new] at found
      simp at found
    · exact tables.nodup kind

/-- A signature has one bucket. -/
theorem Tables.position_unique (tables : index.Tables) {signature : Signature}
    {first second : BucketId} (atFirst : index.signatures[first]? = some signature)
    (atSecond : index.signatures[second]? = some signature) : first = second := by
  rw [← tables.positions] at atFirst atSecond
  exact Option.some.inj (atFirst.symm.trans atSecond)

/-- No two buckets have the same signature. -/
theorem Tables.nodup_signatures (tables : index.Tables) : index.signatures.toList.Nodup := by
  rw [List.nodup_iff_pairwise_ne, List.pairwise_iff_getElem]
  intro first second inFirst inSecond before equal
  have atFirst : index.signatures[first]? = some index.signatures.toList[second] := by
    rw [← equal]
    simp [List.getElem?_eq_getElem inFirst, ← Array.getElem?_toList]
  have atSecond : index.signatures[second]? = some index.signatures.toList[second] := by
    simp [List.getElem?_eq_getElem inSecond, ← Array.getElem?_toList]
  exact Nat.ne_of_lt before (tables.position_unique atFirst atSecond)

/-- A signature that the first table does not know has no bucket. -/
theorem Tables.not_mem_of_absent (tables : index.Tables) {signature : Signature}
    (absent : index.positions[signature]? = none) : signature ∉ index.signatures := by
  intro member
  obtain ⟨position, found⟩ := Array.mem_iff_getElem?.mp member
  rw [(tables.positions signature position).mpr found] at absent
  cases absent

/-- Changing what a bucket holds does not change the signatures. -/
theorem signatures_update {bucket : BucketId} {change : Bucket → Bucket}
    (same : ∀ old, (change old).signature = old.signature) :
    (index.update bucket change).signatures = index.signatures := by
  ext position
  · simp [signatures, update]
  · simp only [signatures, update, Array.getElem_map, Array.getElem_modify]
    split
    · rw [same]
    · rfl

/-- Nor does it change what the tables describe. -/
theorem Tables.update (tables : index.Tables) {bucket : BucketId} {change : Bucket → Bucket}
    (same : ∀ old, (change old).signature = old.signature) :
    (index.update bucket change).Tables where
  positions signature position := by
    rw [signatures_update same]
    exact tables.positions signature position
  kinds kind position := by
    rw [signatures_update same]
    exact tables.kinds kind position
  nodup := tables.nodup

/-! ## The buckets -/

/-- The buckets list the given entries, each in the bucket of its signature. `content` says whether
they are facts or clauses. -/
structure Lists (index : Index) (content : Bucket → List α) (entries : List (Signature × α)) :
    Prop where
  /-- A bucket lists the entries with its signature. -/
  content_eq : ∀ (position : BucketId) (bucket : Bucket), index.buckets[position]? = some bucket →
    content bucket = (entries.filter (·.1 = bucket.signature)).map (·.2)
  /-- Every entry has a bucket. -/
  found : ∀ entry ∈ entries, entry.1 ∈ index.signatures

section

variable {content : Bucket → List α} {entries : List (Signature × α)}

/-- The empty index lists nothing. -/
theorem lists_empty (content : Bucket → List α) : (∅ : Index).Lists content [] where
  content_eq position bucket found := by
    have none : (∅ : Index).buckets[position]? = none := Array.getElem?_empty
    simp [none] at found
  found := by simp

/-- A new bucket for a new signature is empty, as it should. -/
theorem Lists.addBucket (lists : index.Lists content entries) {signature : Signature}
    (absent : signature ∉ index.signatures) (empty : content ⟨signature, #[], #[]⟩ = []) :
    (index.addBucket signature).Lists content entries where
  content_eq position bucket found := by
    rw [Index.addBucket, Array.getElem?_push] at found
    split at found
    · cases found
      rw [empty, eq_comm, List.map_eq_nil_iff, List.filter_eq_nil_iff]
      intro entry member
      have listed := lists.found entry member
      simpa using fun (equal : entry.1 = signature) => absent (equal ▸ listed)
    · exact lists.content_eq position bucket found
  found entry member := by
    rw [signatures_addBucket]
    exact Array.mem_push.mpr (.inl (lists.found entry member))

/-- A change that leaves this content alone keeps the entries. -/
theorem Lists.update (lists : index.Lists content entries) {bucket : BucketId}
    {change : Bucket → Bucket} (same : ∀ old, (change old).signature = old.signature)
    (keeps : ∀ old, content (change old) = content old) :
    (index.update bucket change).Lists content entries where
  content_eq position held found := by
    rw [Index.update, Array.getElem?_modify] at found
    split at found
    · obtain ⟨old, wasHeld, rfl⟩ := Option.map_eq_some_iff.mp found
      rw [same, keeps, lists.content_eq position old wasHeld]
    · exact lists.content_eq position held found
  found entry member := by
    rw [signatures_update same]
    exact lists.found entry member

/-- A change that appends an item to the bucket of a signature adds an entry. -/
theorem Lists.append (lists : index.Lists content entries) (tables : index.Tables)
    {bucket : BucketId} {signature : Signature} {item : α}
    (here : index.signatures[bucket]? = some signature) {change : Bucket → Bucket}
    (same : ∀ old, (change old).signature = old.signature)
    (appends : ∀ old, content (change old) = content old ++ [item]) :
    (index.update bucket change).Lists content (entries ++ [(signature, item)]) where
  content_eq position held found := by
    rw [Index.update, Array.getElem?_modify] at found
    have ofOld {old : Bucket} (wasHeld : index.buckets[position]? = some old) :
        index.signatures[position]? = some old.signature := by simp [signatures, wasHeld]
    split at found
    · next equal =>
      -- In the bucket of the signature the entry is the last one.
      obtain ⟨old, wasHeld, rfl⟩ := Option.map_eq_some_iff.mp found
      have signatureEq : old.signature = signature :=
        Option.some.inj ((ofOld wasHeld).symm.trans (equal ▸ here))
      rw [appends, same, lists.content_eq position old wasHeld]
      simp [signatureEq]
    · next different =>
      -- Any other bucket has another signature, so the entry does not belong there.
      have other : signature ≠ held.signature := by
        rintro rfl
        exact different (tables.position_unique here (ofOld found))
      rw [lists.content_eq position held found]
      simp [other]
  found entry member := by
    rw [signatures_update same]
    rcases List.mem_append.mp member with old | new
    · exact lists.found entry old
    · rw [List.mem_singleton.mp new]
      exact Array.mem_of_getElem? here

end

/-- An index that holds exactly the given facts and clauses, each entered under its signature. -/
structure Holds (index : Index) (facts : List (Signature × FactId))
    (clauses : List (Signature × ClauseRef)) : Prop where
  /-- The tables describe the buckets. -/
  tables : index.Tables
  /-- The buckets list the facts. -/
  facts : index.Lists (·.facts.toList) facts
  /-- The buckets list the clauses. -/
  clauses : index.Lists (·.clauses.toList) clauses

variable {facts : List (Signature × FactId)} {clauses : List (Signature × ClauseRef)}

/-- The empty index holds nothing. -/
theorem holds_empty : (∅ : Index).Holds [] [] := ⟨tables_empty, lists_empty _, lists_empty _⟩

/-- Looking for the bucket of a signature, and adding it when there is none, gives that bucket and
leaves the contents alone. -/
theorem Holds.bucketFor (holds : index.Holds facts clauses) (signature : Signature) :
    (index.bucketFor signature).1.Holds facts clauses ∧
      (index.bucketFor signature).1.signatures[(index.bucketFor signature).2]? =
        some signature := by
  rw [Index.bucketFor]
  split
  · next bucket found => exact ⟨holds, (holds.tables.positions signature bucket).mp found⟩
  · next absent =>
    have fresh := holds.tables.not_mem_of_absent absent
    refine ⟨⟨holds.tables.addBucket absent, holds.facts.addBucket fresh rfl,
      holds.clauses.addBucket fresh rfl⟩, ?_⟩
    rw [signatures_addBucket, ← size_signatures, Array.getElem?_push_size]

/-- **Inserting a fact enters it under its signature** and changes nothing else. -/
theorem Holds.insertFact (holds : index.Holds facts clauses) (signature : Signature)
    (fact : FactId) :
    (index.insertFact signature fact).1.Holds (facts ++ [(signature, fact)]) clauses := by
  obtain ⟨same, here⟩ := holds.bucketFor signature
  exact ⟨same.tables.update fun _ => rfl,
    same.facts.append same.tables here (fun _ => rfl) fun _ => Array.toList_push,
    same.clauses.update (fun _ => rfl) fun _ => rfl⟩

/-- **Inserting a clause enters it under its signature** and changes nothing else. -/
theorem Holds.insertClause (holds : index.Holds facts clauses) (signature : Signature)
    (clause : ClauseRef) :
    (index.insertClause signature clause).1.Holds facts (clauses ++ [(signature, clause)]) := by
  obtain ⟨same, here⟩ := holds.bucketFor signature
  exact ⟨same.tables.update fun _ => rfl,
    same.facts.update (fun _ => rfl) fun _ => rfl,
    same.clauses.append same.tables here (fun _ => rfl) fun _ => Array.toList_push⟩

/-! ## Growth -/

/-- Inserting a fact makes room for its signature and leaves the other buckets alone. -/
@[simp] theorem signatures_insertFact (index : Index) (signature : Signature) (fact : FactId) :
    (index.insertFact signature fact).1.signatures = (index.bucketFor signature).1.signatures :=
  signatures_update fun _ => rfl

/-- So does inserting a clause. -/
@[simp] theorem signatures_insertClause (index : Index) (signature : Signature)
    (clause : ClauseRef) : (index.insertClause signature clause).1.signatures =
      (index.bucketFor signature).1.signatures :=
  signatures_update fun _ => rfl

/-- Looking for the bucket of a signature leaves every other bucket at its place. -/
theorem getElem?_signatures_bucketFor {bucket : BucketId} {other : Signature}
    (found : index.signatures[bucket]? = some other) (signature : Signature) :
    (index.bucketFor signature).1.signatures[bucket]? = some other := by
  rw [bucketFor]
  split
  · exact found
  · have inside := (Array.getElem?_eq_some_iff.mp found).1
    rw [signatures_addBucket, Array.getElem?_push, if_neg (Nat.ne_of_lt inside), found]

/-- Looking for the bucket of a signature gives no other signature a bucket. -/
theorem mem_signatures_of_bucketFor {signature other : Signature}
    (member : other ∈ (index.bucketFor signature).1.signatures) :
    other ∈ index.signatures ∨ other = signature := by
  rw [bucketFor] at member
  split at member
  · exact .inl member
  · rwa [signatures_addBucket, Array.mem_push] at member

/-- A clause is put into a bucket with its signature. -/
theorem Holds.signature_insertClause (holds : index.Holds facts clauses) (signature : Signature)
    (clause : ClauseRef) :
    (index.insertClause signature clause).1.signatures[(index.insertClause signature clause).2]? =
      some signature := by
  rw [signatures_insertClause]
  exact (holds.bucketFor signature).2

/-! ## Look-ups -/

/-- A bucket has one kind. -/
theorem Tables.kind_unique (tables : index.Tables) {bucket : BucketId} {first second : Kind}
    (inFirst : bucket ∈ index.ofKind first) (inSecond : bucket ∈ index.ofKind second) :
    first = second := by
  obtain ⟨signature, found, rfl⟩ := (tables.kinds first bucket).mp inFirst
  obtain ⟨other, foundToo, rfl⟩ := (tables.kinds second bucket).mp inSecond
  rw [Option.some.inj (found.symm.trans foundToo)]

/-- A kind with buckets is a key of the second table. -/
theorem mem_keys_of_mem_ofKind {kind : Kind} {bucket : BucketId}
    (member : bucket ∈ index.ofKind kind) : kind ∈ index.kinds.keys := by
  rw [Std.HashMap.mem_keys]
  by_contra absent
  simp [ofKind, Std.HashMap.getD_eq_fallback absent] at member

/-- No bucket is scanned twice. -/
theorem Tables.nodup_scanned (tables : index.Tables) (kind : Kind) :
    (index.scanned kind).Nodup := by
  have apart {kind : Kind} (different : kind ≠ .wildcard) :
      (index.ofKind kind ++ index.ofKind .wildcard).Nodup := by
    refine List.nodup_append.mpr ⟨tables.nodup kind, tables.nodup .wildcard, ?_⟩
    rintro bucket inKind _ inWildcard rfl
    exact different (tables.kind_unique inKind inWildcard)
  cases kind with
  | atom => exact apart (by simp)
  | list arity => exact apart (by simp)
  | wildcard =>
    -- All kinds are scanned, and no bucket is of two kinds.
    refine List.nodup_flatMap.mpr ⟨fun kind _ => tables.nodup kind, ?_⟩
    refine Std.HashMap.nodup_keys.imp fun different => ?_
    exact List.disjoint_left.mpr fun bucket inFirst inSecond =>
      different (tables.kind_unique inFirst inSecond)

/-- Every bucket with a compatible signature is scanned. -/
theorem Tables.mem_scanned (tables : index.Tables) {bucket : BucketId}
    {signature other : Signature} (found : index.signatures[bucket]? = some other)
    (compatible : other.compatible signature) : bucket ∈ index.scanned signature.kind := by
  have inOwn : bucket ∈ index.ofKind other.kind := (tables.kinds _ _).mpr ⟨other, found, rfl⟩
  by_cases wildcard : signature = .wildcard
  · rw [wildcard]
    exact List.mem_flatMap.mpr ⟨other.kind, mem_keys_of_mem_ofKind inOwn, inOwn⟩
  · -- A compatible signature is of the same kind or the wildcard, and both kinds are scanned.
    have scannedOf : index.scanned signature.kind =
        index.ofKind signature.kind ++ index.ofKind .wildcard := by
      cases signature with
      | wildcard => exact absurd rfl wildcard
      | atom constant => rfl
      | list shapes => rfl
    rw [scannedOf, List.mem_append]
    rcases Signature.kind_of_compatible compatible with sameKind | isWildcard | isWildcard
    · exact .inl (sameKind ▸ inOwn)
    · exact .inr (by simpa [isWildcard, Signature.kind] using inOwn)
    · exact absurd isWildcard wildcard

/-- **The compatible buckets are found, each once**, whatever the order of the tables. -/
theorem Tables.compatibleBuckets_perm (tables : index.Tables) (signature : Signature) :
    (index.compatibleBuckets signature).Perm
      (index.buckets.toList.filter (·.signature.compatible signature)) := by
  rw [compatibleBuckets, toList_eq_filterMap_range, filter_filterMap_getElem?,
    filter_filterMap_getElem?]
  refine List.Perm.filterMap _ ?_
  rw [List.perm_ext_iff_of_nodup ((tables.nodup_scanned _).filter _) (List.nodup_range.filter _)]
  intro bucket
  simp only [List.mem_filter, List.mem_range, and_congr_left_iff, Option.any_eq_true]
  rintro ⟨held, found, compatible⟩
  refine iff_of_true ?_ ?_
  · have itsSignature : index.signatures[bucket]? = some held.signature := by
      simp [signatures, found]
    exact tables.mem_scanned itsSignature compatible
  · exact (Array.getElem?_eq_some_iff.mp found).1

open scoped List in
/-- Looking through the compatible buckets gives the entries with compatible signatures. -/
theorem Lists.lookup_perm {content : Bucket → List α} {entries : List (Signature × α)}
    (lists : index.Lists content entries) (tables : index.Tables) (signature : Signature) :
    ((index.compatibleBuckets signature).flatMap content).Perm
      ((entries.filter (·.1.compatible signature)).map (·.2)) := by
  have ofBucket : ∀ bucket ∈ index.buckets.toList,
      content bucket = (entries.filter (·.1 = bucket.signature)).map (·.2) := by
    intro bucket member
    obtain ⟨position, found⟩ := List.mem_iff_getElem?.mp member
    exact lists.content_eq position bucket (by simpa using found)
  let keys := (index.buckets.toList.filter (·.signature.compatible signature)).map (·.signature)
  have nodup : keys.Nodup := by
    refine tables.nodup_signatures.sublist ?_
    rw [signatures, Array.toList_map]
    exact List.filter_sublist.map _
  calc (index.compatibleBuckets signature).flatMap content
      ~ (index.buckets.toList.filter (·.signature.compatible signature)).flatMap content :=
        (tables.compatibleBuckets_perm signature).flatMap_right _
    _ ~ keys.flatMap fun key => (entries.filter (·.1 = key)).map (·.2) := by
        rw [List.flatMap_map]
        refine List.Perm.of_eq (List.flatMap_congr fun bucket member => ?_)
        exact ofBucket bucket (List.mem_of_mem_filter member)
    _ ~ (entries.filter (·.1 ∈ keys)).map (·.2) := flatMap_entries_perm nodup entries
    _ ~ (entries.filter (·.1.compatible signature)).map (·.2) := by
        refine List.Perm.of_eq (congrArg _ (List.filter_congr fun entry member => ?_))
        have listed : ∃ bucket ∈ index.buckets, bucket.signature = entry.1 := by
          simpa [signatures] using lists.found entry member
        rw [Bool.eq_iff_iff, decide_eq_true_iff]
        simp only [keys, List.mem_map, List.mem_filter, Array.mem_toList_iff]
        constructor
        · rintro ⟨bucket, ⟨-, compatible⟩, equal⟩
          exact equal ▸ compatible
        · intro compatible
          obtain ⟨bucket, inBuckets, equal⟩ := listed
          exact ⟨bucket, ⟨inBuckets, equal ▸ compatible⟩, equal⟩

/-- Sorting by position, then rule and clause, only depends on what is sorted. -/
theorem mergeSort_eq_of_perm {le : α → α → Bool} (trans : ∀ a b c, le a b → le b c → le a c)
    (total : ∀ a b, le a b || le b a) (antisymm : ∀ a b, le a b → le b a → a = b)
    {list other : List α} (perm : list.Perm other) : list.mergeSort le = other.mergeSort le := by
  have sorted := List.pairwise_mergeSort trans total list
  have sortedOther := List.pairwise_mergeSort trans total other
  refine List.Perm.eq_of_pairwise (fun a b _ _ => antisymm a b) sorted sortedOther ?_
  exact (List.mergeSort_perm list le).trans (perm.trans (List.mergeSort_perm other le).symm)

/-- Facts that are sorted by their position only depend on which they are. -/
theorem mergeSort_facts_eq_of_perm {found others : List FactId} (perm : found.Perm others) :
    found.mergeSort = others.mergeSort := by
  refine mergeSort_eq_of_perm ?_ ?_ ?_ perm
  · intro a b c
    simpa using Nat.le_trans
  · intro a b
    simpa using Nat.le_total a b
  · intro a b
    simpa using Nat.le_antisymm

/-- **A look-up of facts gives those with compatible signatures, sorted.** -/
theorem Holds.lookupFacts (holds : index.Holds facts clauses) (signature : Signature) :
    index.lookupFacts signature =
      ((facts.filter (·.1.compatible signature)).map (·.2)).mergeSort :=
  mergeSort_facts_eq_of_perm (holds.facts.lookup_perm holds.tables signature)

/-- Clauses that are sorted only depend on which they are. -/
theorem mergeSort_clauses_eq_of_perm {found others : List ClauseRef} (perm : found.Perm others) :
    found.mergeSort ClauseRef.le = others.mergeSort ClauseRef.le :=
  mergeSort_eq_of_perm ClauseRef.le_trans ClauseRef.le_total ClauseRef.le_antisymm perm

/-- **A look-up of clauses gives those with compatible signatures, sorted.** -/
theorem Holds.lookupClauses (holds : index.Holds facts clauses) (signature : Signature) :
    index.lookupClauses signature =
      ((clauses.filter (·.1.compatible signature)).map (·.2)).mergeSort ClauseRef.le :=
  mergeSort_clauses_eq_of_perm (holds.clauses.lookup_perm holds.tables signature)

/-- **A signature finds the bucket that has it**, if there is one. -/
theorem Tables.find?_eq_some_iff (tables : index.Tables) {signature : Signature} {bucket : Bucket} :
    index.find? signature = some bucket ↔
      bucket ∈ index.buckets ∧ bucket.signature = signature := by
  have ofBucket {position : BucketId} {held : Bucket}
      (found : index.buckets[position]? = some held) :
      index.signatures[position]? = some held.signature := by simp [signatures, found]
  rw [find?, Option.bind_eq_some_iff]
  constructor
  · rintro ⟨position, known, found⟩
    rw [tables.positions, ofBucket found] at known
    exact ⟨Array.mem_of_getElem? found, Option.some.inj known⟩
  · rintro ⟨member, rfl⟩
    obtain ⟨position, found⟩ := Array.mem_iff_getElem?.mp member
    exact ⟨position, (tables.positions _ _).mpr (ofBucket found), found⟩

/-- The buckets together list every entry once. -/
theorem Lists.flatMap_perm {content : Bucket → List α} {entries : List (Signature × α)}
    (lists : index.Lists content entries) (tables : index.Tables) :
    (index.buckets.toList.flatMap content).Perm (entries.map (·.2)) := by
  -- Every signature is compatible with the wildcard.
  have everything (signature : Signature) : signature.compatible .wildcard := by
    cases signature <;> rfl
  have all := (tables.compatibleBuckets_perm .wildcard).symm.flatMap_right content
  rw [List.filter_eq_self.mpr fun bucket _ => everything bucket.signature] at all
  refine all.trans ((lists.lookup_perm tables .wildcard).trans ?_)
  rw [List.filter_eq_self.mpr fun entry _ => everything entry.1]

end Index

end ForwardChaining
