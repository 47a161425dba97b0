import ForwardChaining.Proofs.Matching.IndexContents
import Mathlib.Data.List.Induction

/-! # Look-ups in an index

Whatever has been put into an index, in whatever order, a look-up gives exactly the entries whose
signatures are compatible, sorted. What an index holds is therefore described by the list of its
insertions alone (`Insertion`).

A look-up for the wildcard walks through the table of kinds. The order in which this table lists its
kinds is made a parameter here (`Index.lookupFactsAlong`, `Index.lookupClausesAlong`), and it turns
out to make no difference. -/

namespace ForwardChaining

/-- An entry that is put into an index under a signature. -/
inductive Insertion where
  /-- A fact. -/
  | fact (signature : Signature) (fact : FactId)
  /-- A clause of a rule. -/
  | clause (signature : Signature) (clause : ClauseRef)

namespace Insertion

/-- The fact that is put in, with its signature. -/
def fact? : Insertion → Option (Signature × FactId)
  | .fact signature entry => some (signature, entry)
  | .clause _ _ => none

/-- The clause that is put in, with its signature. -/
def clause? : Insertion → Option (Signature × ClauseRef)
  | .fact _ _ => none
  | .clause signature entry => some (signature, entry)

end Insertion

namespace Index

variable {index : Index} {order : List Kind}

/-! ## Insertions one after another -/

/-- The index with one more entry. -/
def insert (index : Index) : Insertion → Index
  | .fact signature fact => (index.insertFact signature fact).1
  | .clause signature clause => (index.insertClause signature clause).1

/-- The index of some insertions, the first of which is made into the empty index. -/
def ofInsertions (insertions : List Insertion) : Index := insertions.foldl insert ∅

/-- An insertion enters its fact or its clause. -/
theorem Holds.insert {facts : List (Signature × FactId)} {clauses : List (Signature × ClauseRef)}
    (holds : index.Holds facts clauses) (insertion : Insertion) :
    (index.insert insertion).Holds (facts ++ [insertion].filterMap Insertion.fact?)
      (clauses ++ [insertion].filterMap Insertion.clause?) := by
  cases insertion with
  | fact signature entry =>
    have nothing : [Insertion.fact signature entry].filterMap Insertion.clause? = [] := rfl
    rw [nothing, List.append_nil]
    exact holds.insertFact signature entry
  | clause signature entry =>
    have nothing : [Insertion.clause signature entry].filterMap Insertion.fact? = [] := rfl
    rw [nothing, List.append_nil]
    exact holds.insertClause signature entry

/-- **An index holds what has been put into it.** -/
theorem holds_ofInsertions (insertions : List Insertion) :
    (ofInsertions insertions).Holds (insertions.filterMap Insertion.fact?)
      (insertions.filterMap Insertion.clause?) := by
  induction insertions using List.reverseRecOn with
  | nil => exact holds_empty
  | append_singleton insertions last ih =>
    rw [ofInsertions, List.foldl_concat, List.filterMap_append, List.filterMap_append]
    exact ih.insert last

/-! ## The order of the tables -/

/-- The buckets that can be compatible with a signature of some kind, when the table lists the kinds
in a given order. -/
def scannedAlong (index : Index) (order : List Kind) : Kind → List BucketId
  | .wildcard => order.flatMap index.ofKind
  | kind => index.ofKind kind ++ index.ofKind .wildcard

/-- The buckets with compatible signatures, in the order in which the kinds are listed. -/
def compatibleBucketsAlong (index : Index) (order : List Kind) (signature : Signature) :
    List Bucket :=
  ((index.scannedAlong order signature.kind).filterMap (index.buckets[·]?)).filter
    (·.signature.compatible signature)

/-- The facts that a look-up finds when the table lists the kinds in a given order. -/
def lookupFactsAlong (index : Index) (order : List Kind) (signature : Signature) : List FactId :=
  ((index.compatibleBucketsAlong order signature).flatMap (·.facts.toList)).mergeSort

/-- The clauses that a look-up finds when the table lists the kinds in a given order. -/
def lookupClausesAlong (index : Index) (order : List Kind) (signature : Signature) :
    List ClauseRef :=
  ((index.compatibleBucketsAlong order signature).flatMap (·.clauses.toList)).mergeSort ClauseRef.le

/-- The same buckets are scanned along any order of the kinds. -/
theorem scannedAlong_perm (isOrder : order.Perm index.kinds.keys) (kind : Kind) :
    (index.scannedAlong order kind).Perm (index.scanned kind) := by
  -- Only a look-up for the wildcard walks through the table.
  cases kind with
  | wildcard => exact isOrder.flatMap_right index.ofKind
  | atom => exact .refl _
  | list arity => exact .refl _

/-- The same of them have compatible signatures. -/
theorem compatibleBucketsAlong_perm (isOrder : order.Perm index.kinds.keys)
    (signature : Signature) :
    (index.compatibleBucketsAlong order signature).Perm (index.compatibleBuckets signature) :=
  ((scannedAlong_perm isOrder signature.kind).filterMap _).filter _

/-- **A look-up of facts does not depend on the order of the kinds.** -/
theorem lookupFactsAlong_eq (isOrder : order.Perm index.kinds.keys) (signature : Signature) :
    index.lookupFactsAlong order signature = index.lookupFacts signature :=
  mergeSort_facts_eq_of_perm ((compatibleBucketsAlong_perm isOrder signature).flatMap_right _)

/-- **Nor does a look-up of clauses.** -/
theorem lookupClausesAlong_eq (isOrder : order.Perm index.kinds.keys) (signature : Signature) :
    index.lookupClausesAlong order signature = index.lookupClauses signature :=
  mergeSort_clauses_eq_of_perm ((compatibleBucketsAlong_perm isOrder signature).flatMap_right _)

/-! ## What a look-up finds -/

/-- The facts that a look-up finds ascend. -/
theorem pairwise_lookupFacts (index : Index) (signature : Signature) :
    (index.lookupFacts signature).Pairwise (· ≤ ·) := by
  rw [lookupFacts]
  refine (List.pairwise_mergeSort ?_ ?_ _).imp of_decide_eq_true
  · intro a b c
    simpa using Nat.le_trans
  · intro a b
    simpa using Nat.le_total a b

/-- The clauses that a look-up finds ascend. -/
theorem pairwise_lookupClauses (index : Index) (signature : Signature) :
    (index.lookupClauses signature).Pairwise fun first second =>
      first.rule < second.rule ∨ first.rule = second.rule ∧ first.clause ≤ second.clause :=
  (List.pairwise_mergeSort ClauseRef.le_trans ClauseRef.le_total _).imp ClauseRef.le_iff.mp

/-- **Look-ups are exact.** After any insertions, a look-up gives the facts that were put in under
compatible signatures, each as often as it was put in, ascending; and likewise the clauses, by rule
and then by position. The order in which the table lists the kinds of signatures does not show. -/
theorem lookups_exact (insertions : List Insertion) (signature : Signature) (order : List Kind)
    (isOrder : order.Perm (ofInsertions insertions).kinds.keys) :
    let index := ofInsertions insertions
    let facts := (insertions.filterMap Insertion.fact?).filter (·.1.compatible signature)
    let clauses := (insertions.filterMap Insertion.clause?).filter (·.1.compatible signature)
    (index.lookupFactsAlong order signature = index.lookupFacts signature ∧
      (index.lookupFacts signature).Pairwise (· ≤ ·) ∧
      (index.lookupFacts signature).Perm (facts.map (·.2))) ∧
    index.lookupClausesAlong order signature = index.lookupClauses signature ∧
      (index.lookupClauses signature).Pairwise (fun first second =>
        first.rule < second.rule ∨ first.rule = second.rule ∧ first.clause ≤ second.clause) ∧
      (index.lookupClauses signature).Perm (clauses.map (·.2)) := by
  intro index facts clauses
  have holds : index.Holds _ _ := holds_ofInsertions insertions
  refine ⟨⟨lookupFactsAlong_eq isOrder signature, index.pairwise_lookupFacts signature, ?_⟩,
    lookupClausesAlong_eq isOrder signature, index.pairwise_lookupClauses signature, ?_⟩
  · rw [holds.lookupFacts]
    exact List.mergeSort_perm _ _
  · rw [holds.lookupClauses]
    exact List.mergeSort_perm _ _

/-- Facts and clauses under several signatures, one fact twice and nothing in order. A look-up for a
pair also finds the clause under the wildcard, and one for the wildcard finds every fact. -/
theorem lookups_exact_pairs :
    let atom (name : String) : Term := .atom (.symbol name)
    let under (terms : List Term) : Signature := .of (.list terms)
    let index := ofInsertions
      [.fact (under [atom "p", atom "b"]) 4, .clause .wildcard ⟨2, 0⟩,
        .fact (under [atom "p", atom "a"]) 3, .fact (under [atom "q", atom "a"]) 1,
        .clause (under [atom "p", .var "?x"]) ⟨1, 1⟩, .fact (under [atom "p", atom "a"]) 3,
        .fact (.of (atom "p")) 0, .clause (under [.var "?x", atom "a"]) ⟨1, 0⟩]
    let order := index.kinds.keys.reverse
    order.Perm index.kinds.keys ∧
      index.lookupFacts (under [atom "p", .var "?x"]) = [3, 3, 4] ∧
      index.lookupClauses (under [atom "p", atom "b"]) = [⟨1, 1⟩, ⟨2, 0⟩] ∧
      index.lookupFactsAlong order .wildcard = [0, 1, 3, 3, 4] := by
  intro atom under index order
  have isOrder : order.Perm index.kinds.keys := List.reverse_perm _
  obtain ⟨⟨-, ascend, facts⟩, -⟩ := lookups_exact _ (under [atom "p", .var "?x"]) order isOrder
  obtain ⟨-, -, ascendToo, clauses⟩ := lookups_exact _ (under [atom "p", atom "b"]) order isOrder
  obtain ⟨⟨along, ascendAll, all⟩, -⟩ := lookups_exact _ .wildcard order isOrder
  refine ⟨isOrder, ?_, ?_, ?_⟩
  · refine List.Perm.eq_of_pairwise (fun _ _ _ _ => Nat.le_antisymm) ascend (by decide) ?_
    exact facts.trans (by decide)
  · refine List.Perm.eq_of_pairwise ?_ ascendToo (by decide) (clauses.trans (by decide))
    exact fun a b _ _ first second =>
      ClauseRef.le_antisymm a b (ClauseRef.le_iff.mpr first) (ClauseRef.le_iff.mpr second)
  · rw [along]
    refine List.Perm.eq_of_pairwise (fun _ _ _ _ => Nat.le_antisymm) ascendAll (by decide) ?_
    exact all.trans (by decide)

end Index

end ForwardChaining
