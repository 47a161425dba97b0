import ForwardChaining.Matching.Signature
import Std.Data.HashMap

/-! # The index of facts and clauses

Facts and rule clauses with the same signature share a bucket. Buckets are kept in the order of
their creation, found by signature through one table, and gathered by kind in another. A look-up
scans only the kinds that can hold a compatible signature, and sorts what it finds, so the order in
which the tables are walked does not show. -/

namespace ForwardChaining

/-- A fact, by its position in the order of assertion. -/
abbrev FactId := Nat

/-- A rule, by its number; the first rule has the number one. -/
abbrev RuleId := Nat

/-- A clause of a rule. -/
structure ClauseRef where
  /-- The rule. -/
  rule : RuleId
  /-- The position of the clause in the trigger of the rule. -/
  clause : Nat
  deriving DecidableEq, Repr

/-- Whether one clause does not come after another, by rule and then by position. -/
def ClauseRef.le (left right : ClauseRef) : Bool :=
  left.rule < right.rule || (left.rule = right.rule && left.clause ≤ right.clause)

/-- The facts and clauses of one signature. -/
structure Bucket where
  /-- Their signature. -/
  signature : Signature
  /-- The facts, in the order of insertion. -/
  facts : Array FactId
  /-- The clauses, in the order of insertion. -/
  clauses : Array ClauseRef

/-- A bucket, by its position in the order of creation. -/
abbrev BucketId := Nat

/-- All buckets, and the tables to find them. -/
structure Index where
  /-- The buckets in the order of their creation. -/
  buckets : Array Bucket
  /-- The bucket of each signature. -/
  positions : Std.HashMap Signature BucketId
  /-- The buckets of each kind of signature. -/
  kinds : Std.HashMap Kind (Array BucketId)

namespace Index

instance : EmptyCollection Index := ⟨⟨#[], ∅, ∅⟩⟩
instance : Inhabited Index := ⟨∅⟩

/-- The number of buckets. -/
def size (index : Index) : Nat := index.buckets.size

/-! ## Insertion -/

/-- Adds an empty bucket. -/
def addBucket (index : Index) (signature : Signature) : Index where
  buckets := index.buckets.push ⟨signature, #[], #[]⟩
  positions := index.positions.insert signature index.buckets.size
  kinds :=
    index.kinds.insert signature.kind
      ((index.kinds.getD signature.kind #[]).push index.buckets.size)

/-- The bucket of a signature, which is created when there is none. -/
def bucketFor (index : Index) (signature : Signature) : Index × BucketId :=
  match index.positions[signature]? with
  | some bucket => (index, bucket)
  | none => (index.addBucket signature, index.buckets.size)

/-- Changes one bucket. -/
def update (index : Index) (bucket : BucketId) (change : Bucket → Bucket) : Index :=
  { index with buckets := index.buckets.modify bucket change }

/-- Puts a fact into the bucket of its signature. -/
def insertFact (index : Index) (signature : Signature) (fact : FactId) : Index × BucketId :=
  let (index, bucket) := index.bucketFor signature
  (index.update bucket fun old => { old with facts := old.facts.push fact }, bucket)

/-- Puts a clause into the bucket of its signature. -/
def insertClause (index : Index) (signature : Signature) (clause : ClauseRef) : Index × BucketId :=
  let (index, bucket) := index.bucketFor signature
  (index.update bucket fun old => { old with clauses := old.clauses.push clause }, bucket)

/-! ## Look-up -/

/-- The bucket with exactly this signature. -/
def find? (index : Index) (signature : Signature) : Option Bucket :=
  index.positions[signature]?.bind (index.buckets[·]?)

/-- The buckets of one kind. -/
def ofKind (index : Index) (kind : Kind) : List BucketId := (index.kinds.getD kind #[]).toList

/-- The buckets that can be compatible with a signature of some kind: those of the same kind and
those of the wildcard, and all buckets for the wildcard itself. -/
def scanned (index : Index) : Kind → List BucketId
  | .wildcard => index.kinds.keys.flatMap index.ofKind
  | kind => index.ofKind kind ++ index.ofKind .wildcard

/-- The buckets whose signatures are compatible with a signature. -/
def compatibleBuckets (index : Index) (signature : Signature) : List Bucket :=
  ((index.scanned signature.kind).filterMap (index.buckets[·]?)).filter
    (·.signature.compatible signature)

/-- The facts with compatible signatures, in the order of assertion. -/
def lookupFacts (index : Index) (signature : Signature) : List FactId :=
  ((index.compatibleBuckets signature).flatMap (·.facts.toList)).mergeSort

/-- The clauses with compatible signatures, by rule and then by position. -/
def lookupClauses (index : Index) (signature : Signature) : List ClauseRef :=
  ((index.compatibleBuckets signature).flatMap (·.clauses.toList)).mergeSort ClauseRef.le

end Index

end ForwardChaining
