import ForwardChaining.Matching.Bindings

/-! # Unification

Two terms unify under bindings when more bindings can make them equal. Both are resolved first, so
only unbound variables are ever bound and nothing is overwritten. There is no occurs check: a
variable may be bound to a list that holds it.

Through such a cyclic binding the search can go round for ever. `unifyWithin` therefore takes a
bound on the depth of its recursion and tells a clash from running out of depth, and
`unificationDepth` is a depth that every search with an end stays within: on the way down, every
step looks at a pair of subterms that it has not looked at with as many bindings. -/

namespace ForwardChaining

/-- The outcome of a unification with bounded depth. -/
inductive Unification where
  /-- The terms are equal under these bindings. -/
  | unified (bindings : Bindings)
  /-- No bindings make the terms equal. -/
  | clash
  /-- The depth did not suffice. -/
  | unfinished
  deriving DecidableEq

namespace Unification

/-- The bindings of a successful unification. -/
def bindings? : Unification → Option Bindings
  | .unified bindings => some bindings
  | _ => none

/-- Whether the unification came to an end. -/
def isFinished : Unification → Bool
  | .unfinished => false
  | _ => true

end Unification

/-- Unifies the terms of two lists pair by pair, each pair under the bindings of those before it.
Lists of different lengths clash. -/
def unifyPairs (unifyPair : Term → Term → Bindings → Unification) :
    List Term → List Term → Bindings → Unification
  | [], [], bindings => .unified bindings
  | left :: lefts, right :: rights, bindings =>
    match unifyPair left right bindings with
    | .unified bindings => unifyPairs unifyPair lefts rights bindings
    | outcome => outcome
  | _, _, _ => .clash

/-- Unifies two terms, descending into at most `depth - 1` lists. Of two unbound variables the left
one is bound. -/
def unifyWithin : (depth : Nat) → Term → Term → Bindings → Unification
  | 0, _, _, _ => .unfinished
  | depth + 1, left, right, bindings =>
    match bindings.resolve left, bindings.resolve right with
    | .var name, .var other =>
      if name = other then .unified bindings else .unified (bindings.bind name (.var other))
    | .var name, term => .unified (bindings.bind name term)
    | term, .var name => .unified (bindings.bind name term)
    | .atom constant, .atom other => if constant = other then .unified bindings else .clash
    | .list lefts, .list rights =>
      if lefts.length = rights.length then unifyPairs (unifyWithin depth) lefts rights bindings
      else .clash
    | _, _ => .clash

/-- A depth that suffices whenever some depth does. -/
def unificationDepth (left right : Term) (bindings : Bindings) : Nat :=
  let size := left.size + right.size + bindings.weight + 1
  size * size * size

/-- The bindings, more than the given ones, that make two terms equal. -/
def unify (left right : Term) (bindings : Bindings) : Option Bindings :=
  (unifyWithin (unificationDepth left right bindings) left right bindings).bindings?

/-- Unifies facts with clauses pair by pair, each pair under the bindings of those before it. Lists
of different lengths do not unify. -/
def unifyAll : List Term → List Term → Bindings → Option Bindings
  | [], [], bindings => some bindings
  | fact :: facts, clause :: clauses, bindings =>
    (unify fact clause bindings).bind (unifyAll facts clauses)
  | _, _, _ => none

end ForwardChaining
