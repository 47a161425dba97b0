import ForwardChaining.Matching.Signature
import ForwardChaining.Matching.Unification
import Mathlib.Data.List.Forall2

/-! # Terms that unify have compatible signatures

A look-up by signature may leave out every term whose signature is not compatible, because such a
term does not unify, under whatever bindings. -/

namespace ForwardChaining

/-- Only equal atoms unify. -/
theorem eq_of_unifyWithin_atom {depth : Nat} {left right : Atom} {bindings result : Bindings}
    (unified : unifyWithin depth (.atom left) (.atom right) bindings = .unified result) :
    left = right := by
  cases depth with
  | zero => simp [unifyWithin] at unified
  | succ depth =>
    by_contra different
    simp [unifyWithin, different] at unified

/-- Lists that unify are equally long, and their items unify pair by pair. -/
theorem unifyPairs_of_unifyWithin_list {depth : Nat} {lefts rights : List Term}
    {bindings result : Bindings}
    (unified : unifyWithin depth (.list lefts) (.list rights) bindings = .unified result) :
    ∃ inner, depth = inner + 1 ∧ lefts.length = rights.length ∧
      unifyPairs (unifyWithin inner) lefts rights bindings = .unified result := by
  cases depth with
  | zero => simp [unifyWithin] at unified
  | succ depth =>
    by_cases lengths : lefts.length = rights.length
    · exact ⟨depth, rfl, lengths, by simpa [unifyWithin, lengths] using unified⟩
    · simp [unifyWithin, lengths] at unified

/-- An atom and a list do not unify. -/
theorem unifyWithin_atom_list {depth : Nat} {constant : Atom} {items : List Term}
    {bindings result : Bindings} :
    unifyWithin depth (.atom constant) (.list items) bindings ≠ .unified result := by
  cases depth <;> simp [unifyWithin]

/-- Nor do a list and an atom. -/
theorem unifyWithin_list_atom {depth : Nat} {constant : Atom} {items : List Term}
    {bindings result : Bindings} :
    unifyWithin depth (.list items) (.atom constant) bindings ≠ .unified result := by
  cases depth <;> simp [unifyWithin]

/-- Items that unify have compatible outlines. -/
theorem Shape.compatible_of_unifyWithin {depth : Nat} {left right : Term}
    {bindings result : Bindings}
    (unified : unifyWithin depth left right bindings = .unified result) :
    (Shape.of left).compatible (Shape.of right) := by
  cases left with
  | var name => simp [Shape.of, Shape.compatible]
  | atom constant =>
    cases right with
    | var name => simp [Shape.of, Shape.compatible]
    | atom other => simp [Shape.of, eq_of_unifyWithin_atom unified]
    | list items => exact absurd unified unifyWithin_atom_list
  | list lefts =>
    cases right with
    | var name => simp [Shape.of, Shape.compatible]
    | atom other => exact absurd unified unifyWithin_list_atom
    | list rights =>
      obtain ⟨-, -, lengths, -⟩ := unifyPairs_of_unifyWithin_list unified
      simp [Shape.of, lengths]

/-- Lists that unify pair by pair have compatible outlines. -/
theorem compatibleShapes_of_unifyPairs {depth : Nat} {lefts rights : List Term}
    {bindings result : Bindings}
    (unified : unifyPairs (unifyWithin depth) lefts rights bindings = .unified result) :
    compatibleShapes (lefts.map Shape.of) (rights.map Shape.of) := by
  induction lefts generalizing rights bindings with
  | nil => cases rights <;> simp_all [unifyPairs]
  | cons left lefts ih =>
    cases rights with
    | nil => simp [unifyPairs] at unified
    | cons right rights =>
      rw [unifyPairs] at unified
      split at unified
      · next middle first =>
        -- The outlines of the first items fit, and those of the others by induction.
        simp [compatibleShapes, Shape.compatible_of_unifyWithin first, ih unified]
      · next outcome failed => exact absurd unified (failed result)

/-- Terms that unify, within any depth, have compatible signatures. -/
theorem Signature.compatible_of_unifyWithin {depth : Nat} {left right : Term}
    {bindings result : Bindings}
    (unified : unifyWithin depth left right bindings = .unified result) :
    (Signature.of left).compatible (Signature.of right) := by
  cases left with
  | var name => simp [Signature.of, Signature.compatible]
  | atom constant =>
    cases right with
    | var name => simp [Signature.of, Signature.compatible]
    | atom other => simp [Signature.of, Signature.compatible, eq_of_unifyWithin_atom unified]
    | list items => exact absurd unified unifyWithin_atom_list
  | list lefts =>
    cases right with
    | var name => simp [Signature.of, Signature.compatible]
    | atom other => exact absurd unified unifyWithin_list_atom
    | list rights =>
      obtain ⟨inner, -, -, pairs⟩ := unifyPairs_of_unifyWithin_list unified
      exact compatibleShapes_of_unifyPairs pairs

/-- A unification that gives bindings came to its end with them. -/
theorem unify_eq_some_iff {left right : Term} {bindings result : Bindings} :
    unify left right bindings = some result ↔
      unifyWithin (unificationDepth left right bindings) left right bindings = .unified result := by
  rw [unify]
  cases unifyWithin (unificationDepth left right bindings) left right bindings <;>
    simp [Unification.bindings?]

/-- **Terms that unify have compatible signatures.** -/
theorem Signature.compatible_of_unify {left right : Term} {bindings result : Bindings}
    (unified : unify left right bindings = some result) :
    (Signature.of left).compatible (Signature.of right) :=
  compatible_of_unifyWithin (unify_eq_some_iff.mp unified)

/-- Facts that unify with clauses have compatible signatures pair by pair. -/
theorem forall₂_compatible_of_unifyAll {facts clauses : List Term} {bindings result : Bindings}
    (unified : unifyAll facts clauses bindings = some result) :
    List.Forall₂ (fun fact clause => (Signature.of fact).compatible (Signature.of clause))
      facts clauses := by
  induction facts generalizing clauses bindings with
  | nil => cases clauses <;> simp_all [unifyAll]
  | cons fact facts ih =>
    cases clauses with
    | nil => simp [unifyAll] at unified
    | cons clause clauses =>
      rw [unifyAll, Option.bind_eq_some_iff] at unified
      obtain ⟨middle, first, rest⟩ := unified
      exact .cons (Signature.compatible_of_unify first) (ih rest)

end ForwardChaining
