import ForwardChaining.Proofs.Matching.SearchBound

/-! # Bindings from call to call

Unification extends bindings that earlier calls have found. As it has no occurs check, a variable
may come to be bound to a list that holds it, and such bindings are not acyclic. They still have no
loop of variables. A variable is bound only when it is unbound, and to the end of the links of the
other term, which is unbound as well if it is a variable; and if both terms stand for the same
variable, nothing is bound. So a call keeps bindings loop-free (`Finds.loopFree`), calls one after
another do (`Yields.loopFree`), and resolving ends under whatever they find. -/

namespace ForwardChaining

namespace Bindings

variable {given result last : Bindings}

/-- A call that succeeds finds bindings from given ones. -/
inductive Finds (given : Bindings) : (result : Bindings) → Prop where
  /-- For two terms. -/
  | terms {left right : Term} {result : Bindings} (unified : unify left right given = some result) :
    Finds given result
  /-- For facts and clauses, pair by pair. -/
  | pairs {facts clauses : List Term} {result : Bindings}
    (unified : unifyAll facts clauses given = some result) : Finds given result

/-- Calls that succeed, one after another, lead from given bindings to the last ones found. -/
abbrev Yields : (given last : Bindings) → Prop := Relation.ReflTransGen Finds

/-- No loop comes about in a call. -/
theorem Finds.loopFree (finds : given.Finds result) (loopFree : given.LoopFree) :
    result.LoopFree := by
  cases finds with
  | terms unified => exact (unifiesTo_of_unify loopFree unified).loopFree loopFree
  | pairs unified => exact (unifyAllTo_of_unifyAll loopFree unified).loopFree loopFree

/-- Nor does one come about from call to call. -/
theorem Yields.loopFree (yields : given.Yields last) (loopFree : given.LoopFree) :
    last.LoopFree := by
  induction yields with
  | refl => exact loopFree
  | tail _ finds ih => exact finds.loopFree ih

/-- **Unification never builds a loop of variables.** From loop-free bindings it finds just those
that the search without a bound ends with, and they are loop-free again. Loop-free bindings are the
ones under which resolving ends at every variable. So it ends, at what `resolve` finds, under all
bindings that calls lead to from none. -/
theorem loopFree_of_unify_and_resolvesTo_of_yields :
    (∀ given : Bindings, given.LoopFree → ∀ left right result,
      (unify left right given = some result ↔ UnifiesTo left right given (some result)) ∧
        (unify left right given = some result → result.LoopFree)) ∧
      (∀ bindings : Bindings,
        bindings.LoopFree ↔ ∀ name, ∃ result, bindings.ResolvesTo (.var name) result) ∧
      ∀ bindings : Bindings, Yields ∅ bindings → ∀ name,
        bindings.ResolvesTo (.var name) (bindings.resolve (.var name)) := by
  refine ⟨fun given loopFree left right result => ⟨⟨unifiesTo_of_unify loopFree, ?_⟩, ?_⟩,
    fun bindings => loopFree_iff_exists_resolvesTo, fun bindings yields name => ?_⟩
  · exact fun run => run.unify_eq loopFree
  · exact fun unified => (Finds.terms unified).loopFree loopFree
  · have loopFree : bindings.LoopFree := yields.loopFree acyclic_empty.loopFree
    exact loopFree.resolvesTo (.var name)

/-- Three variables in a ring, of which the last pair finds one and the same on both sides, and then
a list that holds the first of them: the bindings found are cyclic, but without a loop. -/
theorem loopFree_of_unify_and_resolvesTo_of_yields_ring :
    let call : Term := .list [.atom (.symbol "g"), .var "?a"]
    let row : Bindings := .ofList [("?a", .var "?b"), ("?b", .var "?c")]
    let result := row.bind "?c" call
    unifyAll [.var "?a", .var "?b", .var "?c"] [.var "?b", .var "?c", .var "?a"] ∅ = some row ∧
      row.LoopFree ∧ unify call (.var "?a") row = some result ∧ result.LoopFree ∧
      ¬ result.Acyclic ∧ Yields ∅ result ∧ result.ResolvesTo (.var "?a") call := by
  intro call row result
  obtain ⟨keeps, resolves, ends⟩ := loopFree_of_unify_and_resolvesTo_of_yields
  have first : unifyAll [.var "?a", .var "?b", .var "?c"] [.var "?b", .var "?c", .var "?a"] ∅ =
      some row := by decide +kernel
  have second : unify call (.var "?a") row = some result := by decide +kernel
  have yieldsRow : Yields ∅ row := .single (.pairs first)
  have yields : Yields ∅ result := yieldsRow.tail (.terms second)
  have loopFree : row.LoopFree := (resolves row).mpr fun name => ⟨_, ends row yieldsRow name⟩
  have loopFreeResult : result.LoopFree := (keeps row loopFree call (.var "?a") result).2 second
  have cycle : Relation.TransGen result.LeadsTo "?a" "?a" := by
    have toSecond : result.LeadsTo "?a" "?b" := ⟨.var "?b", by decide +kernel, by decide⟩
    have toThird : result.LeadsTo "?b" "?c" := ⟨.var "?c", by decide +kernel, by decide⟩
    have toFirst : result.LeadsTo "?c" "?a" := ⟨call, by decide +kernel, by decide⟩
    exact ((Relation.TransGen.single toSecond).tail toThird).tail toFirst
  have resolved : result.resolve (.var "?a") = call := by decide +kernel
  exact ⟨first, loopFree, second, loopFreeResult, fun acyclic => acyclic "?a" cycle, yields,
    resolved ▸ ends result yields "?a"⟩

end Bindings

end ForwardChaining
