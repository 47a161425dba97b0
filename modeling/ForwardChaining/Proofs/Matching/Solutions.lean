import ForwardChaining.Proofs.Matching.SearchBound
import ForwardChaining.Proofs.Matching.GroundMatch

/-! # Solutions of bindings

A value for every variable satisfies bindings when the two sides of each of them get the same value.
A search that ends has neither lost nor won a solution: the values that satisfy the given bindings
and make the two terms equal are just those that satisfy the bindings found, and there are none
after a clash (`UnifiesTo.satisfiedBy_iff`).

From this come the three properties of unification: it finds bindings whenever there is a solution,
and these are as general as any (`exists_unify_of_satisfiedBy`); what it finds makes the terms equal
and keeps what was given (`unify_sound`); and with ground facts it decides whether there is a
solution (`unifyAll_eq_some_iff_exists`). -/

namespace ForwardChaining

namespace Bindings

variable {given bindings : Bindings} {value : String → Term}

/-- Each variable and the term that it is bound to have the same value. -/
def SatisfiedBy (bindings : Bindings) (value : String → Term) : Prop :=
  ∀ name term, bindings.get? name = some term → value name = term.instantiate value

instance : Decidable (bindings.SatisfiedBy value) :=
  decidable_of_iff (∀ pair ∈ bindings.toList, value pair.1 = pair.2.instantiate value)
    ⟨fun each name term bound => each (name, term) (mem_toList.mpr bound),
      fun satisfied pair member => satisfied pair.1 pair.2 (mem_toList.mp member)⟩

/-- A term has the same value as what it stands for. -/
theorem SatisfiedBy.instantiate_eq (satisfied : bindings.SatisfiedBy value) {term result : Term}
    (resolves : bindings.ResolvesTo term result) :
    term.instantiate value = result.instantiate value := by
  induction resolves with
  | atom constant => rfl
  | list items => rfl
  | unbound unbound => rfl
  | link bound _ ih => rw [Term.instantiate_var, satisfied _ _ bound, ih]

/-- One more binding is one more equation. -/
theorem satisfiedBy_bind {name : String} {term : Term} (unbound : bindings.get? name = none) :
    (bindings.bind name term).SatisfiedBy value ↔
      bindings.SatisfiedBy value ∧ value name = term.instantiate value := by
  constructor
  · refine fun satisfied => ⟨fun other result bound => satisfied other result ?_, ?_⟩
    · exact extends_bind_of_unbound unbound term other result bound
    · exact satisfied name term (by rw [get?_bind, if_pos rfl])
  · rintro ⟨satisfied, equal⟩ other result bound
    rw [get?_bind] at bound
    split at bound
    · next same =>
      cases bound
      exact same ▸ equal
    · exact satisfied other result bound

/-- **What variables become under acyclic bindings satisfies these.** -/
theorem Acyclic.satisfiedBy (acyclic : bindings.Acyclic) :
    bindings.SatisfiedBy fun name => bindings.substitute (.var name) := by
  intro name term bound
  calc bindings.substitute (.var name)
    _ = bindings.substitute term := acyclic.substitute_var bound
    _ = _ := substitute_eq_instantiate bindings term

end Bindings

section

variable {given result : Bindings} {left right : Term} {lefts rights : List Term}
  {outcome : Option Bindings} {value : String → Term}

/-! ## No solution is lost or won -/

/-- Terms that clash never have the same value. -/
theorem Term.Clash.instantiate_ne (clash : left.Clash right) :
    left.instantiate value ≠ right.instantiate value := by
  cases clash with
  | atoms different => simpa using different
  | atomList => simp
  | listAtom => simp

/-- Pairs of terms keep their solutions when each pair does. -/
theorem PairsUnifyTo.satisfiedBy_iff {Run : Term → Term → Bindings → Option Bindings → Prop}
    (each : ∀ {left right given outcome}, Run left right given outcome →
      (given.SatisfiedBy value ∧ left.instantiate value = right.instantiate value ↔
        ∃ result ∈ outcome, result.SatisfiedBy value))
    (pairs : PairsUnifyTo Run lefts rights given outcome) :
    given.SatisfiedBy value ∧ lefts.map (·.instantiate value) = rights.map (·.instantiate value) ↔
      ∃ result ∈ outcome, result.SatisfiedBy value := by
  induction pairs with
  | differ lengths =>
    refine iff_of_false ?_ (by simp)
    rintro ⟨-, equal⟩
    exact lengths (by simpa using congrArg List.length equal)
  | nil => simp
  | cons _ first _ ih =>
    rw [← ih, List.map_cons, List.map_cons, List.cons.injEq, ← and_assoc, each first]
    simp
  | fail _ first =>
    rw [List.map_cons, List.map_cons, List.cons.injEq, ← and_assoc, each first]
    simp

/-- **A search keeps the solutions**: the values that satisfy the given bindings and make the terms
equal are those that satisfy the bindings found. -/
theorem UnifiesTo.satisfiedBy_iff (run : UnifiesTo left right given outcome) :
    given.SatisfiedBy value ∧ left.instantiate value = right.instantiate value ↔
      ∃ result ∈ outcome, result.SatisfiedBy value := by
  induction run with
  | same ofLeft ofRight =>
    simp only [Option.mem_some_iff, exists_eq_left', and_iff_left_iff_imp]
    exact fun satisfied => (satisfied.instantiate_eq ofLeft).trans
      (satisfied.instantiate_eq ofRight).symm
  | bindLeft ofLeft ofRight =>
    simp only [Option.mem_some_iff, exists_eq_left', Bindings.satisfiedBy_bind ofLeft.get?_eq_none]
    refine and_congr_right fun satisfied => ?_
    rw [satisfied.instantiate_eq ofLeft, satisfied.instantiate_eq ofRight, Term.instantiate_var]
  | bindRight ofLeft ofRight =>
    simp only [Option.mem_some_iff, exists_eq_left', Bindings.satisfiedBy_bind ofRight.get?_eq_none]
    refine and_congr_right fun satisfied => ?_
    rw [satisfied.instantiate_eq ofLeft, satisfied.instantiate_eq ofRight, Term.instantiate_var]
    exact eq_comm
  | clash ofLeft ofRight clash =>
    refine iff_of_false ?_ (by simp)
    rintro ⟨satisfied, equal⟩
    rw [satisfied.instantiate_eq ofLeft, satisfied.instantiate_eq ofRight] at equal
    exact clash.instantiate_ne equal
  | lists ofLeft ofRight _ pairs =>
    rw [← pairs.satisfiedBy_iff fun ⟨_, ih⟩ => ih]
    refine and_congr_right fun satisfied => ?_
    rw [satisfied.instantiate_eq ofLeft, satisfied.instantiate_eq ofRight, Term.instantiate_list,
      Term.instantiate_list, Term.list.injEq]

/-- So do pairs of searches. -/
theorem UnifyAllTo.satisfiedBy_iff (run : UnifyAllTo lefts rights given outcome) :
    given.SatisfiedBy value ∧ lefts.map (·.instantiate value) = rights.map (·.instantiate value) ↔
      ∃ result ∈ outcome, result.SatisfiedBy value :=
  PairsUnifyTo.satisfiedBy_iff (fun run => run.satisfiedBy_iff) run

/-! ## Searches that come to an end -/

/-- A search ends when that of the items does, should both terms stand for lists. -/
theorem exists_unifiesTo (loopFree : given.LoopFree)
    (ofLists : ∀ lefts rights, given.ResolvesTo left (.list lefts) →
      given.ResolvesTo right (.list rights) → ∃ outcome, UnifyAllTo lefts rights given outcome) :
    ∃ outcome, UnifiesTo left right given outcome := by
  rcases unifyWithin_step left right given with
    ⟨outcome, -, run⟩ | ⟨lefts, rights, leftEnd, rightEnd, -⟩
  · exact ⟨outcome, run loopFree⟩
  · have ofLeft := loopFree.resolvesTo_iff.mpr leftEnd
    have ofRight := loopFree.resolvesTo_iff.mpr rightEnd
    obtain ⟨outcome, pairs⟩ := ofLists lefts rights ofLeft ofRight
    exact ⟨outcome, .lists ofLeft ofRight pairs⟩

/-- A search through pairs ends when each of them ends under good bindings, with good bindings
again. -/
theorem exists_unifyAllTo (Good : Bindings → Prop) (good : Good given)
    (each : ∀ pair ∈ lefts.zip rights, ∀ given, Good given →
      ∃ outcome, UnifiesTo pair.1 pair.2 given outcome ∧ ∀ result ∈ outcome, Good result) :
    ∃ outcome, UnifyAllTo lefts rights given outcome := by
  by_cases lengths : lefts.length = rights.length
  · induction lefts generalizing rights given with
    | nil =>
      obtain rfl := List.length_eq_zero_iff.mp lengths.symm
      exact ⟨_, .nil given⟩
    | cons left lefts ih =>
      cases rights with
      | nil => cases lengths
      | cons right rights =>
        have lengths : lefts.length = rights.length := Nat.succ.inj lengths
        obtain ⟨ofFirst, ofRest⟩ := List.forall_mem_cons.mp each
        obtain ⟨_ | middle, first, goodAfter⟩ := ofFirst given good
        · exact ⟨none, .fail lengths first⟩
        · obtain ⟨outcome, rest⟩ := ih (goodAfter middle rfl) ofRest lengths
          exact ⟨outcome, .cons lengths first rest⟩
  · exact ⟨none, .differ lengths⟩

/-- A search that matches a ground fact with a pattern turns the pattern into the fact. -/
theorem UnifiesTo.matched {fact pattern : Term}
    (run : UnifiesTo fact pattern given (some result)) (acyclic : given.Acyclic)
    (ground : fact.isGround) : Matched given result fact pattern := by
  obtain ⟨depth, ended⟩ := run.exists_depth acyclic.loopFree
  exact matched_of_unifyWithin acyclic ground ended

/-- When the search ends for each of some ground facts, it ends for all of them together: acyclic
bindings stay acyclic from one fact to the next. -/
theorem exists_unifyAllTo_of_isGround {facts : List Term} (ground : ∀ fact ∈ facts, fact.isGround)
    (each : ∀ fact ∈ facts, ∀ (pattern : Term) (given : Bindings), given.Acyclic →
      ∃ outcome, UnifiesTo fact pattern given outcome)
    (acyclic : given.Acyclic) (patterns : List Term) :
    ∃ outcome, UnifyAllTo facts patterns given outcome := by
  refine exists_unifyAllTo Bindings.Acyclic acyclic fun pair member given acyclic => ?_
  have isFact := (List.of_mem_zip member).1
  obtain ⟨outcome, run⟩ := each pair.1 isFact pair.2 given acyclic
  refine ⟨outcome, run, ?_⟩
  rintro result rfl
  exact (run.matched acyclic (ground pair.1 isFact)).acyclic

/-- **With a ground fact, the search ends for every pattern.** -/
theorem exists_unifiesTo_of_isGround {fact : Term} (ground : fact.isGround)
    (acyclic : given.Acyclic) (pattern : Term) :
    ∃ outcome, UnifiesTo fact pattern given outcome := by
  -- The induction is on the fact: whatever the pattern stands for, the fact gets smaller.
  induction fact generalizing pattern given with
  | atom constant => exact exists_unifiesTo acyclic.loopFree fun _ _ ofFact => by simp at ofFact
  | var name => cases ground
  | list facts ih =>
    refine exists_unifiesTo acyclic.loopFree fun _ patterns ofFact _ => ?_
    obtain rfl := (Term.list.inj (Bindings.ResolvesTo.list_iff.mp ofFact)).symm
    have groundFacts : ∀ fact ∈ facts, fact.isGround := by simpa using ground
    exact exists_unifyAllTo_of_isGround groundFacts (fun fact member pattern _ acyclic =>
      ih fact member (groundFacts fact member) acyclic pattern) acyclic patterns

/-- The search for a ground fact ends with what `unify` gives. -/
theorem unifiesTo_unify {fact : Term} (ground : fact.isGround) (acyclic : given.Acyclic)
    (pattern : Term) : UnifiesTo fact pattern given (unify fact pattern given) := by
  obtain ⟨outcome, run⟩ := exists_unifiesTo_of_isGround ground acyclic pattern
  rwa [run.unify_eq acyclic.loopFree]

/-- **With ground facts, the search ends for all clauses**, with what `unifyAll` gives. -/
theorem unifyAllTo_unifyAll {facts : List Term} (ground : ∀ fact ∈ facts, fact.isGround)
    (acyclic : given.Acyclic) (clauses : List Term) :
    UnifyAllTo facts clauses given (unifyAll facts clauses given) := by
  have each (fact : Term) (member : fact ∈ facts) (clause : Term) (given : Bindings)
      (acyclic : given.Acyclic) : ∃ outcome, UnifiesTo fact clause given outcome :=
    exists_unifiesTo_of_isGround (ground fact member) acyclic clause
  obtain ⟨outcome, run⟩ := exists_unifyAllTo_of_isGround ground each acyclic clauses
  rwa [run.unifyAll_eq acyclic.loopFree]

/-- **Where there is a solution, the search ends.** It only ever compares terms with the same value,
and on the way into lists this value gets smaller, however large the bound terms are. -/
theorem exists_unifiesTo_of_satisfiedBy (loopFree : given.LoopFree)
    (satisfied : given.SatisfiedBy value)
    (equal : left.instantiate value = right.instantiate value) :
    ∃ outcome, UnifiesTo left right given outcome := by
  -- The induction is on the common value: the terms may get larger where bound ones come in.
  generalize common : left.instantiate value = term at equal
  induction term generalizing left right given with
  | list items ih =>
    refine exists_unifiesTo loopFree fun lefts rights ofLeft ofRight => ?_
    have leftItems : lefts.map (·.instantiate value) = items := by
      simpa [satisfied.instantiate_eq ofLeft] using common
    have rightItems : rights.map (·.instantiate value) = items := by
      simpa [satisfied.instantiate_eq ofRight] using equal.symm
    -- The items of the two lists have the same values one by one.
    have sameValues := leftItems.trans rightItems.symm
    rw [← List.forall₂_eq_eq_eq, List.forall₂_map_left_iff, List.forall₂_map_right_iff]
      at sameValues
    refine exists_unifyAllTo (fun given => given.LoopFree ∧ given.SatisfiedBy value)
      ⟨loopFree, satisfied⟩ ?_
    rintro pair member given ⟨loopFree, satisfied⟩
    have sameValue := (List.forall₂_iff_zip.mp sameValues).2 member
    have inItems : pair.1.instantiate value ∈ items :=
      leftItems ▸ List.mem_map_of_mem (List.of_mem_zip member).1
    obtain ⟨outcome, run⟩ := ih _ inItems loopFree satisfied rfl sameValue
    obtain ⟨result, found, satisfiedToo⟩ := run.satisfiedBy_iff.mp ⟨satisfied, sameValue⟩
    obtain rfl := Option.mem_def.mp found
    exact ⟨_, run, by simpa using ⟨run.loopFree loopFree, satisfiedToo⟩⟩
  | _ =>
    refine exists_unifiesTo loopFree fun lefts rights ofLeft _ => ?_
    rw [satisfied.instantiate_eq ofLeft, Term.instantiate_list] at common
    cases common

/-! ## What unification finds -/

/-- **Unification is complete and most general.** Where values satisfy acyclic bindings and make two
terms equal, the search ends, unification finds bindings, and the values satisfy these as well. -/
theorem exists_unify_of_satisfiedBy (acyclic : given.Acyclic) (satisfied : given.SatisfiedBy value)
    (equal : left.instantiate value = right.instantiate value) :
    ∃ result, UnifiesTo left right given (some result) ∧ unify left right given = some result ∧
      result.SatisfiedBy value := by
  obtain ⟨outcome, run⟩ := exists_unifiesTo_of_satisfiedBy acyclic.loopFree satisfied equal
  obtain ⟨result, found, satisfiedToo⟩ := run.satisfiedBy_iff.mp ⟨satisfied, equal⟩
  obtain rfl := Option.mem_def.mp found
  exact ⟨result, run, run.unify_eq acyclic.loopFree, satisfiedToo⟩

/-- A variable bound to a list with a second one in it, which is bound to a third one. -/
def chain : Bindings :=
  .ofList [("?list", .list [.atom (.symbol "f"), .var "?xy"]), ("?xy", .var "?x")]

/-- Names get shorter along the chain. -/
theorem acyclic_chain : chain.Acyclic := Bindings.acyclic_of_rank String.length (by decide +kernel)

/-- A solution through the chain: two variables have the same list as their value. -/
theorem exists_unify_of_satisfiedBy_chain :
    let constant : Term := .atom (.symbol "a")
    let left : Term := .list [.var "?list", .var "?w", .var "?xy"]
    let right : Term := .list [.var "?w", .list [.atom (.symbol "f"), .var "?v"], constant]
    let value (name : String) : Term :=
      if name = "?list" ∨ name = "?w" then .list [.atom (.symbol "f"), constant] else constant
    chain.SatisfiedBy value ∧ left.instantiate value = right.instantiate value ∧
      ∃ result, UnifiesTo left right chain (some result) ∧
        unify left right chain = some result ∧ result.SatisfiedBy value := by
  intro constant left right value
  have satisfied : chain.SatisfiedBy value := by decide +kernel
  have equal : left.instantiate value = right.instantiate value := by decide +kernel
  exact ⟨satisfied, equal, exists_unify_of_satisfiedBy acyclic_chain satisfied equal⟩

/-- The variables that occur in two terms or in bound ones. -/
def searchedNames (left right : Term) (given : Bindings) : Set String :=
  {name | name ∈ left.occurrences ∨ name ∈ right.occurrences ∨
    ∃ other term, given.get? other = some term ∧ name ∈ term.occurrences}

/-- The terms without other variables than some. -/
def termsOver (names : Set String) : Set Term :=
  {term | ∀ name ∈ term.occurrences, name ∈ names}

/-- The items of terms without other variables have none. -/
theorem holdsItems_termsOver (names : Set String) : HoldsItems (termsOver names) := by
  intro items inNames item member name occurs
  exact inNames name (by simpa using ⟨item, member, occurs⟩)

/-- **A search binds no other variables than those that occur** in the terms and in bound ones. -/
theorem UnifiesTo.mem_searchedNames (run : UnifiesTo left right given (some result)) {name : String}
    (unbound : given.get? name = none) (bound : result.get? name ≠ none) :
    name ∈ searchedNames left right given := by
  have gains : given.Gains (termsOver (searchedNames left right given)) result :=
    run.gains (holdsItems_termsOver _) (fun _ occurs => .inl occurs)
      (fun _ occurs => .inr (.inl occurs))
      fun other term isBound _ occurs => .inr (.inr ⟨other, term, isBound, occurs⟩)
  obtain ⟨term, isBound⟩ := Option.ne_none_iff_exists'.mp bound
  rcases gains.get?_eq_some isBound with old | ⟨inNames, -⟩
  · simp [unbound] at old
  · exact inNames name (by simp [Term.occurrences])

/-- **Unification is sound and only extends.** No binding that was given changes, only variables
that occur in the terms or in bound ones are bound in addition, and the terms become equal, provided
that the bindings found are acyclic. -/
theorem unify_sound (acyclic : given.Acyclic) (unified : unify left right given = some result) :
    result.Extends given ∧
      (∀ name, given.get? name = none → result.get? name ≠ none →
        name ∈ left.occurrences ∨ name ∈ right.occurrences ∨
          ∃ other term, given.get? other = some term ∧ name ∈ term.occurrences) ∧
      (result.Acyclic → result.substitute left = result.substitute right) := by
  have run := unifiesTo_of_unify acyclic.loopFree unified
  refine ⟨run.gains_univ.extends, fun name => run.mem_searchedNames, fun acyclicResult => ?_⟩
  -- What variables become under the bindings found is a solution of them.
  have solution := run.satisfiedBy_iff.mpr ⟨result, rfl, acyclicResult.satisfiedBy⟩
  rw [Bindings.substitute_eq_instantiate, solution.2, ← Bindings.substitute_eq_instantiate]

/-- Lists become equal through the chain, and the bindings found are acyclic. -/
theorem unify_sound_chain :
    let left : Term := .list [.var "?list", .var "?copy"]
    let right : Term := .list [.var "?copy", .list [.var "?v", .atom (.symbol "a")]]
    ∃ result, unify left right chain = some result ∧ result.Acyclic ∧ result.Extends chain ∧
      (∀ name, chain.get? name = none → result.get? name ≠ none →
        name ∈ left.occurrences ∨ name ∈ right.occurrences ∨
          ∃ other term, chain.get? other = some term ∧ name ∈ term.occurrences) ∧
      result.substitute left = result.substitute right := by
  intro left right
  let result := ((chain.bind "?copy" (.list [.atom (.symbol "f"), .var "?xy"])).bind "?v"
    (.atom (.symbol "f"))).bind "?x" (.atom (.symbol "a"))
  have unified : unify left right chain = some result := by decide +kernel
  have acyclic : result.Acyclic := Bindings.acyclic_of_rank String.length (by decide +kernel)
  obtain ⟨keeps, occurs, equal⟩ := unify_sound acyclic_chain unified
  exact ⟨result, unified, acyclic, keeps, occurs, equal acyclic⟩

/-- **With ground facts, unification finds bindings just when there is a solution**, that is, values
that satisfy the given bindings and turn the clauses into the facts. -/
theorem unifyAll_eq_some_iff_exists {facts clauses : List Term}
    (ground : ∀ fact ∈ facts, fact.isGround) (acyclic : given.Acyclic) :
    (∃ result, unifyAll facts clauses given = some result) ↔
      ∃ value, given.SatisfiedBy value ∧ clauses.map (·.instantiate value) = facts := by
  have run := unifyAllTo_unifyAll ground acyclic clauses
  have groundFacts (value : String → Term) : facts.map (·.instantiate value) = facts :=
    (List.map_congr_left fun fact member =>
      Term.instantiate_of_isGround (ground fact member) value).trans facts.map_id
  constructor
  · rintro ⟨result, unified⟩
    have matched := matched_of_unifyAll acyclic ground unified
    obtain ⟨satisfied, equal⟩ :=
      run.satisfiedBy_iff.mpr ⟨result, unified, matched.acyclic.satisfiedBy⟩
    exact ⟨_, satisfied, equal.symm.trans (groundFacts _)⟩
  · rintro ⟨value, satisfied, equal⟩
    obtain ⟨result, unified, -⟩ := run.satisfiedBy_iff.mp
      ⟨satisfied, (groundFacts value).trans equal.symm⟩
    exact ⟨result, unified⟩

end

end ForwardChaining
