import ForwardChaining.Proofs.Matching.SearchDepth
import ForwardChaining.Proofs.Matching.Compatibility
import Mathlib.Data.Finset.Prod

/-! # The depth that unification runs with

A search that ends does so within `unificationDepth`. On its way down it only meets the terms that
it started from, those inside them, and those inside the bound terms; the bindings only grow, and at
no place does it come back to two terms with as many bindings as before, since from the same place
it would go the same way again. So there are no more places on a way than pairs of these terms with
numbers of bound variables (`SearchPlace.Needs.lt_card`).

Under loop-free bindings, `unify` therefore finds what the search without a bound ends with
(`UnifiesTo.unify_eq`). -/

namespace ForwardChaining

/-! ## The places on a way down -/

/-- A place that a search comes to: two terms to make equal, and the bindings there. -/
structure SearchPlace where
  /-- The left term. -/
  left : Term
  /-- The right term. -/
  right : Term
  /-- The bindings that the search has come with. -/
  given : Bindings

/-- Whether a term is a bound variable. -/
def Bindings.isBound (bindings : Bindings) : Term → Bool
  | .var name => (bindings.get? name).isSome
  | _ => false

/-- How many of some terms are bound variables. -/
def Bindings.countBound (bindings : Bindings) (terms : Finset Term) : Nat :=
  (terms.filter (bindings.isBound ·)).card

namespace Bindings

variable {terms : Finset Term} {given next last : Bindings}

/-- One more variable is bound after a step. -/
theorem Binds.countBound_lt (binds : given.Binds terms next) :
    given.countBound terms < next.countBound terms := by
  cases binds with
  | @bind name term unbound _ _ inTerms =>
    refine Finset.card_lt_card (Finset.ssubset_iff_of_subset ?_ |>.mpr ⟨.var name, ?_, ?_⟩)
    · intro other member
      rw [Finset.mem_filter] at member ⊢
      refine ⟨member.1, ?_⟩
      cases other with
      | var otherName =>
        have bound := member.2
        simp only [isBound, get?_bind] at bound ⊢
        split
        · rfl
        · exact bound
      | _ => exact member.2
    · rw [Finset.mem_filter]
      exact ⟨inTerms, by simp [isBound]⟩
    · rw [Finset.mem_filter]
      simp [isBound, unbound]

/-- No fewer variables are bound after many steps, and as many only after none. -/
theorem Gains.countBound_le (gains : given.Gains terms last) :
    given.countBound terms ≤ last.countBound terms ∧
      (given.countBound terms = last.countBound terms → given = last) := by
  induction gains with
  | refl => exact ⟨Nat.le_refl _, fun _ => rfl⟩
  | tail _ binds ih =>
    have less := Nat.lt_of_le_of_lt ih.1 binds.countBound_lt
    exact ⟨Nat.le_of_lt less, fun equal => absurd equal (Nat.ne_of_lt less)⟩

end Bindings

namespace SearchPlace

variable {place : SearchPlace} {terms : Finset Term} {depth other : Nat}

/-- The search from a place ends within one more than some depth, and not within that. -/
def Needs (place : SearchPlace) (depth : Nat) : Prop :=
  (unifyWithin (depth + 1) place.left place.right place.given).isFinished ∧
    ¬ (unifyWithin depth place.left place.right place.given).isFinished

/-- All terms at a place are among some terms, and its bindings have no loops. -/
structure Inside (place : SearchPlace) (terms : Finset Term) : Prop where
  /-- The left term is. -/
  left : place.left ∈ terms
  /-- The right term is. -/
  right : place.right ∈ terms
  /-- The bound terms are. -/
  within : place.given.Within terms
  /-- The bindings have no loops. -/
  loopFree : place.given.LoopFree

/-- What tells the places on one way apart: the two terms and the number of bound variables. -/
def key (place : SearchPlace) (terms : Finset Term) : Term × Term × Nat :=
  (place.left, place.right, place.given.countBound terms)

/-- On one way down, places with the same key are the same, as no variable has been bound between
them. -/
theorem eq_of_key_eq {passed : SearchPlace} (gains : place.given.Gains terms passed.given)
    (sameKey : passed.key terms = place.key terms) : passed = place := by
  obtain ⟨sameLeft, sameRight, sameCount⟩ :
      passed.left = place.left ∧ passed.right = place.right ∧
        passed.given.countBound terms = place.given.countBound terms := by
    simpa [key] using sameKey
  have sameGiven : place.given = passed.given :=
    (Bindings.Gains.countBound_le gains).2 sameCount.symm
  cases passed
  cases place
  simp_all

/-- A place needs one depth only. -/
theorem Needs.unique (needs : place.Needs depth) (needsOther : place.Needs other) :
    depth = other := by
  have notLess {low high : Nat} (needsLow : place.Needs low) (needsHigh : place.Needs high) :
      ¬ low < high := by
    intro less
    apply needsHigh.2
    rw [unifyWithin_of_isFinished needsLow.1 less]
    exact needsLow.1
  exact Nat.le_antisymm (Nat.le_of_not_lt (notLess needsOther needs))
    (Nat.le_of_not_lt (notLess needs needsOther))

/-- A search that ends within some depth needs one that is less. -/
theorem exists_needs
    (finished : (unifyWithin depth place.left place.right place.given).isFinished) :
    ∃ less < depth, place.Needs less := by
  induction depth with
  | zero => cases finished
  | succ depth ih =>
    by_cases earlier : (unifyWithin depth place.left place.right place.given).isFinished
    · obtain ⟨less, lt, needs⟩ := ih earlier
      exact ⟨less, Nat.lt_succ_of_lt lt, needs⟩
    · exact ⟨depth, Nat.lt_succ_self depth, finished, earlier⟩

end SearchPlace

section

variable {terms : Finset Term} {depth : Nat} {lefts rights : List Term} {given : Bindings}
  {place : SearchPlace}

/-- When pairs of terms need some depth, the search comes to a pair that does. -/
theorem exists_needs_of_unifyPairs (holds : HoldsItems terms)
    (leftsMember : ∀ left ∈ lefts, left ∈ terms) (rightsMember : ∀ right ∈ rights, right ∈ terms)
    (within : given.Within terms) (loopFree : given.LoopFree)
    (finished : (unifyPairs (unifyWithin (depth + 1)) lefts rights given).isFinished)
    (unfinished : ¬ (unifyPairs (unifyWithin depth) lefts rights given).isFinished) :
    ∃ next : SearchPlace, next.Needs depth ∧ next.Inside terms ∧ given.Gains terms next.given := by
  induction lefts generalizing rights given with
  | nil => cases rights <;> exact absurd rfl unfinished
  | cons left lefts ih =>
    cases rights with
    | nil => exact absurd rfl unfinished
    | cons right rights =>
      obtain ⟨leftMember, leftsMember⟩ := List.forall_mem_cons.mp leftsMember
      obtain ⟨rightMember, rightsMember⟩ := List.forall_mem_cons.mp rightsMember
      rw [unifyPairs] at finished unfinished
      cases first : unifyWithin depth left right given with
      | unified middle =>
        -- The first pair has ended within the smaller depth: the place comes later.
        have same := unifyWithin_of_isFinished (by rw [first]; rfl) (Nat.le_succ depth)
        have run : UnifiesTo left right given (some middle) :=
          unifiesTo_of_unifyWithin loopFree first
        have gains := run.gains holds leftMember rightMember within
        rw [first] at unfinished
        rw [same, first] at finished
        obtain ⟨next, needs, inside, more⟩ := ih leftsMember rightsMember (gains.within within)
          (gains.loopFree loopFree) finished unfinished
        exact ⟨next, needs, inside, gains.trans more⟩
      | clash =>
        rw [first] at unfinished
        exact absurd rfl unfinished
      | unfinished =>
        have ends : (unifyWithin (depth + 1) left right given).isFinished := by
          cases next : unifyWithin (depth + 1) left right given with
          | unfinished =>
            rw [next] at finished
            cases finished
          | _ => rfl
        exact ⟨⟨left, right, given⟩, ⟨ends, by simp [first, Unification.isFinished]⟩,
          ⟨leftMember, rightMember, within, loopFree⟩, .refl⟩

/-- A search that needs more than one depth comes to a place that needs one less. -/
theorem SearchPlace.Needs.next (needs : place.Needs (depth + 1)) (inside : place.Inside terms)
    (holds : HoldsItems terms) :
    ∃ next : SearchPlace, next.Needs depth ∧ next.Inside terms ∧
      place.given.Gains terms next.given := by
  obtain ⟨finished, unfinished⟩ := needs
  rcases unifyWithin_step place.left place.right place.given with
    ⟨outcome, ends, -⟩ | ⟨lefts, rights, ofLeft, ofRight, -, goesOn⟩
  · rw [ends] at unfinished
    exact absurd (Unification.isFinished_iff.mpr ⟨outcome, rfl⟩) unfinished
  · rw [goesOn] at finished unfinished
    have leftMember := inside.within.mem_of_resolvesTo inside.left
      (inside.loopFree.resolvesTo_iff.mpr ofLeft)
    have rightMember := inside.within.mem_of_resolvesTo inside.right
      (inside.loopFree.resolvesTo_iff.mpr ofRight)
    exact exists_needs_of_unifyPairs holds (holds lefts leftMember) (holds rights rightMember)
      inside.within inside.loopFree finished unfinished

/-- **A search that needs some depth comes to as many places, all of them different.** On its way
down the bindings only grow, and each place needs one depth less than the one before. -/
theorem SearchPlace.Needs.exists_way (needs : place.Needs depth) (inside : place.Inside terms)
    (holds : HoldsItems terms) :
    ∃ way : List SearchPlace, way.length = depth + 1 ∧ (way.map (·.key terms)).Nodup ∧
      ∀ passed ∈ way, passed.Inside terms ∧ place.given.Gains terms passed.given ∧
        ∃ less ≤ depth, passed.Needs less := by
  induction depth generalizing place with
  | zero =>
    exact ⟨[place], rfl, List.nodup_singleton _,
      List.forall_mem_singleton.mpr ⟨inside, .refl, 0, Nat.le_refl 0, needs⟩⟩
  | succ depth ih =>
    obtain ⟨next, needsNext, insideNext, toNext⟩ := needs.next inside holds
    obtain ⟨way, length, nodup, passes⟩ := ih needsNext insideNext
    refine ⟨place :: way, by rw [List.length_cons, length], ?_, ?_⟩
    · rw [List.map_cons, List.nodup_cons]
      refine ⟨fun repeated => ?_, nodup⟩
      obtain ⟨passed, inWay, sameKey⟩ := List.mem_map.mp repeated
      obtain ⟨-, toPassed, less, le, needsLess⟩ := passes passed inWay
      have same : passed = place := eq_of_key_eq (toNext.trans toPassed) sameKey
      -- The same place cannot need the depth here and a smaller one further down.
      rw [same] at needsLess
      have equal := needsLess.unique needs
      omega
    · refine List.forall_mem_cons.mpr ⟨⟨inside, .refl, depth + 1, Nat.le_refl _, needs⟩, ?_⟩
      intro passed inWay
      obtain ⟨insidePassed, toPassed, less, le, needsLess⟩ := passes passed inWay
      exact ⟨insidePassed, toNext.trans toPassed, less, Nat.le_succ_of_le le, needsLess⟩

/-- A search needs no more depth than there are pairs of terms and numbers of bound variables. -/
theorem SearchPlace.Needs.lt_card (needs : place.Needs depth) (inside : place.Inside terms)
    (holds : HoldsItems terms) : depth < terms.card * (terms.card * (terms.card + 1)) := by
  -- The keys of the places on the way are all different, and there are only so many keys.
  obtain ⟨way, length, nodup, passes⟩ := needs.exists_way inside holds
  have isKey : (way.map (·.key terms)).toFinset ⊆
      terms ×ˢ terms ×ˢ Finset.range (terms.card + 1) := by
    intro key member
    obtain ⟨passed, inWay, rfl⟩ := List.mem_map.mp (List.mem_toFinset.mp member)
    obtain ⟨insidePassed, -⟩ := passes passed inWay
    have count : passed.given.countBound terms ≤ terms.card :=
      Finset.card_le_card (Finset.filter_subset _ terms)
    simpa [SearchPlace.key, insidePassed.left, insidePassed.right] using Nat.lt_succ_of_le count
  calc depth < way.length := by omega
    _ = (way.map (·.key terms)).toFinset.card := by
      rw [List.toFinset_card_of_nodup nodup, List.length_map]
    _ ≤ (terms ×ˢ terms ×ˢ Finset.range (terms.card + 1)).card := Finset.card_le_card isKey
    _ = terms.card * (terms.card * (terms.card + 1)) := by
      rw [Finset.card_product, Finset.card_product, Finset.card_range]

end

/-! ## The terms that a search can come to -/

namespace Term

mutual

/-- The term and the terms inside it. -/
def subterms : Term → List Term
  | .list items => .list items :: itemSubterms items
  | term => [term]

/-- The terms and those inside them. -/
def itemSubterms : List Term → List Term
  | [] => []
  | item :: items => item.subterms ++ itemSubterms items

end

/-- The terms inside a list are those that its items hold. -/
theorem itemSubterms_eq_flatMap (items : List Term) :
    itemSubterms items = items.flatMap subterms := by
  induction items with
  | nil => rfl
  | cons item items ih => simp [itemSubterms, ih]

/-- A term is one of its subterms. -/
@[simp] theorem self_mem_subterms (term : Term) : term ∈ term.subterms := by
  cases term <;> simp [subterms]

/-- There are as many subterms as the size says. -/
@[simp] theorem length_subterms (term : Term) : term.subterms.length = term.size := by
  induction term with
  | atom constant => rfl
  | var name => rfl
  | list items ih =>
    have lengths : (itemSubterms items).length = itemsSize items := by
      induction items with
      | nil => rfl
      | cons item items inner =>
        obtain ⟨ofItem, ofItems⟩ := List.forall_mem_cons.mp ih
        rw [itemSubterms, itemsSize, List.length_append, ofItem, inner ofItems]
    rw [subterms, size, List.length_cons, lengths]

/-- The items of a subterm are subterms. -/
theorem mem_subterms_of_item {term item : Term} {items : List Term}
    (inside : .list items ∈ term.subterms) (member : item ∈ items) : item ∈ term.subterms := by
  induction term with
  | atom constant => simp [subterms] at inside
  | var name => simp [subterms] at inside
  | list all ih =>
    rw [subterms, itemSubterms_eq_flatMap, List.mem_cons, List.mem_flatMap] at inside ⊢
    rcases inside with top | ⟨part, isPart, inPart⟩
    · cases top
      exact .inr ⟨item, member, item.self_mem_subterms⟩
    · exact .inr ⟨part, isPart, ih part isPart inPart⟩

end Term

/-- There are as many subterms of bound terms as the weight says. -/
theorem Bindings.length_flatMap_subterms (bindings : Bindings) :
    (bindings.toList.flatMap fun pair => pair.2.subterms).length = bindings.weight := by
  simp [weight, toList, Std.ExtTreeMap.foldl_eq_foldl_toList, List.length_flatMap,
    List.sum_eq_foldl, List.foldl_map]

/-- The terms that a search can come to: those inside the two terms and inside bound ones. -/
def searchedTerms (left right : Term) (given : Bindings) : Finset Term :=
  (left.subterms ++ (right.subterms ++ given.toList.flatMap fun pair => pair.2.subterms)).toFinset

section

variable {left right : Term} {lefts rights : List Term} {given result : Bindings}
  {outcome : Option Bindings}

/-- The searched terms are those. -/
theorem mem_searchedTerms {term : Term} : term ∈ searchedTerms left right given ↔
    term ∈ left.subterms ∨ term ∈ right.subterms ∨
      ∃ name value, given.get? name = some value ∧ term ∈ value.subterms := by
  simp [searchedTerms, Bindings.mem_toList]

/-- There are no more of them than the sizes say. -/
theorem card_searchedTerms_le :
    (searchedTerms left right given).card ≤ left.size + right.size + given.weight := by
  refine (List.toFinset_card_le _).trans (Nat.le_of_eq ?_)
  simp [Bindings.length_flatMap_subterms, Nat.add_assoc, -List.length_flatMap]

/-- The items of searched terms are searched. -/
theorem holdsItems_searchedTerms : HoldsItems (searchedTerms left right given : Set Term) := by
  intro items isSearched item member
  rw [Finset.mem_coe, mem_searchedTerms] at isSearched ⊢
  rcases isSearched with inLeft | inRight | ⟨name, value, bound, inValue⟩
  · exact .inl (Term.mem_subterms_of_item inLeft member)
  · exact .inr (.inl (Term.mem_subterms_of_item inRight member))
  · exact .inr (.inr ⟨name, value, bound, Term.mem_subterms_of_item inValue member⟩)

/-- The start of a search is among the searched terms. -/
theorem SearchPlace.inside_searchedTerms (loopFree : given.LoopFree) :
    (SearchPlace.mk left right given).Inside (searchedTerms left right given) where
  left := by simp [mem_searchedTerms]
  right := by simp [mem_searchedTerms]
  within := fun name term bound => by
    rw [Finset.mem_coe, mem_searchedTerms]
    exact .inr (.inr ⟨name, term, bound, term.self_mem_subterms⟩)
  loopFree := loopFree

/-! ## Unification and its search -/

/-- **A search that ends does so within the depth that unification runs with.** -/
theorem UnifiesTo.unifyWithin_unificationDepth (run : UnifiesTo left right given outcome)
    (loopFree : given.LoopFree) :
    unifyWithin (unificationDepth left right given) left right given = .ofOption outcome := by
  -- Some depth is enough; the search needs no more than the bound, and has the same outcome there.
  obtain ⟨enough, ended⟩ := run.exists_depth loopFree
  obtain ⟨depth, less, needs⟩ : ∃ depth < enough, (SearchPlace.mk left right given).Needs depth :=
    SearchPlace.exists_needs (Unification.isFinished_iff.mpr ⟨outcome, ended⟩)
  have fits : depth + 1 ≤ unificationDepth left right given := by
    have le : (searchedTerms left right given).card ≤ left.size + right.size + given.weight :=
      card_searchedTerms_le
    have inside : (SearchPlace.mk left right given).Inside (searchedTerms left right given) :=
      SearchPlace.inside_searchedTerms loopFree
    calc depth + 1 ≤ _ := needs.lt_card inside holdsItems_searchedTerms
      _ ≤ _ := Nat.mul_le_mul (Nat.le_succ_of_le le)
        (Nat.mul_le_mul (Nat.le_succ_of_le le) (Nat.succ_le_succ le))
      _ = unificationDepth left right given := (Nat.mul_assoc ..).symm
  calc unifyWithin (unificationDepth left right given) left right given
    _ = unifyWithin (depth + 1) left right given := unifyWithin_of_isFinished needs.1 fits
    _ = unifyWithin enough left right given := (unifyWithin_of_isFinished needs.1 less).symm
    _ = .ofOption outcome := ended

/-- **Unification finds what the search without a bound ends with.** -/
theorem UnifiesTo.unify_eq (run : UnifiesTo left right given outcome) (loopFree : given.LoopFree) :
    unify left right given = outcome := by
  rw [unify, run.unifyWithin_unificationDepth loopFree, Unification.bindings?_ofOption]

/-- Unifying pair by pair does so as well. -/
theorem UnifyAllTo.unifyAll_eq (run : UnifyAllTo lefts rights given outcome)
    (loopFree : given.LoopFree) : unifyAll lefts rights given = outcome := by
  induction run with
  | differ lengths =>
    refine Option.eq_none_iff_forall_ne_some.mpr fun result unified => lengths ?_
    exact (forall₂_compatible_of_unifyAll unified).length_eq
  | nil => rfl
  | cons _ first _ ih =>
    rw [unifyAll, first.unify_eq loopFree, Option.bind_some]
    exact ih (first.loopFree loopFree)
  | fail _ first =>
    rw [unifyAll, first.unify_eq loopFree, Option.bind_none]

/-- Bindings that unification finds end a search without a bound. -/
theorem unifiesTo_of_unify (loopFree : given.LoopFree) (unified : unify left right given = result) :
    UnifiesTo left right given (some result) :=
  unifiesTo_of_unifyWithin loopFree (unify_eq_some_iff.mp unified)

/-- So do those that it finds pair by pair. -/
theorem unifyAllTo_of_unifyAll (loopFree : given.LoopFree)
    (unified : unifyAll lefts rights given = result) :
    UnifyAllTo lefts rights given (some result) := by
  induction lefts generalizing rights given with
  | nil =>
    cases rights with
    | nil =>
      cases unified
      exact .nil result
    | cons right rights => cases unified
  | cons left lefts ih =>
    cases rights with
    | nil => cases unified
    | cons right rights =>
      rw [unifyAll, Option.bind_eq_some_iff] at unified
      obtain ⟨middle, first, rest⟩ := unified
      have run : UnifiesTo left right given (some middle) := unifiesTo_of_unify loopFree first
      exact .cons (forall₂_compatible_of_unifyAll rest).length_eq run
        (ih (run.loopFree loopFree) rest)

end

end ForwardChaining
