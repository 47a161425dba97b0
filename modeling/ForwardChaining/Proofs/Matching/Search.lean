import ForwardChaining.Proofs.Matching.LoopFree

/-! # Unification without a bound

The search for bindings that make two terms equal can go round for ever through cyclic bindings.
`UnifiesTo` describes it as a relation, without a bound on its depth: its derivations are the
searches that come to an end, with bindings or without.

A search that succeeds has only bound variables that were unbound, one after another, each to
another term that stands for itself (`UnifiesTo.gains`). From this single fact it follows that
nothing is overwritten, that no loop of variables comes about, and which variables are bound. -/

namespace ForwardChaining

/-! ## Searches that end -/

/-- Two terms that no bindings make equal, which shows at their tops. -/
inductive Term.Clash : (left right : Term) → Prop where
  /-- Different atoms. -/
  | atoms {constant other : Atom} (different : constant ≠ other) :
    Clash (.atom constant) (.atom other)
  /-- An atom and a list. -/
  | atomList (constant : Atom) (items : List Term) : Clash (.atom constant) (.list items)
  /-- A list and an atom. -/
  | listAtom (items : List Term) (constant : Atom) : Clash (.list items) (.atom constant)

/-- What a search does with two terms, as it shows at their tops: the five ways in which it can go
on are all there are. -/
inductive Term.Meets : (left right : Term) → Prop where
  /-- The same variable or the same atom. -/
  | same {term : Term} (notList : term.isList = false) : Meets term term
  /-- A variable on the left. -/
  | bindLeft {name : String} {term : Term} (different : term ≠ .var name) : Meets (.var name) term
  /-- A variable on the right only. -/
  | bindRight {name : String} {term : Term} (noVariable : ∀ other, term ≠ .var other) :
    Meets term (.var name)
  /-- Terms that clash. -/
  | clash {left right : Term} (clash : left.Clash right) : Meets left right
  /-- Two lists. -/
  | lists (lefts rights : List Term) : Meets (.list lefts) (.list rights)

/-- Any two terms meet in one of those ways. -/
theorem Term.meets (left right : Term) : left.Meets right := by
  cases left with
  | atom constant =>
    cases right with
    | atom other =>
      by_cases equal : constant = other
      · subst equal
        exact .same rfl
      · exact .clash (.atoms equal)
    | var name => exact .bindRight nofun
    | list items => exact .clash (.atomList constant items)
  | var name =>
    by_cases equal : right = .var name
    · subst equal
      exact .same rfl
    · exact .bindLeft equal
  | list items =>
    cases right with
    | atom other => exact .clash (.listAtom items other)
    | var name => exact .bindRight nofun
    | list others => exact .lists items others

/-- The terms of two lists run pair by pair, each pair under the bindings of those before it, up to
the first one that fails. Lists of different lengths fail at once. -/
inductive PairsUnifyTo (Run : Term → Term → Bindings → Option Bindings → Prop) :
    (lefts rights : List Term) → (given : Bindings) → (outcome : Option Bindings) → Prop where
  /-- The lengths are different. -/
  | differ {lefts rights : List Term} {given : Bindings} (lengths : lefts.length ≠ rights.length) :
    PairsUnifyTo Run lefts rights given none
  /-- No pair is left. -/
  | nil (given : Bindings) : PairsUnifyTo Run [] [] given (some given)
  /-- The first pair succeeds. -/
  | cons {left right : Term} {lefts rights : List Term} {given middle : Bindings}
    {outcome : Option Bindings} (lengths : lefts.length = rights.length)
    (first : Run left right given (some middle))
    (rest : PairsUnifyTo Run lefts rights middle outcome) :
    PairsUnifyTo Run (left :: lefts) (right :: rights) given outcome
  /-- The first pair fails. -/
  | fail {left right : Term} {lefts rights : List Term} {given : Bindings}
    (lengths : lefts.length = rights.length) (first : Run left right given none) :
    PairsUnifyTo Run (left :: lefts) (right :: rights) given none

/-- The search for bindings that make two terms equal ends with bindings or without. -/
inductive UnifiesTo :
    (left right : Term) → (given : Bindings) → (outcome : Option Bindings) → Prop where
  /-- Both stand for the same variable or the same atom. -/
  | same {left right term : Term} {given : Bindings} (ofLeft : given.ResolvesTo left term)
    (ofRight : given.ResolvesTo right term) (notList : term.isList = false) :
    UnifiesTo left right given (some given)
  /-- The left term stands for a variable, which is bound to what the right one stands for. -/
  | bindLeft {left right term : Term} {given : Bindings} {name : String}
    (ofLeft : given.ResolvesTo left (.var name)) (ofRight : given.ResolvesTo right term)
    (different : term ≠ .var name) : UnifiesTo left right given (some (given.bind name term))
  /-- Only the right term stands for a variable, which is bound to what the left one stands for. -/
  | bindRight {left right term : Term} {given : Bindings} {name : String}
    (ofLeft : given.ResolvesTo left term) (ofRight : given.ResolvesTo right (.var name))
    (noVariable : ∀ other, term ≠ .var other) :
    UnifiesTo left right given (some (given.bind name term))
  /-- The two stand for terms that clash. -/
  | clash {left right term other : Term} {given : Bindings} (ofLeft : given.ResolvesTo left term)
    (ofRight : given.ResolvesTo right other) (clash : term.Clash other) :
    UnifiesTo left right given none
  /-- Both stand for lists, whose items are made equal pair by pair. -/
  | lists {left right : Term} {lefts rights : List Term} {given : Bindings}
    {outcome : Option Bindings} (ofLeft : given.ResolvesTo left (.list lefts))
    (ofRight : given.ResolvesTo right (.list rights))
    (pairs : PairsUnifyTo UnifiesTo lefts rights given outcome) : UnifiesTo left right given outcome

/-- The search for bindings that make facts equal to clauses, pair by pair, ends. -/
abbrev UnifyAllTo : (facts clauses : List Term) → (given : Bindings) →
    (outcome : Option Bindings) → Prop := PairsUnifyTo UnifiesTo

/-- Lists of different lengths never run to an end with bindings. -/
theorem PairsUnifyTo.eq_none_of_length_ne
    {Run : Term → Term → Bindings → Option Bindings → Prop} {lefts rights : List Term}
    {given : Bindings} {outcome : Option Bindings}
    (pairs : PairsUnifyTo Run lefts rights given outcome)
    (lengths : lefts.length ≠ rights.length) : outcome = none := by
  cases pairs with
  | differ => rfl
  | nil => exact absurd rfl lengths
  | cons same => exact absurd (congrArg (· + 1) same) lengths
  | fail => rfl

/-- A property of searches that passes from the pairs of two lists to the lists, and holds of
searches without pairs, holds of every search that ends. -/
@[elab_as_elim, induction_eliminator]
theorem UnifiesTo.induct
    {motive : ∀ left right given outcome, UnifiesTo left right given outcome → Prop}
    (same : ∀ {left right term : Term} {given : Bindings} (ofLeft : given.ResolvesTo left term)
      (ofRight : given.ResolvesTo right term) (notList : term.isList = false),
      motive left right given (some given) (.same ofLeft ofRight notList))
    (bindLeft : ∀ {left right term : Term} {given : Bindings} {name : String}
      (ofLeft : given.ResolvesTo left (.var name)) (ofRight : given.ResolvesTo right term)
      (different : term ≠ .var name),
      motive left right given (some (given.bind name term)) (.bindLeft ofLeft ofRight different))
    (bindRight : ∀ {left right term : Term} {given : Bindings} {name : String}
      (ofLeft : given.ResolvesTo left term) (ofRight : given.ResolvesTo right (.var name))
      (noVariable : ∀ other, term ≠ .var other),
      motive left right given (some (given.bind name term)) (.bindRight ofLeft ofRight noVariable))
    (clash : ∀ {left right term other : Term} {given : Bindings}
      (ofLeft : given.ResolvesTo left term) (ofRight : given.ResolvesTo right other)
      (clash : term.Clash other), motive left right given none (.clash ofLeft ofRight clash))
    (lists : ∀ {left right : Term} {lefts rights : List Term} {given : Bindings}
      {outcome : Option Bindings} (ofLeft : given.ResolvesTo left (.list lefts))
      (ofRight : given.ResolvesTo right (.list rights))
      (pairs : PairsUnifyTo UnifiesTo lefts rights given outcome),
      PairsUnifyTo (fun left right given outcome =>
        ∃ run : UnifiesTo left right given outcome, motive left right given outcome run)
        lefts rights given outcome →
      motive left right given outcome (.lists ofLeft ofRight pairs))
    {left right : Term} {given : Bindings} {outcome : Option Bindings}
    (run : UnifiesTo left right given outcome) : motive left right given outcome run := by
  -- The recursor has a second motive, for pairs: that they run with the motive at each of them.
  let Pair (left right : Term) (given : Bindings) (outcome : Option Bindings) : Prop :=
    ∃ run : UnifiesTo left right given outcome, motive left right given outcome run
  refine @UnifiesTo.rec motive
    (fun lefts rights given outcome _ => PairsUnifyTo Pair lefts rights given outcome)
    same bindLeft bindRight clash lists ?_ ?_ ?_ ?_ left right given outcome run
  · exact fun lengths => .differ lengths
  · exact .nil
  · exact fun lengths first _ ofFirst rest => .cons lengths ⟨first, ofFirst⟩ rest
  · exact fun lengths first ofFirst => .fail lengths ⟨first, ofFirst⟩

/-! ## What a search binds -/

namespace Bindings

variable {terms : Set Term} {given next last : Bindings}

/-- The bound terms are among some terms. -/
def Within (given : Bindings) (terms : Set Term) : Prop :=
  ∀ name term, given.get? name = some term → term ∈ terms

/-- What a term stands for is among the terms that it and the bound terms are among. -/
theorem Within.mem_of_resolvesTo (within : given.Within terms) {term result : Term}
    (member : term ∈ terms) (resolves : given.ResolvesTo term result) : result ∈ terms := by
  induction resolves with
  | atom constant => exact member
  | list items => exact member
  | unbound unbound => exact member
  | link bound _ ih => exact ih (within _ _ bound)

/-- One more variable is bound, which was unbound, to another term that stands for itself. Both are
among some terms. -/
inductive Binds (terms : Set Term) : (given next : Bindings) → Prop where
  /-- The variable is bound to the term. -/
  | bind {given : Bindings} {name : String} {term : Term} (unbound : given.get? name = none)
    (resolved : given.ResolvesTo term term) (different : term ≠ .var name)
    (inTerms : Term.var name ∈ terms) (termInTerms : term ∈ terms) :
    Binds terms given (given.bind name term)

/-- Variables are bound one after another. -/
abbrev Gains (terms : Set Term) : (given last : Bindings) → Prop :=
  Relation.ReflTransGen (Binds terms)

/-- Nothing that was bound changes. -/
theorem Gains.extends (gains : given.Gains terms last) : last.Extends given := by
  induction gains with
  | refl => exact .refl given
  | tail _ binds ih =>
    cases binds with
    | bind unbound => exact (extends_bind_of_unbound unbound _).trans ih

/-- No loop comes about. -/
theorem Gains.loopFree (gains : given.Gains terms last) (loopFree : given.LoopFree) :
    last.LoopFree := by
  induction gains with
  | refl => exact loopFree
  | tail _ binds ih =>
    cases binds with
    | bind _ resolved different => exact ih.bind resolved different

/-- What is bound in addition is a variable among the terms, to one of the terms. -/
theorem Gains.get?_eq_some (gains : given.Gains terms last) {name : String} {term : Term}
    (bound : last.get? name = some term) :
    given.get? name = some term ∨ Term.var name ∈ terms ∧ term ∈ terms := by
  induction gains with
  | refl => exact .inl bound
  | tail _ binds ih =>
    cases binds with
    | bind _ _ _ inTerms termInTerms =>
      rw [get?_bind] at bound
      split at bound
      · next same =>
        cases bound
        exact .inr ⟨same ▸ inTerms, termInTerms⟩
      · exact ih bound

/-- The bound terms stay among the terms. -/
theorem Gains.within (gains : given.Gains terms last) (within : given.Within terms) :
    last.Within terms := by
  intro name term bound
  rcases gains.get?_eq_some bound with old | ⟨-, member⟩
  · exact within name term old
  · exact member

end Bindings

/-- Terms among which are the items of those that are lists. -/
def HoldsItems (terms : Set Term) : Prop :=
  ∀ items, Term.list items ∈ terms → ∀ item ∈ items, item ∈ terms

section

variable {terms : Set Term} {given result : Bindings} {left right : Term}
  {lefts rights : List Term} {outcome : Option Bindings}

/-- Pairs of terms bind variables one after another when each pair does. -/
theorem PairsUnifyTo.gains {Run : Term → Term → Bindings → Option Bindings → Prop}
    (each : ∀ {left right given result}, left ∈ terms → right ∈ terms → given.Within terms →
      Run left right given (some result) → given.Gains terms result)
    (leftsMember : ∀ left ∈ lefts, left ∈ terms) (rightsMember : ∀ right ∈ rights, right ∈ terms)
    (within : given.Within terms) (pairs : PairsUnifyTo Run lefts rights given (some result)) :
    given.Gains terms result := by
  generalize equal : some result = outcome at pairs
  induction pairs with
  | differ => cases equal
  | nil =>
    cases equal
    exact .refl
  | cons _ first _ ih =>
    obtain ⟨leftMember, leftsMember⟩ := List.forall_mem_cons.mp leftsMember
    obtain ⟨rightMember, rightsMember⟩ := List.forall_mem_cons.mp rightsMember
    have gains := each leftMember rightMember within first
    exact gains.trans (ih leftsMember rightsMember (gains.within within) equal)
  | fail => cases equal

/-- **A search that succeeds has bound unbound variables, one after another**, and has stayed among
the terms that it started from and their items. -/
theorem UnifiesTo.gains (run : UnifiesTo left right given (some result)) (holds : HoldsItems terms)
    (leftMember : left ∈ terms) (rightMember : right ∈ terms) (within : given.Within terms) :
    given.Gains terms result := by
  generalize equal : some result = outcome at run
  induction run generalizing result with
  | same =>
    cases equal
    exact .refl
  | bindLeft ofLeft ofRight different =>
    -- Both ends of links stand for themselves, so the variable was unbound.
    cases equal
    exact .single (.bind ofLeft.get?_eq_none ofRight.self different
      (within.mem_of_resolvesTo leftMember ofLeft) (within.mem_of_resolvesTo rightMember ofRight))
  | bindRight ofLeft ofRight noVariable =>
    cases equal
    exact .single (.bind ofRight.get?_eq_none ofLeft.self (noVariable _)
      (within.mem_of_resolvesTo rightMember ofRight) (within.mem_of_resolvesTo leftMember ofLeft))
  | clash => cases equal
  | lists ofLeft ofRight _ pairs =>
    cases equal
    exact pairs.gains
      (fun leftMember rightMember within ⟨_, ih⟩ => ih leftMember rightMember within rfl)
      (holds _ (within.mem_of_resolvesTo leftMember ofLeft))
      (holds _ (within.mem_of_resolvesTo rightMember ofRight)) within

/-- A search that succeeds, whatever the terms, binds unbound variables. -/
theorem UnifiesTo.gains_univ (run : UnifiesTo left right given (some result)) :
    given.Gains Set.univ result :=
  run.gains (fun _ _ _ _ => trivial) trivial trivial fun _ _ _ => trivial

/-- No loop comes about in a search. -/
theorem UnifiesTo.loopFree (run : UnifiesTo left right given (some result))
    (loopFree : given.LoopFree) : result.LoopFree := run.gains_univ.loopFree loopFree

/-- Nor does one come about from pair to pair. -/
theorem UnifyAllTo.loopFree (run : UnifyAllTo lefts rights given (some result))
    (loopFree : given.LoopFree) : result.LoopFree := by
  have gains : given.Gains Set.univ result :=
    run.gains (fun _ _ _ first => first.gains_univ) (fun _ _ => trivial) (fun _ _ => trivial)
      fun _ _ _ => trivial
  exact gains.loopFree loopFree

end

end ForwardChaining
