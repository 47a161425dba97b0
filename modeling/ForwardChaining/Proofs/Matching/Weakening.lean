import ForwardChaining.Proofs.Matching.Compatibility
import ForwardChaining.Proofs.Matching.Solutions

/-! # Fewer bindings

The more is bound beforehand, the fewer terms unify: where a search succeeds, it also succeeds under
fewer bindings (`UnifiesTo.weaken`).

As there is no occurs check, terms may unfold to infinite trees, so this cannot be shown through
solutions. Instead, two terms are united by bindings when the trees that they unfold to are the same
down to every depth (`Bindings.Unites`). A search that succeeds unites its terms. Under other
bindings that claim no more than has been united before, a search then goes the same way, or stops
earlier at a variable that is not bound yet; it neither clashes nor goes round for ever. -/

namespace ForwardChaining

namespace Term

/-- Two terms are the same, or both are lists with related items. -/
inductive SameTop (Related : Term → Term → Prop) : (term other : Term) → Prop where
  /-- The same term. -/
  | same (term : Term) : SameTop Related term term
  /-- Lists of related items. -/
  | list {items others : List Term} (each : List.Forall₂ Related items others) :
    SameTop Related (.list items) (.list others)

namespace SameTop

variable {Related : Term → Term → Prop} {term other third : Term}

/-- The tops are the same either way. -/
theorem symm (symmetric : ∀ {term other}, Related term other → Related other term)
    (top : SameTop Related term other) : SameTop Related other term := by
  cases top with
  | same => exact .same term
  | list each => exact .list (each.imp fun _ _ => symmetric).flip

/-- The tops that are the same as the same top are the same. -/
theorem trans (transitive : ∀ {term other third}, Related term other → Related other third →
      Related term third)
    (top : SameTop Related term other) (topToo : SameTop Related other third) :
    SameTop Related term third := by
  cases top with
  | same => exact topToo
  | list each =>
    cases topToo with
    | same => exact .list each
    | @list _ thirds eachToo =>
      refine .list ?_
      induction each generalizing thirds with
      | nil => exact eachToo
      | cons first _ ih =>
        obtain - | ⟨firstToo, restToo⟩ := eachToo
        exact .cons (transitive first firstToo) (ih restToo)

end SameTop

end Term

namespace Bindings

variable {bindings more given fewer : Bindings} {term other third result : Term} {name : String}
  {items others : List Term} {depth : Nat}

/-! ## Links -/

/-- A bound variable is one link away from its term. -/
def Link (bindings : Bindings) (term next : Term) : Prop :=
  ∃ name, term = .var name ∧ bindings.get? name = some next

/-- Some links, not always all that there are, lead from one term to another. -/
abbrev Reaches (bindings : Bindings) : (term next : Term) → Prop :=
  Relation.ReflTransGen bindings.Link

/-- A variable is bound to one term. -/
theorem rightUnique_link (bindings : Bindings) : Relator.RightUnique bindings.Link := by
  rintro term first second ⟨name, rfl, bound⟩ ⟨_, same, boundToo⟩
  cases same
  exact Option.some.inj (bound.symm.trans boundToo)

/-- From a term that is no variable, links lead nowhere else. -/
theorem Reaches.eq (reaches : bindings.Reaches term other) (noVariable : ∀ name, term ≠ .var name) :
    other = term := by
  rcases Relation.ReflTransGen.cases_head reaches with same | ⟨next, ⟨name, isVariable, -⟩, -⟩
  · exact same.symm
  · exact absurd isVariable (noVariable name)

/-- Links lead on to the end. -/
theorem Reaches.resolvesTo (reaches : bindings.Reaches term other)
    (rest : bindings.ResolvesTo other result) : bindings.ResolvesTo term result := by
  induction reaches using Relation.ReflTransGen.head_induction_on with
  | refl => exact rest
  | head link _ ih =>
    obtain ⟨name, rfl, bound⟩ := link
    exact .link bound ih

/-- What a term stands for is at the end of links. -/
theorem ResolvesTo.reaches (resolves : bindings.ResolvesTo term result) :
    bindings.Reaches term result := by
  induction resolves with
  | atom constant => exact .refl
  | list items => exact .refl
  | unbound unbound => exact .refl
  | link bound _ ih => exact .head ⟨_, rfl, bound⟩ ih

/-- More bindings keep the links. -/
theorem Reaches.extend (reaches : bindings.Reaches term other) (keeps : more.Extends bindings) :
    more.Reaches term other := by
  refine Relation.ReflTransGen.mono ?_ _ _ reaches
  rintro first second ⟨name, rfl, bound⟩
  exact ⟨name, rfl, keeps name second bound⟩

/-! ## Terms that unfold to the same tree -/

/-- Two terms unfold to trees that are the same down to a depth. -/
def SameUpTo (bindings : Bindings) : (depth : Nat) → (term other : Term) → Prop
  | 0, _, _ => True
  | depth + 1, term, other => ∃ first second, bindings.Reaches term first ∧
    bindings.Reaches other second ∧ first.SameTop (bindings.SameUpTo depth) second

/-- Two terms unfold to the same tree, which may be infinite. -/
def Unites (bindings : Bindings) (term other : Term) : Prop :=
  ∀ depth, bindings.SameUpTo depth term other

/-- Where links lead on from one of two terms with the same top, they do so from the other one. -/
theorem exists_reaches_sameTop {Related : Term → Term → Prop} (top : term.SameTop Related other)
    (onward : bindings.Reaches other third) :
    ∃ last, bindings.Reaches term last ∧ last.SameTop Related third := by
  cases top with
  | same => exact ⟨third, onward, .same third⟩
  | list each =>
    cases Reaches.eq onward nofun
    exact ⟨_, .refl, .list each⟩

/-- A term unfolds like itself. -/
theorem SameUpTo.refl (bindings : Bindings) (depth : Nat) (term : Term) :
    bindings.SameUpTo depth term term := by
  cases depth with
  | zero => trivial
  | succ depth => exact ⟨term, term, .refl, .refl, .same term⟩

/-- Two terms unfold alike either way. -/
theorem SameUpTo.symm (same : bindings.SameUpTo depth term other) :
    bindings.SameUpTo depth other term := by
  induction depth generalizing term other with
  | zero => trivial
  | succ depth ih =>
    obtain ⟨first, second, toFirst, toSecond, top⟩ := same
    exact ⟨second, first, toSecond, toFirst, top.symm ih⟩

/-- Terms that unfold like the same term unfold alike. -/
theorem SameUpTo.trans (same : bindings.SameUpTo depth term other)
    (sameToo : bindings.SameUpTo depth other third) : bindings.SameUpTo depth term third := by
  induction depth generalizing term other third with
  | zero => trivial
  | succ depth ih =>
    obtain ⟨first, second, toFirst, toSecond, top⟩ := same
    obtain ⟨next, last, toNext, toLast, topToo⟩ := sameToo
    -- The two places that the term in the middle reaches are on one way.
    rcases toSecond.total_of_right_unique bindings.rightUnique_link toNext with onward | onward
    · obtain ⟨onFirst, further, topThere⟩ := exists_reaches_sameTop top onward
      exact ⟨onFirst, last, toFirst.trans further, toLast, topThere.trans ih topToo⟩
    · obtain ⟨onLast, further, topThere⟩ :=
        exists_reaches_sameTop (topToo.symm SameUpTo.symm) onward
      exact ⟨first, onLast, toFirst, toLast.trans further,
        top.trans ih (topThere.symm SameUpTo.symm)⟩

/-- More bindings do not tell apart what fewer do not. -/
theorem SameUpTo.extend (same : bindings.SameUpTo depth term other)
    (keeps : more.Extends bindings) : more.SameUpTo depth term other := by
  induction depth generalizing term other with
  | zero => trivial
  | succ depth ih =>
    obtain ⟨first, second, toFirst, toSecond, top⟩ := same
    refine ⟨first, second, toFirst.extend keeps, toSecond.extend keeps, ?_⟩
    cases top with
    | same => exact .same first
    | list each => exact .list (each.imp fun _ _ => ih)

/-! ## Terms that are united -/

/-- A term that reaches another one is united with it. -/
theorem Reaches.unites (reaches : bindings.Reaches term other) : bindings.Unites term other := by
  rintro (_ | depth)
  · trivial
  · exact ⟨other, other, reaches, .refl, .same other⟩

/-- What a term stands for is united with it. -/
theorem ResolvesTo.unites (resolves : bindings.ResolvesTo term result) :
    bindings.Unites term result := resolves.reaches.unites

/-- A variable that gets bound to a term is united with it. -/
theorem unites_bind (bindings : Bindings) (name : String) (term : Term) :
    (bindings.bind name term).Unites (.var name) term :=
  Reaches.unites (.single ⟨name, rfl, by rw [get?_bind, if_pos rfl]⟩)

namespace Unites

/-- A term is united with itself. -/
theorem refl (bindings : Bindings) (term : Term) : bindings.Unites term term :=
  Reaches.unites .refl

/-- Two terms are united either way. -/
theorem symm (unites : bindings.Unites term other) : bindings.Unites other term :=
  fun depth => (unites depth).symm

/-- Terms that are united with the same term are united. -/
theorem trans (unites : bindings.Unites term other) (unitesToo : bindings.Unites other third) :
    bindings.Unites term third := fun depth => (unites depth).trans (unitesToo depth)

/-- More bindings unite what fewer do. -/
theorem extend (unites : bindings.Unites term other) (keeps : more.Extends bindings) :
    more.Unites term other := fun depth => (unites depth).extend keeps

/-- Lists with united items are united. -/
theorem list (each : List.Forall₂ bindings.Unites items others) :
    bindings.Unites (.list items) (.list others) := by
  rintro (_ | depth)
  · trivial
  · exact ⟨_, _, .refl, .refl, .list (each.imp fun _ _ unites => unites depth)⟩

/-- A term that is united with a list, and stands for something, stands for a list. -/
theorem exists_list (unites : bindings.Unites (.list items) other)
    (resolves : bindings.ResolvesTo other result) : ∃ others, result = .list others := by
  obtain ⟨first, second, toFirst, toSecond, top⟩ := unites 1
  cases Reaches.eq toFirst nofun
  cases top with
  | same => exact ⟨_, resolves.unique (toSecond.resolvesTo (.list _))⟩
  | list => exact ⟨_, resolves.unique (toSecond.resolvesTo (.list _))⟩

/-- Lists that are united have united items. -/
theorem forall₂ (unites : bindings.Unites (.list items) (.list others)) :
    List.Forall₂ bindings.Unites items others := by
  have atDepth (depth : Nat) : List.Forall₂ (bindings.SameUpTo depth) items others := by
    obtain ⟨first, second, toFirst, toSecond, top⟩ := unites (depth + 1)
    cases Reaches.eq toFirst nofun
    cases Reaches.eq toSecond nofun
    cases top with
    | same => exact List.forall₂_same.mpr fun item _ => SameUpTo.refl bindings depth item
    | list each => exact each
  rw [List.forall₂_iff_zip]
  exact ⟨(atDepth 0).length_eq,
    fun member depth => (List.forall₂_iff_zip.mp (atDepth depth)).2 member⟩

/-- Terms that clash are not united. -/
theorem not_clash (unites : bindings.Unites term other) : ¬ term.Clash other := by
  rintro (⟨different⟩ | ⟨constant, items⟩ | ⟨items, constant⟩)
  · obtain ⟨first, second, toFirst, toSecond, top⟩ := unites 1
    cases Reaches.eq toFirst nofun
    cases Reaches.eq toSecond nofun
    cases top
    exact different rfl
  · obtain ⟨_, isList⟩ := unites.symm.exists_list (.atom constant)
    cases isList
  · obtain ⟨_, isList⟩ := unites.exists_list (.atom constant)
    cases isList

end Unites

/-! ## Bindings that claim no more -/

/-- Bindings unite each variable that others bind with its term. -/
def Confirms (given fewer : Bindings) : Prop :=
  ∀ name term, fewer.get? name = some term → given.Unites (.var name) term

/-- Bindings that keep others confirm them. -/
theorem Extends.confirms (keeps : given.Extends fewer) : given.Confirms fewer :=
  fun name term bound => Reaches.unites (.single ⟨name, rfl, keeps name term bound⟩)

/-- More bindings confirm what fewer do. -/
theorem Confirms.extend (confirms : given.Confirms fewer) (keeps : more.Extends given) :
    more.Confirms fewer := fun name term bound => (confirms name term bound).extend keeps

/-- What a term stands for under confirmed bindings is united with it. -/
theorem Confirms.unites (confirms : given.Confirms fewer)
    (resolves : fewer.ResolvesTo term result) : given.Unites term result := by
  induction resolves with
  | atom constant => exact .refl given _
  | list items => exact .refl given _
  | unbound unbound => exact .refl given _
  | link bound _ ih => exact (confirms _ _ bound).trans ih

/-- One more binding of united terms is confirmed as well. -/
theorem Confirms.bind (confirms : given.Confirms fewer) (unites : given.Unites (.var name) term) :
    given.Confirms (fewer.bind name term) := by
  intro other value bound
  rw [get?_bind] at bound
  split at bound
  · next same =>
    cases bound
    exact same ▸ unites
  · exact confirms other value bound

end Bindings

section

variable {given fewer result : Bindings} {left right : Term} {lefts rights : List Term}
  {outcome : Option Bindings}

/-! ## A search unites its terms -/

/-- Pairs of searches that unite their terms only add bindings, and unite all of them. -/
theorem PairsUnifyTo.forall₂_unites {Run : Term → Term → Bindings → Option Bindings → Prop}
    (each : ∀ {left right given result}, Run left right given (some result) →
      result.Extends given ∧ result.Unites left right)
    (pairs : PairsUnifyTo Run lefts rights given (some result)) :
    result.Extends given ∧ List.Forall₂ result.Unites lefts rights := by
  generalize equal : some result = outcome at pairs
  induction pairs with
  | differ => cases equal
  | nil =>
    cases equal
    exact ⟨.refl _, .nil⟩
  | cons _ first _ ih =>
    obtain ⟨keepsRest, others⟩ := ih equal
    obtain ⟨keeps, unites⟩ := each first
    exact ⟨keepsRest.trans keeps, .cons (unites.extend keepsRest) others⟩
  | fail => cases equal

/-- **A search that succeeds unites the two terms.** -/
theorem UnifiesTo.unites (run : UnifiesTo left right given (some result)) :
    result.Unites left right := by
  generalize equal : some result = outcome at run
  induction run generalizing result with
  | same ofLeft ofRight =>
    cases equal
    exact ofLeft.unites.trans ofRight.unites.symm
  | @bindLeft _ _ term given name ofLeft ofRight =>
    cases equal
    have keeps := Bindings.extends_bind_of_unbound ofLeft.get?_eq_none term
    exact (ofLeft.unites.extend keeps).trans
      ((Bindings.unites_bind given name term).trans (ofRight.unites.extend keeps).symm)
  | @bindRight _ _ term given name ofLeft ofRight =>
    cases equal
    have keeps := Bindings.extends_bind_of_unbound ofRight.get?_eq_none term
    exact (ofLeft.unites.extend keeps).trans
      ((Bindings.unites_bind given name term).symm.trans (ofRight.unites.extend keeps).symm)
  | clash => cases equal
  | lists ofLeft ofRight _ pairs =>
    cases equal
    obtain ⟨keeps, each⟩ := pairs.forall₂_unites
      fun ⟨run, ih⟩ => ⟨run.gains_univ.extends, ih rfl⟩
    exact (ofLeft.unites.extend keeps).trans
      ((Bindings.Unites.list each).trans (ofRight.unites.extend keeps).symm)

/-! ## A search under fewer bindings -/

/-- A search also succeeds under bindings that are confirmed, from terms that are united with its
own, if it does so once both terms stand for lists there. -/
theorem UnifiesTo.exists_weaker {twin copy : Term}
    (run : UnifiesTo left right given (some result)) (loopFree : fewer.LoopFree)
    (confirms : given.Confirms fewer) (leftTwin : given.Unites twin left)
    (rightTwin : given.Unites copy right)
    (ofLists : ∀ twins copies, given.Unites (.list twins) left → given.Unites (.list copies) right →
      ∃ weaker, UnifyAllTo twins copies fewer (some weaker) ∧ result.Confirms weaker) :
    ∃ weaker, UnifiesTo twin copy fewer (some weaker) ∧ result.Confirms weaker := by
  have keeps := run.gains_univ.extends
  have ofTwin := loopFree.resolvesTo twin
  have ofCopy := loopFree.resolvesTo copy
  have twinEnd := (confirms.unites ofTwin).symm.trans leftTwin
  have copyEnd := (confirms.unites ofCopy).symm.trans rightTwin
  -- What the twins stand for is united with the terms, and so with one another.
  have unites : result.Unites (fewer.resolve twin) (fewer.resolve copy) :=
    (twinEnd.extend keeps).trans (run.unites.trans (copyEnd.extend keeps).symm)
  have confirmsToo := confirms.extend keeps
  have meets := Term.meets (fewer.resolve twin) (fewer.resolve copy)
  generalize fewer.resolve twin = first, fewer.resolve copy = second at *
  -- The weaker search goes by what the twins stand for. It may stop earlier than the run, but goes
  -- on where the run does not only if both stand for lists.
  cases meets with
  | same notList => exact ⟨fewer, .same ofTwin ofCopy notList, confirmsToo⟩
  | bindLeft different => exact ⟨_, .bindLeft ofTwin ofCopy different, confirmsToo.bind unites⟩
  | bindRight noVariable =>
    exact ⟨_, .bindRight ofTwin ofCopy noVariable, confirmsToo.bind unites.symm⟩
  | clash clash => exact absurd clash unites.not_clash
  | lists twins copies =>
    obtain ⟨weaker, pairs, confirmed⟩ := ofLists twins copies twinEnd copyEnd
    exact ⟨weaker, .lists ofTwin ofCopy pairs, confirmed⟩

/-- When each search has a weaker one, so have pairs of them. -/
theorem PairsUnifyTo.exists_weaker {Run : Term → Term → Bindings → Option Bindings → Prop}
    {twins copies : List Term}
    (each : ∀ {left right given result}, Run left right given (some result) →
      result.Extends given ∧ ∀ {twin copy fewer}, fewer.LoopFree → given.Confirms fewer →
        given.Unites twin left → given.Unites copy right →
        ∃ weaker, UnifiesTo twin copy fewer (some weaker) ∧ result.Confirms weaker)
    (pairs : PairsUnifyTo Run lefts rights given (some result)) (loopFree : fewer.LoopFree)
    (confirms : given.Confirms fewer) (leftTwins : List.Forall₂ given.Unites twins lefts)
    (rightTwins : List.Forall₂ given.Unites copies rights) :
    ∃ weaker, UnifyAllTo twins copies fewer (some weaker) ∧ result.Confirms weaker := by
  generalize equal : some result = outcome at pairs
  induction pairs generalizing fewer twins copies with
  | differ => cases equal
  | nil =>
    cases equal
    cases leftTwins
    cases rightTwins
    exact ⟨fewer, .nil fewer, confirms⟩
  | cons lengths first _ ih =>
    obtain - | ⟨leftTwin, leftTwins⟩ := leftTwins
    obtain - | ⟨rightTwin, rightTwins⟩ := rightTwins
    obtain ⟨keeps, ofFirst⟩ := each first
    obtain ⟨middle, firstToo, confirms⟩ := ofFirst loopFree confirms leftTwin rightTwin
    -- The first search only adds bindings, so the other items are still united with their twins.
    obtain ⟨weaker, restToo, confirmed⟩ := ih (firstToo.loopFree loopFree) confirms
      (leftTwins.imp fun _ _ unites => unites.extend keeps)
      (rightTwins.imp fun _ _ unites => unites.extend keeps) equal
    have lengthsToo := leftTwins.length_eq.trans (lengths.trans rightTwins.length_eq.symm)
    exact ⟨weaker, .cons lengthsToo firstToo restToo, confirmed⟩
  | fail => cases equal

/-- **A search also succeeds under bindings that are confirmed**, from terms that are united with
its own. -/
theorem UnifiesTo.weaken_of_confirms {twin copy : Term}
    (run : UnifiesTo left right given (some result)) (loopFree : fewer.LoopFree)
    (confirms : given.Confirms fewer) (leftTwin : given.Unites twin left)
    (rightTwin : given.Unites copy right) :
    ∃ weaker, UnifiesTo twin copy fewer (some weaker) ∧ result.Confirms weaker := by
  generalize equal : some result = outcome at run
  -- Where the run ends without lists, its twins cannot both stand for lists.
  induction run generalizing result fewer twin copy with
  | same ofLeft ofRight notList =>
    refine exists_weaker (equal ▸ .same ofLeft ofRight notList) loopFree confirms leftTwin rightTwin
      fun twins _ unites _ => ?_
    obtain ⟨_, rfl⟩ := unites.exists_list ofLeft
    cases notList
  | bindLeft ofLeft ofRight different =>
    refine exists_weaker (equal ▸ .bindLeft ofLeft ofRight different) loopFree confirms leftTwin
      rightTwin fun twins _ unites _ => ?_
    obtain ⟨_, isList⟩ := unites.exists_list ofLeft
    cases isList
  | bindRight ofLeft ofRight noVariable =>
    refine exists_weaker (equal ▸ .bindRight ofLeft ofRight noVariable) loopFree confirms leftTwin
      rightTwin fun _ copies _ unites => ?_
    obtain ⟨_, isList⟩ := unites.exists_list ofRight
    cases isList
  | clash => cases equal
  | lists ofLeft ofRight run pairs =>
    refine exists_weaker (equal ▸ .lists ofLeft ofRight run) loopFree confirms leftTwin rightTwin
      fun twins copies leftUnites rightUnites => ?_
    subst equal
    exact pairs.exists_weaker (fun ⟨run, ih⟩ => ⟨run.gains_univ.extends,
        fun loopFree confirms leftTwin rightTwin => ih loopFree confirms leftTwin rightTwin rfl⟩)
      loopFree confirms (leftUnites.trans ofLeft.unites).forall₂
      (rightUnites.trans ofRight.unites).forall₂

/-- **Fewer bindings never lose a match.** -/
theorem UnifiesTo.weaken (run : UnifiesTo left right given (some result))
    (keeps : given.Extends fewer) (loopFree : fewer.LoopFree) :
    ∃ weaker, UnifiesTo left right fewer (some weaker) := by
  obtain ⟨weaker, run, -⟩ := run.weaken_of_confirms loopFree keeps.confirms (.refl given left)
    (.refl given right)
  exact ⟨weaker, run⟩

end

/-! ## Signatures and bindings -/

/-- **Signatures are a sound filter for unification.** Terms that unify have compatible signatures,
whatever is bound beforehand and wherever they hold variables, and they unify as well when nothing
is bound: bindings only remove matches. Which of two signatures comes first does not matter. -/
theorem Signature.compatible_of_match (left right : Term) :
    (∀ given result, UnifiesTo left right given (some result) →
      (Signature.of left).compatible (Signature.of right) ∧
        ∃ weaker, UnifiesTo left right ∅ (some weaker) ∧ unify left right ∅ = some weaker) ∧
    (∀ given result, unify left right given = some result →
      (Signature.of left).compatible (Signature.of right)) ∧
    ∀ first second : Signature, first.compatible second = second.compatible first := by
  refine ⟨fun given result run => ?_, fun given result unified => compatible_of_unify unified,
    compatible_comm⟩
  have nothing : given.Extends ∅ := fun name term bound => by simp at bound
  have loopFree : (∅ : Bindings).LoopFree := Bindings.acyclic_empty.loopFree
  obtain ⟨weaker, run⟩ := run.weaken nothing loopFree
  have unified := run.unify_eq loopFree
  exact ⟨compatible_of_unify unified, weaker, run, unified⟩

/-- Two lists that unify under the chain, through variables on both sides, and so without it; but no
longer when one of their variables is bound to something else. -/
theorem Signature.compatible_of_match_chain :
    let constant : Term := .atom (.symbol "a")
    let left : Term := .list [.var "?list", constant, .list [.var "?u", .var "?list"]]
    let right : Term := .list [.list [.atom (.symbol "f"), .var "?w"], .var "?x",
      .list [.var "?w", .var "?v"]]
    let result := (((chain.bind "?x" (.var "?w")).bind "?w" constant).bind "?u" constant).bind "?v"
      (.list [.atom (.symbol "f"), .var "?xy"])
    UnifiesTo left right chain (some result) ∧
      (Signature.of left).compatible (Signature.of right) ∧
      (∃ weaker, UnifiesTo left right ∅ (some weaker) ∧ unify left right ∅ = some weaker) ∧
      unify left right (chain.bind "?x" (.atom (.symbol "b"))) = none := by
  intro constant left right result
  have unified : unify left right chain = some result := by decide +kernel
  have run := unifiesTo_of_unify acyclic_chain.loopFree unified
  obtain ⟨compatible, weaker⟩ := (compatible_of_match left right).1 chain result run
  exact ⟨run, compatible, weaker, by decide +kernel⟩

end ForwardChaining
