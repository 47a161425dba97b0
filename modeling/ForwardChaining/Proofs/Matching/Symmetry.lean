import ForwardChaining.Proofs.Matching.Solutions

/-! # Unification is symmetric

With the two terms exchanged, a search binds variable pairs the other way round, and from then on
works with other bindings. These are still alike: they are as many, and they equate the same terms
(`Bindings.Alike`). What a search does depends on nothing else, so the exchanged search ends when
the given one does, and both find bindings that are alike, or none (`UnifiesTo.swap`).

Hence both results have the same size and the same solutions. With a ground term there are no
variable pairs, and the results are equal (`unify_swap`). -/

namespace ForwardChaining

/-- Optional values are related by equality just when they are equal. -/
theorem option_rel_eq_iff {α : Type} {first second : Option α} :
    Option.Rel Eq first second ↔ first = second := by
  constructor
  · rintro (⟨rfl⟩ | _) <;> rfl
  · rintro rfl
    cases first with
    | none => exact .none
    | some value => exact .some rfl

namespace Bindings

variable {bindings first second third : Bindings} {left right term other : Term} {name : String}

/-! ## Terms that stand for the same -/

/-- Two terms stand for the same term. -/
def Equates (bindings : Bindings) (term other : Term) : Prop :=
  ∃ result, bindings.ResolvesTo term result ∧ bindings.ResolvesTo other result

/-- Two terms stand for the same term, or would if two more did. -/
def EquatesUpTo (bindings : Bindings) (left right term other : Term) : Prop :=
  bindings.Equates term other ∨ bindings.Equates term left ∧ bindings.Equates other right ∨
    bindings.Equates term right ∧ bindings.Equates other left

/-- Of the two more terms, none comes before the other. -/
theorem equatesUpTo_comm :
    bindings.EquatesUpTo left right term other ↔ bindings.EquatesUpTo right left term other :=
  or_congr_right or_comm

/-- To be equated with a term is to stand for the same as it. -/
theorem equates_iff_of_resolvesTo {result : Term} (resolves : bindings.ResolvesTo other result) :
    bindings.Equates term other ↔ bindings.ResolvesTo term result := by
  constructor
  · rintro ⟨common, ofTerm, ofOther⟩
    exact resolves.unique ofOther ▸ ofTerm
  · exact fun ofTerm => ⟨result, ofTerm, resolves⟩

/-- Where a variable gets bound, the terms that stood for it stand for its term, and all others for
the same as before. -/
theorem resolvesTo_bind (unbound : bindings.get? name = none)
    (resolved : bindings.ResolvesTo term term) (different : term ≠ .var name)
    {source result : Term} :
    (bindings.bind name term).ResolvesTo source result ↔
      bindings.ResolvesTo source (.var name) ∧ result = term ∨
        bindings.ResolvesTo source result ∧ result ≠ .var name := by
  have keeps : (bindings.bind name term).Extends bindings := extends_bind_of_unbound unbound term
  -- What stood for itself still does, except for the variable.
  have stays {result : Term} (self : bindings.ResolvesTo result result)
      (apart : result ≠ .var name) : (bindings.bind name term).ResolvesTo result result := by
    cases result with
    | atom constant => exact .atom constant
    | list items => exact .list items
    | var other =>
      have names : name ≠ other := fun same => apart (same ▸ rfl)
      exact .unbound (by rw [get?_bind, if_neg names, self.get?_eq_none])
  constructor
  · intro resolves
    induction resolves with
    | atom constant => exact .inr ⟨.atom constant, nofun⟩
    | list items => exact .inr ⟨.list items, nofun⟩
    | @unbound other free =>
      rw [get?_bind] at free
      split at free
      · cases free
      · next names => exact .inr ⟨.unbound free, fun same => names (Term.var.inj same).symm⟩
    | @link other value result bound _ ih =>
      rw [get?_bind] at bound
      split at bound
      · next same =>
        cases bound
        subst same
        rcases ih with ⟨toName, rfl⟩ | ⟨toResult, -⟩
        · exact absurd (resolved.unique toName) different
        · exact .inl ⟨.unbound unbound, toResult.unique resolved⟩
      · exact ih.imp (.imp_left (.link bound)) (.imp_left (.link bound))
  · rintro (⟨toName, rfl⟩ | ⟨toResult, apart⟩)
    · refine toName.extend keeps (.link (by rw [get?_bind, if_pos rfl]) ?_)
      exact stays resolved different
    · exact toResult.extend keeps (stays toResult.self apart)

/-- A binding equates what the terms on its two sides are equated with. -/
theorem equates_bind {source other : Term} (ofLeft : bindings.ResolvesTo left (.var name))
    (ofRight : bindings.ResolvesTo right term) (different : term ≠ .var name) :
    (bindings.bind name term).Equates source other ↔
      bindings.EquatesUpTo left right source other := by
  simp only [EquatesUpTo, equates_iff_of_resolvesTo ofLeft, equates_iff_of_resolvesTo ofRight]
  simp only [Equates, resolvesTo_bind ofLeft.get?_eq_none ofRight.self different]
  constructor
  · rintro ⟨result, ⟨sourceName, rfl⟩ | ⟨ofSource, -⟩, ⟨otherName, equal⟩ | ⟨ofOther, -⟩⟩
    · exact .inl ⟨_, sourceName, otherName⟩
    · exact .inr (.inl ⟨sourceName, ofOther⟩)
    · exact .inr (.inr ⟨equal ▸ ofSource, otherName⟩)
    · exact .inl ⟨result, ofSource, ofOther⟩
  · rintro (⟨result, ofSource, ofOther⟩ | ⟨sourceName, ofOther⟩ | ⟨ofSource, otherName⟩)
    · by_cases isName : result = .var name
      · exact ⟨term, .inl ⟨isName ▸ ofSource, rfl⟩, .inl ⟨isName ▸ ofOther, rfl⟩⟩
      · exact ⟨result, .inr ⟨ofSource, isName⟩, .inr ⟨ofOther, isName⟩⟩
    · exact ⟨term, .inl ⟨sourceName, rfl⟩, .inr ⟨ofOther, different⟩⟩
    · exact ⟨term, .inr ⟨ofSource, different⟩, .inl ⟨otherName, rfl⟩⟩

/-! ## Bindings that are alike -/

/-- Two bindings with equally many variables that equate the same terms. -/
structure Alike (first second : Bindings) : Prop where
  /-- They bind equally many variables. -/
  size_eq : first.size = second.size
  /-- They equate the same terms. -/
  equates_iff : ∀ term other, first.Equates term other ↔ second.Equates term other

namespace Alike

/-- Bindings are like themselves. -/
theorem refl (bindings : Bindings) : bindings.Alike bindings := ⟨rfl, fun _ _ => Iff.rfl⟩

/-- Bindings that are alike are so either way. -/
theorem symm (alike : first.Alike second) : second.Alike first :=
  ⟨alike.size_eq.symm, fun term other => (alike.equates_iff term other).symm⟩

/-- Bindings like those that are like others are like these. -/
theorem trans (alike : first.Alike second) (next : second.Alike third) : first.Alike third :=
  ⟨alike.size_eq.trans next.size_eq,
    fun term other => (alike.equates_iff term other).trans (next.equates_iff term other)⟩

/-- What a term stands for, unless it is a variable, it stands for under both. -/
theorem resolvesTo (alike : first.Alike second) (resolves : first.ResolvesTo term other)
    (noVariable : ∀ name, other ≠ .var name) : second.ResolvesTo term other := by
  have self (bindings : Bindings) : bindings.ResolvesTo other other := by
    cases other with
    | atom constant => exact .atom constant
    | list items => exact .list items
    | var name => exact absurd rfl (noVariable name)
  rw [← equates_iff_of_resolvesTo (self second), ← alike.equates_iff]
  exact ⟨other, resolves, self first⟩

/-- A term that stands for a variable does so under both, though maybe for another one. -/
theorem resolvesTo_var (alike : first.Alike second)
    (resolves : first.ResolvesTo term (.var name)) :
    ∃ twin, second.ResolvesTo term (.var twin) := by
  obtain ⟨result, ofTerm, -⟩ := (alike.equates_iff term term).mp ⟨_, resolves, resolves⟩
  by_contra noTwin
  -- Anything else than a variable would be what the term stands for under both.
  have noVariable (twin : String) : result ≠ .var twin := by
    rintro rfl
    exact noTwin ⟨twin, ofTerm⟩
  exact noVariable name ((alike.symm.resolvesTo ofTerm noVariable).unique resolves)

/-- Terms that stand for different ones do so under both. -/
theorem ne_of_ne (alike : first.Alike second) {value term twin copy : Term}
    (ofLeft : first.ResolvesTo left value) (ofRight : first.ResolvesTo right term)
    (different : term ≠ value) (leftTwin : second.ResolvesTo left twin)
    (rightTwin : second.ResolvesTo right copy) : copy ≠ twin := by
  rintro rfl
  obtain ⟨common, toLeft, toRight⟩ := (alike.equates_iff left right).mpr ⟨_, leftTwin, rightTwin⟩
  exact different ((ofRight.unique toRight).trans (toLeft.unique ofLeft))

/-- Bindings stay alike when what a term stands for gets bound to what another one stands for. -/
theorem bind (alike : first.Alike second) {twin : String} {copy : Term}
    (ofLeft : first.ResolvesTo left (.var name)) (ofRight : first.ResolvesTo right term)
    (different : term ≠ .var name) (leftTwin : second.ResolvesTo left (.var twin))
    (rightTwin : second.ResolvesTo right copy) :
    (first.bind name term).Alike (second.bind twin copy) where
  size_eq := by
    rw [size_bind_of_unbound term ofLeft.get?_eq_none,
      size_bind_of_unbound copy leftTwin.get?_eq_none, alike.size_eq]
  equates_iff source other := by
    have differentToo : copy ≠ .var twin :=
      alike.ne_of_ne ofLeft ofRight different leftTwin rightTwin
    rw [equates_bind ofLeft ofRight different, equates_bind leftTwin rightTwin differentToo]
    simp only [EquatesUpTo, alike.equates_iff]

end Alike

/-- Of two unbound variables, it makes no difference which one gets bound to the other. -/
theorem alike_bind_var {other : String} (unbound : bindings.get? name = none)
    (unboundToo : bindings.get? other = none) (different : name ≠ other) :
    (bindings.bind name (.var other)).Alike (bindings.bind other (.var name)) where
  size_eq := by rw [size_bind_of_unbound _ unbound, size_bind_of_unbound _ unboundToo]
  equates_iff source target := by
    have ofName : bindings.ResolvesTo (.var name) (.var name) := .unbound unbound
    have ofOther : bindings.ResolvesTo (.var other) (.var other) := .unbound unboundToo
    rw [equates_bind ofName ofOther (by simpa using different.symm),
      equates_bind ofOther ofName (by simpa using different)]
    exact equatesUpTo_comm

end Bindings

section

variable {given other result : Bindings} {left right : Term} {lefts rights : List Term}
  {outcome : Option Bindings}

/-! ## Exchanging the two terms -/

/-- Terms clash either way. -/
theorem Term.Clash.symm (clash : left.Clash right) : right.Clash left := by
  cases clash with
  | atoms different => exact .atoms (Ne.symm different)
  | atomList constant items => exact .listAtom items constant
  | listAtom items constant => exact .atomList constant items

/-- Terms that clash are no variables. -/
theorem Term.Clash.ne_var (clash : left.Clash right) (name : String) : left ≠ .var name := by
  cases clash <;> exact nofun

/-- When each search can be exchanged for one with related bindings, so can a search through
pairs. -/
theorem PairsUnifyTo.swap {Run Swapped : Term → Term → Bindings → Option Bindings → Prop}
    {Related : Bindings → Bindings → Prop}
    (each : ∀ left ∈ lefts, ∀ {right given outcome other}, Run left right given outcome →
      Related given other →
        ∃ swapped, Swapped right left other swapped ∧ Option.Rel Related outcome swapped)
    (pairs : PairsUnifyTo Run lefts rights given outcome) (related : Related given other) :
    ∃ swapped, PairsUnifyTo Swapped rights lefts other swapped ∧
      Option.Rel Related outcome swapped := by
  induction pairs generalizing other with
  | differ lengths => exact ⟨none, .differ (Ne.symm lengths), .none⟩
  | nil => exact ⟨_, .nil other, .some related⟩
  | cons lengths first _ ih =>
    obtain ⟨ofFirst, ofRest⟩ := List.forall_mem_cons.mp each
    obtain ⟨_, first, ⟨related⟩⟩ := ofFirst first related
    obtain ⟨swapped, rest, relatedToo⟩ := ih ofRest related
    exact ⟨swapped, .cons lengths.symm first rest, relatedToo⟩
  | fail lengths first =>
    obtain ⟨_, first, ⟨⟩⟩ := each _ List.mem_cons_self first related
    exact ⟨none, .fail lengths.symm first, .none⟩

/-- **The exchanged search ends with bindings that are alike**, or with none as well, under any
bindings that are like those given. -/
theorem UnifiesTo.swap (run : UnifiesTo left right given outcome) (alike : given.Alike other) :
    ∃ swapped, UnifiesTo right left other swapped ∧ Option.Rel Bindings.Alike outcome swapped := by
  induction run generalizing other with
  | @same left right term given ofLeft ofRight notList =>
    obtain ⟨common, toLeft, toRight⟩ := (alike.equates_iff left right).mp ⟨_, ofLeft, ofRight⟩
    refine ⟨_, .same toRight toLeft ?_, .some alike⟩
    cases common with
    | list items => cases ofLeft.unique (alike.symm.resolvesTo toLeft nofun) ▸ notList
    | _ => rfl
  | @bindLeft left right term given name ofLeft ofRight different =>
    obtain ⟨twin, leftTwin⟩ := alike.resolvesTo_var ofLeft
    cases term with
    | var last =>
      -- The only case in which the exchanged search binds the other variable.
      obtain ⟨copy, rightTwin⟩ := alike.resolvesTo_var ofRight
      have apart := alike.ne_of_ne ofLeft ofRight different leftTwin rightTwin
      refine ⟨_, .bindLeft rightTwin leftTwin apart.symm, .some ?_⟩
      refine (alike.bind ofLeft ofRight different leftTwin rightTwin).trans ?_
      exact Bindings.alike_bind_var leftTwin.get?_eq_none rightTwin.get?_eq_none
        fun same => apart (same ▸ rfl)
    | _ =>
      have rightTwin := alike.resolvesTo ofRight nofun
      exact ⟨_, .bindRight rightTwin leftTwin nofun,
        .some (alike.bind ofLeft ofRight different leftTwin rightTwin)⟩
  | bindRight ofLeft ofRight noVariable =>
    obtain ⟨twin, rightTwin⟩ := alike.resolvesTo_var ofRight
    have leftTwin := alike.resolvesTo ofLeft noVariable
    exact ⟨_, .bindLeft rightTwin leftTwin (noVariable twin),
      .some (alike.bind ofRight ofLeft (noVariable _) rightTwin leftTwin)⟩
  | clash ofLeft ofRight clash =>
    exact ⟨none, .clash (alike.resolvesTo ofRight clash.symm.ne_var)
      (alike.resolvesTo ofLeft clash.ne_var) clash.symm, .none⟩
  | lists ofLeft ofRight _ pairs =>
    obtain ⟨swapped, pairs, alikeToo⟩ := pairs.swap (fun _ _ => fun ⟨_, ih⟩ => ih) alike
    exact ⟨swapped, .lists (alike.resolvesTo ofRight nofun) (alike.resolvesTo ofLeft nofun) pairs,
      alikeToo⟩

/-- **With a ground term the exchanged search ends with the same bindings**: it only ever binds
variables of the other term, to the same terms. -/
theorem UnifiesTo.swap_of_isGround (run : UnifiesTo left right given outcome)
    (ground : left.isGround) : UnifiesTo right left given outcome := by
  induction run with
  | same ofLeft ofRight notList => exact .same ofRight ofLeft notList
  | bindLeft ofLeft =>
    cases ofLeft.eq_of_isGround ground
    cases ground
  | bindRight ofLeft ofRight noVariable => exact .bindLeft ofRight ofLeft (noVariable _)
  | clash ofLeft ofRight clash => exact .clash ofRight ofLeft clash.symm
  | @lists left right lefts rights given outcome ofLeft ofRight _ pairs =>
    obtain rfl := ofLeft.eq_of_isGround ground
    have groundItems : ∀ item ∈ lefts, item.isGround := by simpa using ground
    -- Bindings are related here when they are the same.
    obtain ⟨swapped, exchanged, equal⟩ := pairs.swap (fun item member {_ _ outcome _} run same =>
      ⟨outcome, same ▸ run.2 (groundItems item member), option_rel_eq_iff.mpr rfl⟩) rfl
    cases option_rel_eq_iff.mp equal
    exact .lists ofRight ofLeft exchanged

/-- **Unification is symmetric.** Where it comes to an end, it does so with the terms exchanged,
either both times without bindings, or with equally many and the same solutions; and if one of the
terms is ground, with the same bindings. This holds of acyclic bindings, and of all others without
loops of variables. -/
theorem unify_swap (loopFree : given.LoopFree)
    (ends : ∃ outcome, UnifiesTo left right given outcome) :
    UnifiesTo left right given (unify left right given) ∧
      UnifiesTo right left given (unify right left given) ∧
      Option.Rel (fun result swapped => result.size = swapped.size ∧
          (∀ value, result.SatisfiedBy value ↔ swapped.SatisfiedBy value) ∧
          (left.isGround → result = swapped))
        (unify left right given) (unify right left given) := by
  obtain ⟨outcome, run⟩ := ends
  obtain ⟨swapped, exchanged, related⟩ := run.swap (.refl given)
  rw [run.unify_eq loopFree, exchanged.unify_eq loopFree]
  refine ⟨run, exchanged, ?_⟩
  cases related with
  | none => exact .none
  | @some result swapped alike =>
    refine .some ⟨alike.size_eq, fun value => ?_, fun ground => ?_⟩
    · -- Both have the solutions of the given bindings that make the terms equal.
      have ofRun : given.SatisfiedBy value ∧ left.instantiate value = right.instantiate value ↔
          result.SatisfiedBy value := by simpa using run.satisfiedBy_iff
      have ofExchanged : given.SatisfiedBy value ∧
          right.instantiate value = left.instantiate value ↔ swapped.SatisfiedBy value := by
        simpa using exchanged.satisfiedBy_iff
      rw [← ofRun, ← ofExchanged, eq_comm]
    · have same := (run.swap_of_isGround ground).unify_eq loopFree
      exact Option.some.inj (same.symm.trans (exchanged.unify_eq loopFree))

/-- Variables get bound to one another through the chain, in either direction, and the bindings
found are different; with a ground term they are not. -/
theorem unify_swap_chain :
    let constant : Term := .atom (.symbol "a")
    let call (term : Term) : Term := .list [.atom (.symbol "f"), term]
    let left : Term := .list [.var "?u", .var "?list", .var "?u"]
    let right : Term := .list [.var "?v", call (.var "?v"), .var "?w"]
    let result := ((chain.bind "?u" (.var "?v")).bind "?x" (.var "?v")).bind "?v" (.var "?w")
    let swapped := ((chain.bind "?v" (.var "?u")).bind "?u" (.var "?x")).bind "?w" (.var "?x")
    unify left right chain = some result ∧ unify right left chain = some swapped ∧
      result ≠ swapped ∧ result.size = swapped.size ∧
      (∀ value, result.SatisfiedBy value ↔ swapped.SatisfiedBy value) ∧
      unify (call constant) (.var "?list") chain = unify (.var "?list") (call constant) chain ∧
      unify (call constant) (.var "?list") chain = some (chain.bind "?x" constant) := by
  intro constant call left right result swapped
  have loopFree : chain.LoopFree := acyclic_chain.loopFree
  have unified : unify left right chain = some result := by decide +kernel
  have unifiedToo : unify right left chain = some swapped := by decide +kernel
  have matched : unify (call constant) (.var "?list") chain =
      some (chain.bind "?x" constant) := by decide +kernel
  obtain ⟨-, -, alike⟩ := unify_swap loopFree ⟨_, unifiesTo_of_unify loopFree unified⟩
  obtain ⟨-, -, same⟩ := unify_swap loopFree ⟨_, unifiesTo_of_unify loopFree matched⟩
  rw [unified, unifiedToo] at alike
  rw [matched] at same ⊢
  obtain ⟨sizes, solutions, -⟩ := alike
  generalize unify (.var "?list") (call constant) chain = exchanged at same ⊢
  obtain ⟨-, -, equal⟩ := same
  have ground : (call constant).isGround := by decide
  exact ⟨unified, unifiedToo, by decide +kernel, sizes, solutions, congrArg some (equal ground),
    rfl⟩

end

end ForwardChaining
