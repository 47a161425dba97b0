import ForwardChaining.Proofs.Matching.Search
import ForwardChaining.Matching.Unification

/-! # How deep a search goes

`unifyWithin` runs with a bound on its depth. Its first step either ends the search, whatever the
depth, or goes on with the items of two lists (`unifyWithin_step`). So more depth never changes an
outcome (`unifyWithin_of_isFinished`), and under loop-free bindings a search ends just when some
depth suffices for it (`unifiesTo_iff_exists_depth`). -/

namespace ForwardChaining

namespace Unification

/-- The outcome of a search that has ended. -/
def ofOption : Option Bindings → Unification
  | some bindings => .unified bindings
  | none => .clash

/-- An outcome that ended is one of those. -/
theorem isFinished_iff {unification : Unification} :
    unification.isFinished ↔ ∃ outcome, unification = ofOption outcome := by
  constructor
  · intro finished
    cases unification with
    | unified bindings => exact ⟨some bindings, rfl⟩
    | clash => exact ⟨none, rfl⟩
    | unfinished => cases finished
  · rintro ⟨_ | bindings, rfl⟩ <;> rfl

/-- Searches that have ended differently are different. -/
theorem ofOption_injective : Function.Injective ofOption := by
  rintro (_ | bindings) (_ | other) equal <;> cases equal <;> rfl

/-- The bindings of a search that has ended. -/
@[simp] theorem bindings?_ofOption (outcome : Option Bindings) :
    (ofOption outcome).bindings? = outcome := by
  cases outcome <;> rfl

end Unification

section

variable {given : Bindings} {left right : Term} {lefts rights : List Term}
  {outcome : Option Bindings} {depth more : Nat}

/-- Pairs that end with one way to unify end the same with another that agrees where the first one
ends. -/
theorem unifyPairs_of_isFinished {first second : Term → Term → Bindings → Unification}
    (agree : ∀ left right given, (first left right given).isFinished →
      second left right given = first left right given)
    (finished : (unifyPairs first lefts rights given).isFinished) :
    unifyPairs second lefts rights given = unifyPairs first lefts rights given := by
  induction lefts generalizing rights given with
  | nil => cases rights <;> rfl
  | cons left lefts ih =>
    cases rights with
    | nil => rfl
    | cons right rights =>
      rw [unifyPairs] at finished
      rw [unifyPairs, unifyPairs]
      cases ended : first left right given with
      | unified middle =>
        rw [ended] at finished
        rw [agree left right given (by rw [ended]; rfl), ended]
        exact ih finished
      | clash => rw [agree left right given (by rw [ended]; rfl), ended]
      | unfinished =>
        rw [ended] at finished
        cases finished

/-! ### One step of the search -/

section

variable {term other : Term} {name : String}

/-- Nothing is bound where both stand for the same. -/
theorem unifyWithin_of_same (ofLeft : given.resolve left = term)
    (ofRight : given.resolve right = term) (notList : term.isList = false) :
    unifyWithin (depth + 1) left right given = .unified given := by
  cases term with
  | list items => cases notList
  | _ => simp [unifyWithin, ofLeft, ofRight]

/-- A variable on the left is bound. -/
theorem unifyWithin_of_left (ofLeft : given.resolve left = .var name)
    (ofRight : given.resolve right = term) (different : term ≠ .var name) :
    unifyWithin (depth + 1) left right given = .unified (given.bind name term) := by
  cases term with
  | var other =>
    have apart : name ≠ other := fun same => different (by rw [same])
    simp [unifyWithin, ofLeft, ofRight, apart]
  | _ => simp [unifyWithin, ofLeft, ofRight]

/-- So is a variable on the right only. -/
theorem unifyWithin_of_right (ofLeft : given.resolve left = term)
    (ofRight : given.resolve right = .var name) (noVariable : ∀ other, term ≠ .var other) :
    unifyWithin (depth + 1) left right given = .unified (given.bind name term) := by
  cases term with
  | var other => exact absurd rfl (noVariable other)
  | _ => simp [unifyWithin, ofLeft, ofRight]

/-- Terms that clash do so within any depth. -/
theorem unifyWithin_of_clash (ofLeft : given.resolve left = term)
    (ofRight : given.resolve right = other) (clash : term.Clash other) :
    unifyWithin (depth + 1) left right given = .clash := by
  cases clash with
  | atoms different => simp [unifyWithin, ofLeft, ofRight, different]
  | atomList => simp [unifyWithin, ofLeft, ofRight]
  | listAtom => simp [unifyWithin, ofLeft, ofRight]

/-- The items of lists are looked at within one depth less. -/
theorem unifyWithin_of_lists (ofLeft : given.resolve left = .list lefts)
    (ofRight : given.resolve right = .list rights) :
    unifyWithin (depth + 1) left right given =
      if lefts.length = rights.length then unifyPairs (unifyWithin depth) lefts rights given
      else .clash := by
  simp only [unifyWithin, ofLeft, ofRight]

end

/-- **A search ends at its first step, whatever the depth**, or goes on with the items of two lists
of one length. -/
theorem unifyWithin_step (left right : Term) (given : Bindings) :
    (∃ outcome, (∀ depth, unifyWithin (depth + 1) left right given = .ofOption outcome) ∧
      (given.LoopFree → UnifiesTo left right given outcome)) ∨
    ∃ lefts rights, given.resolve left = .list lefts ∧ given.resolve right = .list rights ∧
      lefts.length = rights.length ∧
      ∀ depth, unifyWithin (depth + 1) left right given =
        unifyPairs (unifyWithin depth) lefts rights given := by
  generalize leftEnd : given.resolve left = term
  generalize rightEnd : given.resolve right = other
  have ofLeft (loopFree : given.LoopFree) := loopFree.resolvesTo_iff.mpr leftEnd
  have ofRight (loopFree : given.LoopFree) := loopFree.resolvesTo_iff.mpr rightEnd
  cases term.meets other with
  | same notList =>
    exact .inl ⟨some given, fun _ => unifyWithin_of_same leftEnd rightEnd notList,
      fun loopFree => .same (ofLeft loopFree) (ofRight loopFree) notList⟩
  | @bindLeft name _ different =>
    exact .inl ⟨some (given.bind name other),
      fun _ => unifyWithin_of_left leftEnd rightEnd different,
      fun loopFree => .bindLeft (ofLeft loopFree) (ofRight loopFree) different⟩
  | @bindRight name _ noVariable =>
    exact .inl ⟨some (given.bind name term),
      fun _ => unifyWithin_of_right leftEnd rightEnd noVariable,
      fun loopFree => .bindRight (ofLeft loopFree) (ofRight loopFree) noVariable⟩
  | clash clash =>
    exact .inl ⟨none, fun _ => unifyWithin_of_clash leftEnd rightEnd clash,
      fun loopFree => .clash (ofLeft loopFree) (ofRight loopFree) clash⟩
  | lists lefts rights =>
    by_cases lengths : lefts.length = rights.length
    · refine .inr ⟨lefts, rights, rfl, rfl, lengths, fun depth => ?_⟩
      rw [unifyWithin_of_lists leftEnd rightEnd, if_pos lengths]
    · refine .inl ⟨none, fun depth => ?_, fun loopFree => ?_⟩
      · rw [unifyWithin_of_lists leftEnd rightEnd, if_neg lengths]
        rfl
      · exact .lists (ofLeft loopFree) (ofRight loopFree) (.differ lengths)

/-- A search that ends within some depth ends the same within any larger one. -/
theorem unifyWithin_of_isFinished (finished : (unifyWithin depth left right given).isFinished)
    (le : depth ≤ more) :
    unifyWithin more left right given = unifyWithin depth left right given := by
  induction depth generalizing more left right given with
  | zero => cases finished
  | succ depth ih =>
    obtain ⟨more, rfl⟩ := Nat.exists_eq_add_of_lt (Nat.lt_of_succ_le le)
    rcases unifyWithin_step left right given with ⟨outcome, ends, -⟩ | ⟨_, _, -, -, -, goesOn⟩
    · rw [ends, ends]
    · rw [goesOn] at finished
      rw [goesOn, goesOn]
      refine unifyPairs_of_isFinished (fun left right given ended => ?_) finished
      exact ih ended (Nat.le_add_right depth more)

/-! ### The search without a bound -/

/-- When each pair of two lists ends within some depth, so do all of them together. -/
theorem PairsUnifyTo.exists_depth {Run : Term → Term → Bindings → Option Bindings → Prop}
    (each : ∀ {left right given outcome}, given.LoopFree → Run left right given outcome →
      (∃ depth, unifyWithin depth left right given = .ofOption outcome) ∧
        ∀ next ∈ outcome, next.LoopFree)
    (loopFree : given.LoopFree) (pairs : PairsUnifyTo Run lefts rights given outcome)
    (lengths : lefts.length = rights.length) :
    ∃ depth, unifyPairs (unifyWithin depth) lefts rights given = .ofOption outcome := by
  induction pairs with
  | differ different => exact absurd lengths different
  | nil => exact ⟨0, rfl⟩
  | @cons left right lefts rights given middle outcome lengths first _ ih =>
    obtain ⟨⟨depth, ended⟩, loopFreeMiddle⟩ := each loopFree first
    obtain ⟨more, endedRest⟩ := ih (loopFreeMiddle middle rfl) (Nat.succ.inj lengths)
    -- The larger of the two depths suffices for the first pair and for the rest.
    have here : unifyWithin (max depth more) left right given = .unified middle :=
      (unifyWithin_of_isFinished (by rw [ended]; rfl) (Nat.le_max_left depth more)).trans ended
    have finished : (unifyPairs (unifyWithin more) lefts rights middle).isFinished :=
      Unification.isFinished_iff.mpr ⟨outcome, endedRest⟩
    refine ⟨max depth more, ?_⟩
    rw [unifyPairs, here, ← endedRest]
    exact unifyPairs_of_isFinished (fun _ _ _ ended =>
      unifyWithin_of_isFinished ended (Nat.le_max_right depth more)) finished
  | fail _ first =>
    obtain ⟨⟨depth, ended⟩, -⟩ := each loopFree first
    refine ⟨depth, ?_⟩
    rw [unifyPairs, ended]
    rfl

/-- A search that ends does so within some depth. -/
theorem UnifiesTo.exists_depth (run : UnifiesTo left right given outcome)
    (loopFree : given.LoopFree) :
    ∃ depth, unifyWithin depth left right given = .ofOption outcome := by
  induction run with
  | same ofLeft ofRight notList =>
    rw [loopFree.resolvesTo_iff] at ofLeft ofRight
    exact ⟨1, unifyWithin_of_same ofLeft ofRight notList⟩
  | bindLeft ofLeft ofRight different =>
    rw [loopFree.resolvesTo_iff] at ofLeft ofRight
    exact ⟨1, unifyWithin_of_left ofLeft ofRight different⟩
  | bindRight ofLeft ofRight noVariable =>
    rw [loopFree.resolvesTo_iff] at ofLeft ofRight
    exact ⟨1, unifyWithin_of_right ofLeft ofRight noVariable⟩
  | clash ofLeft ofRight clash =>
    rw [loopFree.resolvesTo_iff] at ofLeft ofRight
    exact ⟨1, unifyWithin_of_clash ofLeft ofRight clash⟩
  | @lists _ _ lefts rights _ outcome ofLeft ofRight run pairs =>
    rw [loopFree.resolvesTo_iff] at ofLeft ofRight
    by_cases lengths : lefts.length = rights.length
    · obtain ⟨depth, ended⟩ := pairs.exists_depth (fun loopFree ⟨run, ih⟩ =>
        ⟨ih loopFree, by rintro next rfl; exact run.loopFree loopFree⟩) loopFree lengths
      exact ⟨depth + 1, by rw [unifyWithin_of_lists ofLeft ofRight, if_pos lengths, ended]⟩
    · have failed : outcome = none := run.eq_none_of_length_ne lengths
      refine ⟨1, ?_⟩
      rw [unifyWithin_of_lists ofLeft ofRight, if_neg lengths, failed]
      rfl

/-- Pairs that end within some depth are searches that end. -/
theorem unifyAllTo_of_unifyPairs
    (each : ∀ {left right given outcome}, given.LoopFree →
      unifyWithin depth left right given = .ofOption outcome → UnifiesTo left right given outcome)
    (loopFree : given.LoopFree) (lengths : lefts.length = rights.length)
    (ended : unifyPairs (unifyWithin depth) lefts rights given = .ofOption outcome) :
    UnifyAllTo lefts rights given outcome := by
  induction lefts generalizing rights given with
  | nil =>
    cases rights with
    | nil =>
      cases outcome <;> cases ended
      exact .nil given
    | cons right rights => cases lengths
  | cons left lefts ih =>
    cases rights with
    | nil => cases lengths
    | cons right rights =>
      have lengths : lefts.length = rights.length := Nat.succ.inj lengths
      rw [unifyPairs] at ended
      cases first : unifyWithin depth left right given with
      | unified middle =>
        rw [first] at ended
        have run : UnifiesTo left right given (some middle) := each loopFree first
        exact .cons lengths run (ih (run.loopFree loopFree) lengths ended)
      | clash =>
        rw [first] at ended
        cases outcome with
        | none => exact .fail lengths (each loopFree first)
        | some result => cases ended
      | unfinished =>
        rw [first] at ended
        cases outcome <;> cases ended

/-- A search that ends within some depth ends without a bound as well. -/
theorem unifiesTo_of_unifyWithin (loopFree : given.LoopFree)
    (ended : unifyWithin depth left right given = .ofOption outcome) :
    UnifiesTo left right given outcome := by
  induction depth generalizing left right given outcome with
  | zero => cases outcome <;> cases ended
  | succ depth ih =>
    rcases unifyWithin_step left right given with
      ⟨other, ends, run⟩ | ⟨lefts, rights, ofLeft, ofRight, lengths, goesOn⟩
    · rw [ends] at ended
      rw [← Unification.ofOption_injective ended]
      exact run loopFree
    · rw [goesOn] at ended
      exact .lists (loopFree.resolvesTo_iff.mpr ofLeft) (loopFree.resolvesTo_iff.mpr ofRight)
        (unifyAllTo_of_unifyPairs ih loopFree lengths ended)

/-- **Under loop-free bindings, a search ends just when some depth suffices for it**, and with the
same outcome. -/
theorem unifiesTo_iff_exists_depth (loopFree : given.LoopFree) :
    UnifiesTo left right given outcome ↔
      ∃ depth, unifyWithin depth left right given = .ofOption outcome :=
  ⟨fun run => run.exists_depth loopFree, fun ⟨_, ended⟩ => unifiesTo_of_unifyWithin loopFree ended⟩

end

end ForwardChaining
