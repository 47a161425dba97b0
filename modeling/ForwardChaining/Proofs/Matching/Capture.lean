import ForwardChaining.Matching.Trigger
import ForwardChaining.Proofs.Matching.Solutions

/-! # Capturing an environment and substituting it

A rule that is made by a firing gets the bindings of the firing twice: they have been substituted in
its clauses, and every match extends them. Once would do. Under bindings that keep those of an
environment, a clause and what it becomes in the environment stand for the same at their tops, or
for lists of which one is what the other becomes (`ResolvesTo.substitute`). So with ground facts the
searches go the same way, and bind the same variables to the same terms
(`unifyAll_substitute`). -/

namespace ForwardChaining

variable {given current : Bindings} {outcome : Option Bindings}

/-- What a term stands for is what it becomes in an environment stands for, unless this is a list:
then its items may have become what they become. -/
theorem Bindings.ResolvesTo.substitute {term result : Term}
    (resolves : current.ResolvesTo term result) (acyclic : given.Acyclic)
    (keeps : current.Extends given) :
    current.ResolvesTo (given.substitute term) result ∨
      ∃ items, result = .list items ∧
        current.ResolvesTo (given.substitute term) (.list (items.map given.substitute)) := by
  induction resolves with
  | atom constant =>
    rw [substitute_atom]
    exact .inl (.atom constant)
  | list items =>
    rw [substitute_list]
    exact .inr ⟨items, rfl, .list _⟩
  | @unbound name unbound =>
    have unboundBefore : given.get? name = none :=
      Option.eq_none_iff_forall_ne_some.mpr fun term bound => by
        simp [keeps name term bound] at unbound
    rw [substitute_var_of_unbound unboundBefore]
    exact .inl (.unbound unbound)
  | @link name term result bound rest ih =>
    cases before : given.get? name with
    | none =>
      -- The environment does not know the variable, so it is the same variable still.
      rw [substitute_var_of_unbound before]
      exact .inl (.link bound rest)
    | some value =>
      obtain rfl : value = term := Option.some.inj ((keeps name value before).symm.trans bound)
      rw [acyclic.substitute_var before]
      exact ih

/-- A list clashes with whatever another list clashes with. -/
theorem Term.Clash.list {term : Term} {items : List Term} (clash : term.Clash (.list items))
    (others : List Term) : term.Clash (.list others) := by
  cases clash with
  | atomList constant => exact .atomList constant others

/-- When each search does the same for what the pattern becomes, so does a search through pairs: on
the way, bindings of the environment are kept. -/
theorem PairsUnifyTo.substitute {Run : Term → Term → Bindings → Option Bindings → Prop}
    {facts patterns : List Term}
    (each : ∀ fact ∈ facts, ∀ {pattern current outcome}, Run fact pattern current outcome →
      current.Extends given → UnifiesTo fact (given.substitute pattern) current outcome)
    (pairs : PairsUnifyTo Run facts patterns current outcome) (keeps : current.Extends given) :
    UnifyAllTo facts (patterns.map given.substitute) current outcome := by
  induction pairs with
  | differ lengths => exact .differ (by simpa using lengths)
  | nil => exact .nil _
  | cons lengths first _ ih =>
    obtain ⟨ofFirst, ofRest⟩ := List.forall_mem_cons.mp each
    have substituted := ofFirst first keeps
    have keepsToo := substituted.gains_univ.extends.trans keeps
    exact .cons (by simpa using lengths) substituted (ih ofRest keepsToo)
  | fail lengths first =>
    exact .fail (by simpa using lengths) (each _ List.mem_cons_self first keeps)

/-- **A search for a ground fact does the same for what the pattern becomes** in an environment that
the bindings keep. -/
theorem UnifiesTo.substitute {fact pattern : Term}
    (run : UnifiesTo fact pattern current outcome) (ground : fact.isGround)
    (acyclic : given.Acyclic) (keeps : current.Extends given) :
    UnifiesTo fact (given.substitute pattern) current outcome := by
  induction run with
  | @same fact pattern term current ofFact ofPattern notList =>
    rcases ofPattern.substitute acyclic keeps with sameEnd | ⟨items, rfl, -⟩
    · exact .same ofFact sameEnd notList
    · cases notList
  | bindLeft ofFact =>
    -- A ground fact stands for no variable.
    cases ofFact.eq_of_isGround ground
    cases ground
  | bindRight ofFact ofPattern noVariable =>
    rcases ofPattern.substitute acyclic keeps with sameEnd | ⟨_, equal, -⟩
    · exact .bindRight ofFact sameEnd noVariable
    · cases equal
  | clash ofFact ofPattern clash =>
    rcases ofPattern.substitute acyclic keeps with sameEnd | ⟨items, rfl, substituted⟩
    · exact .clash ofFact sameEnd clash
    · exact .clash ofFact substituted (clash.list _)
  | @lists fact pattern facts patterns current outcome ofFact ofPattern pairs steps =>
    rcases ofPattern.substitute acyclic keeps with sameEnd | ⟨_, equal, substituted⟩
    · exact .lists ofFact sameEnd pairs
    · -- The items of one list are what those of the other become.
      obtain rfl := Term.list.inj equal
      obtain rfl := ofFact.eq_of_isGround ground
      have groundFacts : ∀ fact ∈ facts, fact.isGround := by simpa using ground
      exact .lists ofFact substituted (steps.substitute (fun fact member _ _ _ ⟨_, ih⟩ =>
        ih (groundFacts fact member)) keeps)

/-- **With ground facts, clauses match as what they become in the environment**, and with the same
bindings. -/
theorem unifyAll_substitute {facts : List Term} (ground : ∀ fact ∈ facts, fact.isGround)
    (acyclic : given.Acyclic) (clauses : List Term) :
    unifyAll facts (clauses.map given.substitute) given = unifyAll facts clauses given := by
  have run := unifyAllTo_unifyAll ground acyclic clauses
  have substituted : UnifyAllTo facts (clauses.map given.substitute) given _ :=
    run.substitute (fun fact member _ _ _ run => run.substitute (ground fact member) acyclic)
      (.refl given)
  exact substituted.unifyAll_eq acyclic.loopFree

/-! ## Triggers -/

/-- A term that writes down clauses one by one: a list of lists that is not empty. -/
def Term.ListsClauses (term : Term) : Prop :=
  ∃ items, items ≠ [] ∧ term = .list items ∧ ∀ item ∈ items, item.isList

/-- A list stays one when variables are replaced in it. -/
theorem Bindings.isList_substitute {term : Term} (isList : term.isList) :
    (given.substitute term).isList := by
  cases term with
  | list items =>
    rw [substitute_list]
    rfl
  | _ => cases isList

namespace Trigger

/-- The clauses that a term writes down one by one are its items. -/
theorem clauses_ofTerm_list {items : List Term} (nonempty : items ≠ [])
    (lists : ∀ item ∈ items, item.isList) : (ofTerm (.list items)).clauses = items := by
  cases items with
  | nil => exact absurd rfl nonempty
  | cons first rest => rw [ofTerm, if_pos (List.all_eq_true.mpr lists)]

/-- Any other term is the only clause. -/
theorem clauses_ofTerm_of_not {term : Term} (single : ¬ term.ListsClauses) :
    (ofTerm term).clauses = [term] := by
  match term with
  | .atom _ | .var _ | .list [] => rfl
  | .list (first :: rest) =>
    rw [ofTerm, if_neg]
    · rfl
    · exact fun lists => single ⟨_, List.cons_ne_nil _ _, rfl, List.all_eq_true.mp lists⟩

/-- **The clauses of a substituted trigger are substituted clauses**: those of the trigger, unless
only the environment makes it write down clauses one by one. Then they are the items of the list
that it stands for. -/
theorem clauses_ofTerm_substitute (acyclic : given.Acyclic) (trigger : Term) :
    (ofTerm (given.substitute trigger)).clauses =
        (ofTerm trigger).clauses.map given.substitute ∨
      ¬ trigger.ListsClauses ∧ ∃ items, given.resolve trigger = .list items ∧
        (ofTerm (given.substitute trigger)).clauses = items.map given.substitute := by
  by_cases before : trigger.ListsClauses
  · obtain ⟨items, nonempty, rfl, lists⟩ := before
    left
    rw [Bindings.substitute_list, clauses_ofTerm_list nonempty lists, clauses_ofTerm_list]
    · simpa using nonempty
    · exact List.forall_mem_map.mpr fun item member =>
        Bindings.isList_substitute (lists item member)
  by_cases after : (given.substitute trigger).ListsClauses
  · right
    obtain ⟨results, nonempty, equal, lists⟩ := after
    refine ⟨before, ?_⟩
    -- Only a term that stands for a list becomes one.
    have becomes := acyclic.substitute_resolve trigger
    rw [equal] at becomes ⊢
    rw [clauses_ofTerm_list nonempty lists]
    cases resolved : given.resolve trigger with
    | list items =>
      rw [resolved, Bindings.substitute_list] at becomes
      exact ⟨items, rfl, (Term.list.inj becomes).symm⟩
    | atom constant => simp [resolved] at becomes
    | var name =>
      have unbound := acyclic.unbound_of_resolve resolved
      simp [resolved, Bindings.substitute_var_of_unbound unbound] at becomes
  · left
    rw [clauses_ofTerm_of_not before, clauses_ofTerm_of_not after, List.map_singleton]

/-- A variable is one clause as it is written, and two where it stands for a list of two lists. -/
example :
    let given : Bindings := .ofList [("?both", .list [.list [.var "?x"], .list []])]
    (ofTerm (.var "?both")).clauses = [.var "?both"] ∧
      (ofTerm (given.substitute (.var "?both"))).clauses = [.list [.var "?x"], .list []] := by
  decide +kernel

end Trigger

end ForwardChaining
