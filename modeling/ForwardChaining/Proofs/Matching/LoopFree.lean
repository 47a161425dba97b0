import ForwardChaining.Proofs.Matching.Acyclic

/-! # Loop-free bindings

`resolve` and `substitute` run with a bound on the links that they follow. Here the same is said
without a bound, by relations whose derivations are the runs that end: `ResolvesTo` follows links
from variable to variable as far as they go, and `SubstitutesTo` does so at every depth.

Resolving ends at every term when no way along links from variable to variable comes back to its
start (`LoopFree`), and only then (`loopFree_iff_exists_resolvesTo`). This is less than `Acyclic`
asks for: a variable may well be bound to a list that holds it. The bound of `resolve` then never
shows (`LoopFree.resolvesTo_iff`), and binding what unification binds closes no loop
(`LoopFree.bind`). Substituting ends under acyclic bindings
(`Acyclic.substitutesTo`), with a normal form of the term. -/

namespace ForwardChaining

namespace Bindings

variable {bindings : Bindings} {term result : Term} {name : String}

/-! ## Following links to their end -/

/-- A term stands for another one when the links from variable to variable, however many there are,
end at it. -/
inductive ResolvesTo (bindings : Bindings) : (term result : Term) → Prop where
  /-- An atom stands for itself. -/
  | atom (constant : Atom) : ResolvesTo bindings (.atom constant) (.atom constant)
  /-- At its top, a list stands for itself. -/
  | list (items : List Term) : ResolvesTo bindings (.list items) (.list items)
  /-- An unbound variable stands for itself. -/
  | unbound {name : String} (unbound : bindings.get? name = none) :
    ResolvesTo bindings (.var name) (.var name)
  /-- A bound variable stands for what its term stands for. -/
  | link {name : String} {term result : Term} (bound : bindings.get? name = some term)
    (rest : ResolvesTo bindings term result) : ResolvesTo bindings (.var name) result

namespace ResolvesTo

/-- An atom stands for nothing else. -/
@[simp] theorem atom_iff {constant : Atom} :
    bindings.ResolvesTo (.atom constant) result ↔ result = .atom constant :=
  ⟨fun resolves => by cases resolves; rfl, by rintro rfl; exact .atom constant⟩

/-- A list stands for nothing else. -/
@[simp] theorem list_iff {items : List Term} :
    bindings.ResolvesTo (.list items) result ↔ result = .list items :=
  ⟨fun resolves => by cases resolves; rfl, by rintro rfl; exact .list items⟩

/-- Links lead to one end only. -/
theorem unique {other : Term} (resolves : bindings.ResolvesTo term result)
    (toOther : bindings.ResolvesTo term other) : result = other := by
  induction resolves with
  | atom constant => exact (atom_iff.mp toOther).symm
  | list items => exact (list_iff.mp toOther).symm
  | unbound unbound =>
    cases toOther with
    | unbound => rfl
    | link bound => simp [unbound] at bound
  | link bound _ ih =>
    cases toOther with
    | unbound unbound => simp [unbound] at bound
    | link boundToo rest =>
      rw [bound, Option.some.injEq] at boundToo
      exact ih (boundToo ▸ rest)

/-- A variable at the end of links is unbound. -/
theorem get?_eq_none (resolves : bindings.ResolvesTo term (.var name)) :
    bindings.get? name = none := by
  generalize equal : Term.var name = result at resolves
  induction resolves with
  | atom constant => cases equal
  | list items => cases equal
  | unbound unbound =>
    cases equal
    exact unbound
  | link _ _ ih => exact ih equal

/-- The end of links stands for itself. -/
theorem self (resolves : bindings.ResolvesTo term result) : bindings.ResolvesTo result result := by
  induction resolves with
  | atom constant => exact .atom constant
  | list items => exact .list items
  | unbound unbound => exact .unbound unbound
  | link _ _ ih => exact ih

/-- A ground term stands for itself only. -/
theorem eq_of_isGround (resolves : bindings.ResolvesTo term result) (ground : term.isGround) :
    result = term := by
  cases resolves with
  | atom constant => rfl
  | list items => rfl
  | unbound => cases ground
  | link => cases ground

/-- With more bindings, links lead on from where they ended. -/
theorem extend {more : Bindings} {last : Term} (resolves : bindings.ResolvesTo term result)
    (keeps : more.Extends bindings) (rest : more.ResolvesTo result last) :
    more.ResolvesTo term last := by
  induction resolves with
  | atom constant => exact rest
  | list items => exact rest
  | unbound unbound => exact rest
  | link bound _ ih => exact .link (keeps _ _ bound) (ih rest)

end ResolvesTo

/-! ## Bindings without loops -/

/-- One variable is bound to another. -/
def LinksTo (bindings : Bindings) (name other : String) : Prop :=
  bindings.get? name = some (.var other)

/-- No way along links from variable to variable returns to its start. -/
def LoopFree (bindings : Bindings) : Prop :=
  ∀ name, ¬ Relation.TransGen bindings.LinksTo name name

/-- Links are ways through bound terms, so acyclic bindings have no loops. -/
theorem Acyclic.loopFree (acyclic : bindings.Acyclic) : bindings.LoopFree := by
  intro name loop
  refine acyclic name (Relation.TransGen.mono ?_ name name loop)
  intro first second links
  exact ⟨.var second, links, by simp [Term.occurrences]⟩

/-- Having come along a path of linked variables, there are enough links left for the rest. -/
theorem LoopFree.resolvesTo_follow_of_path (loopFree : bindings.LoopFree) {links : Nat}
    {path : List String} (isPath : bindings.Path bindings.LinksTo path name)
    (enough : bindings.size ≤ path.length + links) :
    bindings.ResolvesTo (.var name) (bindings.follow links (.var name)) := by
  induction links generalizing path name with
  | zero =>
    -- All bindings are used up: one more bound variable would be one too many.
    refine .unbound (by_contra fun isBound => ?_)
    have fits := isPath.length_lt_size loopFree isBound
    omega
  | succ links ih =>
    cases binding : bindings.get? name with
    | none =>
      simp only [follow, binding]
      exact .unbound binding
    | some term =>
      simp only [follow, binding]
      refine .link binding ?_
      cases term with
      | atom constant => simp
      | list items => simp
      | var next =>
        refine ih (isPath.cons loopFree (by simp [binding]) binding) ?_
        simp only [List.length_cons]
        omega

/-- **Without loops, following links ends at every term**, and within the bound of `resolve`. -/
theorem LoopFree.resolvesTo (loopFree : bindings.LoopFree) (term : Term) :
    bindings.ResolvesTo term (bindings.resolve term) := by
  cases term with
  | atom constant => simp
  | list items => simp
  | var name => exact loopFree.resolvesTo_follow_of_path (.nil ..) (by simp)

/-- Without loops, `resolve` finds what a term stands for. -/
theorem LoopFree.resolvesTo_iff (loopFree : bindings.LoopFree) :
    bindings.ResolvesTo term result ↔ bindings.resolve term = result :=
  ⟨(loopFree.resolvesTo term).unique, fun equal => equal ▸ loopFree.resolvesTo term⟩

/-- Links that lead to an end do not come back to their start. -/
theorem ResolvesTo.not_loop (resolves : bindings.ResolvesTo (.var name) result) :
    ¬ Relation.TransGen bindings.LinksTo name name := by
  intro loop
  generalize start : Term.var name = term at resolves
  induction resolves generalizing name with
  | atom constant => cases start
  | list items => cases start
  | unbound unbound =>
    cases start
    obtain ⟨next, links, -⟩ := Relation.TransGen.head'_iff.mp loop
    simp [LinksTo, unbound] at links
  | link bound _ ih =>
    cases start
    -- The first link of the loop is the only one from its start, so there is a loop one link on.
    obtain ⟨next, links, back⟩ := Relation.TransGen.head'_iff.mp loop
    have isNext : Term.var next = _ := Option.some.inj (links.symm.trans bound)
    exact ih (.tail' back links) isNext

/-- **Bindings have no loops just when resolving ends at every variable.** -/
theorem loopFree_iff_exists_resolvesTo :
    bindings.LoopFree ↔ ∀ name, ∃ result, bindings.ResolvesTo (.var name) result := by
  constructor
  · intro loopFree name
    exact ⟨_, loopFree.resolvesTo (.var name)⟩
  · intro ends name
    obtain ⟨result, resolves⟩ := ends name
    exact resolves.not_loop

/-- Binding a variable to something else that stands for itself closes no loop: the only new link
leads to a variable that is bound to nothing. -/
theorem LoopFree.bind (loopFree : bindings.LoopFree) (resolved : bindings.ResolvesTo term term)
    (different : term ≠ .var name) : (bindings.bind name term).LoopFree := by
  have newLink {first second : String} (links : (bindings.bind name term).LinksTo first second) :
      bindings.LinksTo first second ∨ (bindings.bind name term).get? second = none := by
    rw [LinksTo, get?_bind] at links
    split at links
    · cases links
      have apart : name ≠ second := fun same => different (by rw [same])
      exact .inr (by rw [get?_bind, if_neg apart, resolved.get?_eq_none])
    · exact .inl links
  -- Of a whole way, only the last link can be new, as it leads to an unbound variable.
  have oldWay {first second : String}
      (way : Relation.TransGen (bindings.bind name term).LinksTo first second) :
      Relation.TransGen bindings.LinksTo first second ∨
        (bindings.bind name term).get? second = none := by
    induction way with
    | single links => exact (newLink links).imp .single id
    | tail _ links ih =>
      rcases ih with old | nothing
      · exact (newLink links).imp old.tail id
      · simp [LinksTo, nothing] at links
  intro start loop
  rcases oldWay loop with old | nothing
  · exact loopFree start old
  · obtain ⟨next, links, -⟩ := Relation.TransGen.head'_iff.mp loop
    simp [LinksTo, nothing] at links

/-! ## Substituting to the end -/

/-- A term becomes another one when its variables, and those of their terms, are replaced through
all levels, however many there are. -/
inductive SubstitutesTo (bindings : Bindings) : (term result : Term) → Prop where
  /-- A term that stands for an atom becomes it. -/
  | atom {term : Term} {constant : Atom} (resolves : bindings.ResolvesTo term (.atom constant)) :
    SubstitutesTo bindings term (.atom constant)
  /-- A term that stands for an unbound variable becomes it. -/
  | var {term : Term} {name : String} (resolves : bindings.ResolvesTo term (.var name)) :
    SubstitutesTo bindings term (.var name)
  /-- A term that stands for a list becomes the list of what its items become. -/
  | list {term : Term} {items results : List Term}
    (resolves : bindings.ResolvesTo term (.list items))
    (each : List.Forall₂ (SubstitutesTo bindings) items results) :
    SubstitutesTo bindings term (.list results)

/-- A bound variable becomes what its term becomes. -/
theorem SubstitutesTo.link (bound : bindings.get? name = some term)
    (substitutes : bindings.SubstitutesTo term result) :
    bindings.SubstitutesTo (.var name) result := by
  cases substitutes with
  | atom resolves => exact .atom (.link bound resolves)
  | var resolves => exact .var (.link bound resolves)
  | list resolves each => exact .list (.link bound resolves) each

/-- **Under acyclic bindings, substituting ends at every term**, and within the bound of
`substitute`. -/
theorem Acyclic.substitutesTo (acyclic : bindings.Acyclic) (term : Term) :
    bindings.SubstitutesTo term (bindings.substitute term) := by
  -- On the way through a term it is enough to know what its variables become.
  have ofTerm (term : Term) (ofVariables : ∀ name ∈ term.occurrences,
      bindings.SubstitutesTo (.var name) (bindings.substitute (.var name))) :
      bindings.SubstitutesTo term (bindings.substitute term) := by
    induction term with
    | atom constant =>
      rw [substitute_atom]
      exact .atom (.atom constant)
    | var name => exact ofVariables name (by simp [Term.occurrences])
    | list items ih =>
      rw [substitute_list]
      refine .list (.list items) ?_
      rw [List.forall₂_map_right_iff, List.forall₂_same]
      exact fun item member => ih item member fun name occurs =>
        ofVariables name (by simpa using ⟨item, member, occurs⟩)
  have ofVariable (name : String) :
      bindings.SubstitutesTo (.var name) (bindings.substitute (.var name)) := by
    induction name using acyclic.induct with
    | step name ih =>
      cases bound : bindings.get? name with
      | none =>
        rw [substitute_var_of_unbound bound]
        exact .var (.unbound bound)
      | some value =>
        rw [acyclic.substitute_var bound]
        exact .link bound (ofTerm value fun other occurs => ih other ⟨value, bound, occurs⟩)
  exact ofTerm term fun name _ => ofVariable name

/-- **A term becomes one other term only.** -/
theorem SubstitutesTo.unique {other : Term} (substitutes : bindings.SubstitutesTo term result)
    (toOther : bindings.SubstitutesTo term other) : result = other := by
  induction result generalizing term other with
  | list results ih =>
    obtain - | - | ⟨resolves, each⟩ := substitutes
    cases toOther with
    | atom resolvesToo => cases resolves.unique resolvesToo
    | var resolvesToo => cases resolves.unique resolvesToo
    | @list _ _ others resolvesToo eachToo =>
      cases resolves.unique resolvesToo
      refine congrArg Term.list ?_
      clear resolves resolvesToo
      induction each generalizing others with
      | nil =>
        cases eachToo
        rfl
      | cons first _ ihRest =>
        obtain - | ⟨firstToo, restToo⟩ := eachToo
        obtain ⟨ofFirst, ofRest⟩ := List.forall_mem_cons.mp ih
        rw [ofFirst first firstToo, ihRest ofRest restToo]
  | _ =>
    -- What the term stands for is no list, and is all that it becomes.
    obtain ⟨resolves⟩ | ⟨resolves⟩ | _ := substitutes
    all_goals
      cases toOther with
      | atom resolvesToo => exact resolves.unique resolvesToo
      | var resolvesToo => exact resolves.unique resolvesToo
      | list resolvesToo => cases resolves.unique resolvesToo

/-- **Under acyclic bindings every term has a normal form.** Substituting ends, and with it alone;
no bound variable is left, so a second time changes nothing; only terms without bound variables
stay as they are; and acyclic bindings that keep these and more make of the result what they make of
the term. -/
theorem Acyclic.substitute_normal (acyclic : bindings.Acyclic) (term : Term) :
    (∀ result, bindings.SubstitutesTo term result ↔ result = bindings.substitute term) ∧
      (∀ name ∈ (bindings.substitute term).occurrences, bindings.get? name = none) ∧
      bindings.substitute (bindings.substitute term) = bindings.substitute term ∧
      (bindings.substitute term = term ↔ ∀ name ∈ term.occurrences, bindings.get? name = none) ∧
      ∀ more : Bindings, more.Extends bindings → more.Acyclic →
        more.substitute (bindings.substitute term) = more.substitute term := by
  have ends := acyclic.substitutesTo term
  refine ⟨fun result => ⟨fun substitutes => substitutes.unique ends, ?_⟩,
    fun name => acyclic.unbound_of_mem_substitute, acyclic.substitute_substitute term, ?_,
    fun more keeps acyclicMore => keeps.substitute_substitute acyclic acyclicMore term⟩
  · rintro rfl
    exact ends
  · constructor
    · intro stays name occurs
      exact acyclic.unbound_of_mem_substitute (stays.symm ▸ occurs)
    · exact substitute_of_unbound

/-- A pair that holds another bound variable, twice and at two depths, and one more binding for the
variable that this leads to. -/
theorem Acyclic.substitute_normal_pair :
    let constant : Term := .atom (.symbol "one")
    let pair (first second : Term) : Term := .list [first, .list [first, second]]
    let given : Bindings := .ofList [("?pair", pair (.var "?xy") (.var "?w")), ("?xy", .var "?x")]
    let more : Bindings := given.bind "?x" constant
    given.Acyclic ∧ more.Extends given ∧ more.Acyclic ∧
      given.substitute (.var "?pair") = pair (.var "?x") (.var "?w") ∧
      given.SubstitutesTo (.var "?pair") (pair (.var "?x") (.var "?w")) ∧
      given.substitute (pair (.var "?x") (.var "?w")) = pair (.var "?x") (.var "?w") ∧
      more.substitute (pair (.var "?x") (.var "?w")) = pair constant (.var "?w") ∧
      more.substitute (.var "?pair") = pair constant (.var "?w") := by
  intro constant pair given more
  have acyclic : given.Acyclic := acyclic_of_rank String.length (by decide +kernel)
  have acyclicMore : more.Acyclic := acyclic_of_rank String.length (by decide +kernel)
  have keeps : more.Extends given := extends_bind_of_unbound (by decide +kernel) constant
  have becomes : given.substitute (.var "?pair") = pair (.var "?x") (.var "?w") := by
    decide +kernel
  have finished : more.substitute (.var "?pair") = pair constant (.var "?w") := by decide +kernel
  obtain ⟨ends, -, again, -, absorbs⟩ := acyclic.substitute_normal (.var "?pair")
  rw [becomes] at ends again absorbs
  exact ⟨acyclic, keeps, acyclicMore, becomes, (ends _).mpr rfl, again,
    (absorbs more keeps acyclicMore).trans finished, finished⟩

end Bindings

end ForwardChaining
