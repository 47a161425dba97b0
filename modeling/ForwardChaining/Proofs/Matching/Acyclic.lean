import ForwardChaining.Matching.Bindings
import Mathlib.Data.List.Perm.Subperm
import Mathlib.Logic.Relation

/-! # Acyclic bindings

Bindings are acyclic when following variables through bound terms never comes back to the same
variable. As there are finitely many bound variables, every way through them then ends, and within
as many links as there are bindings (`Acyclic.endsWithin`): this is why the bounds that `resolve`
and `substitute` run under do not show, and the two satisfy the equations that one would write
without a bound. It also gives an induction on variables (`Acyclic.induct`), by which substituting
is shown to reach a normal form that more bindings leave alone. -/

namespace ForwardChaining

/-! ## Variables of replaced terms -/

namespace Term

/-- The variables after a replacement are those of the values of the variables before. -/
@[simp] theorem mem_occurrences_instantiate {name : String} {value : String → Term} {term : Term} :
    name ∈ (term.instantiate value).occurrences ↔
      ∃ other ∈ term.occurrences, name ∈ (value other).occurrences := by
  induction term with
  | atom constant => simp [occurrences]
  | var other => simp [occurrences]
  | list items ih =>
    simp only [instantiate_list, occurrences_list, List.mem_flatMap, List.mem_map]
    constructor
    · rintro ⟨_, ⟨item, member, rfl⟩, occurs⟩
      obtain ⟨other, inItem, inValue⟩ := (ih item member).mp occurs
      exact ⟨other, ⟨item, member, inItem⟩, inValue⟩
    · rintro ⟨other, ⟨item, member, inItem⟩, inValue⟩
      exact ⟨_, ⟨item, member, rfl⟩, (ih item member).mpr ⟨other, inItem, inValue⟩⟩

/-- Two replacements, one after the other, are one. -/
theorem instantiate_instantiate (inner outer : String → Term) (term : Term) :
    (term.instantiate inner).instantiate outer =
      term.instantiate fun name => (inner name).instantiate outer := by
  induction term with
  | atom constant => rfl
  | var name => rfl
  | list items ih =>
    simp only [instantiate_list, list.injEq, List.map_map]
    exact List.map_congr_left ih

/-- A term is ground when no variable occurs in it. -/
theorem isGround_iff_forall {term : Term} : term.isGround ↔ ∀ name, name ∉ term.occurrences := by
  rw [isGround_iff, List.eq_nil_iff_forall_not_mem]

/-- A replacement gives a ground term when every variable that occurs has a ground value. -/
theorem isGround_instantiate {value : String → Term} {term : Term} :
    (term.instantiate value).isGround ↔ ∀ name ∈ term.occurrences, (value name).isGround := by
  simp only [isGround_iff_forall, mem_occurrences_instantiate, not_exists, not_and]
  exact ⟨fun none name occurs other inValue => none other name occurs inValue,
    fun ground other name occurs => ground name occurs other⟩

/-- A ground term stays as it is. -/
theorem instantiate_of_isGround {term : Term} (ground : term.isGround) (value : String → Term) :
    term.instantiate value = term := by
  refine Eq.trans ?_ term.instantiate_var_self
  exact instantiate_congr term fun name occurs =>
    absurd occurs (isGround_iff_forall.mp ground name)

end Term

namespace Bindings

variable {bindings : Bindings}

/-! ## Ways through bound terms -/

/-- One variable leads to another when the term that it is bound to holds the other. -/
def LeadsTo (bindings : Bindings) (name other : String) : Prop :=
  ∃ term, bindings.get? name = some term ∧ other ∈ term.occurrences

/-- Following variables through bound terms never returns to the same variable. -/
def Acyclic (bindings : Bindings) : Prop :=
  ∀ name, ¬ Relation.TransGen bindings.LeadsTo name name

/-- Every way from a variable through bound terms ends, after at most so many links. -/
def EndsWithin (bindings : Bindings) : (links : Nat) → String → Prop
  | 0, name => bindings.get? name = none
  | links + 1, name => ∀ other, bindings.LeadsTo name other → bindings.EndsWithin links other

/-- An unbound variable leads nowhere. -/
theorem not_leadsTo_of_unbound {name other : String} (unbound : bindings.get? name = none) :
    ¬ bindings.LeadsTo name other := by
  rintro ⟨term, bound, -⟩
  simp [unbound] at bound

/-- There are no more different bound variables than bindings. -/
theorem length_le_size {path : List String} (nodup : path.Nodup)
    (bound : ∀ name ∈ path, bindings.get? name ≠ none) : path.length ≤ bindings.size := by
  have isKey : path ⊆ bindings.terms.keys := by
    intro name member
    rw [Std.ExtTreeMap.mem_keys, Std.ExtTreeMap.mem_iff_isSome_getElem?]
    exact Option.isSome_iff_ne_none.mpr (bound name member)
  calc path.length ≤ bindings.terms.keys.length := (List.subperm_of_subset nodup isKey).length_le
    _ = bindings.size := Std.ExtTreeMap.length_keys

/-- A path to a variable through different bound ones, each of which leads to it along some
steps. -/
structure Path (bindings : Bindings) (Step : String → String → Prop) (path : List String)
    (name : String) : Prop where
  /-- No variable is passed twice. -/
  nodup : path.Nodup
  /-- Those that are passed are bound. -/
  bound : ∀ passed ∈ path, bindings.get? passed ≠ none
  /-- They lead to the variable. -/
  leads : ∀ passed ∈ path, Relation.TransGen Step passed name

namespace Path

variable {Step : String → String → Prop} {path : List String} {name other : String}

/-- A path begins anywhere. -/
theorem nil (bindings : Bindings) (Step : String → String → Prop) (name : String) :
    bindings.Path Step [] name := ⟨List.nodup_nil, by simp, by simp⟩

/-- A path that never returns goes on from a bound variable. -/
theorem cons (isPath : bindings.Path Step path name)
    (acyclic : ∀ name, ¬ Relation.TransGen Step name name) (bound : bindings.get? name ≠ none)
    (step : Step name other) : bindings.Path Step (name :: path) other where
  nodup := List.nodup_cons.mpr ⟨fun member => acyclic name (isPath.leads name member), isPath.nodup⟩
  bound := List.forall_mem_cons.mpr ⟨bound, isPath.bound⟩
  leads := List.forall_mem_cons.mpr
    ⟨.single step, fun passed member => (isPath.leads passed member).tail step⟩

/-- While a path that never returns is at a bound variable, it has not passed all of them. -/
theorem length_lt_size (isPath : bindings.Path Step path name)
    (acyclic : ∀ name, ¬ Relation.TransGen Step name name) (bound : bindings.get? name ≠ none) :
    path.length < bindings.size := by
  have fresh : name ∉ path := fun member => acyclic name (isPath.leads name member)
  exact length_le_size (List.nodup_cons.mpr ⟨fresh, isPath.nodup⟩)
    (List.forall_mem_cons.mpr ⟨bound, isPath.bound⟩)

end Path

/-- Having come along a path, there are as many links left as bindings that it has not used. -/
theorem Acyclic.endsWithin_of_path (acyclic : bindings.Acyclic) {links : Nat} {path : List String}
    {name : String} (isPath : bindings.Path bindings.LeadsTo path name)
    (enough : bindings.size ≤ path.length + links) : bindings.EndsWithin links name := by
  induction links generalizing path name with
  | zero =>
    -- All bindings are used up: one more bound variable would be one too many.
    by_contra isBound
    have fits := isPath.length_lt_size acyclic isBound
    omega
  | succ links ih =>
    intro other leadsOn
    have isBound : bindings.get? name ≠ none := fun unbound =>
      not_leadsTo_of_unbound unbound leadsOn
    refine ih (isPath.cons acyclic isBound leadsOn) ?_
    simp only [List.length_cons]
    omega

/-- **Every way ends within as many links as there are bindings.** -/
theorem Acyclic.endsWithin (acyclic : bindings.Acyclic) (name : String) :
    bindings.EndsWithin bindings.size name :=
  acyclic.endsWithin_of_path (.nil ..) (by simp)

/-- A property that passes to a variable from all those that it leads to holds of every variable. -/
theorem Acyclic.induct (acyclic : bindings.Acyclic) {motive : String → Prop}
    (step : ∀ name, (∀ other, bindings.LeadsTo name other → motive other) → motive name)
    (name : String) : motive name := by
  have along (links : Nat) : ∀ name, bindings.EndsWithin links name → motive name := by
    induction links with
    | zero =>
      intro name unbound
      exact step name fun other leads => absurd leads (not_leadsTo_of_unbound unbound)
    | succ links ih =>
      intro name ends
      exact step name fun other leads => ih other (ends other leads)
  exact along bindings.size name (acyclic.endsWithin name)

/-- The empty bindings are acyclic. -/
theorem acyclic_empty : (∅ : Bindings).Acyclic := by
  intro name cycle
  obtain ⟨other, leads, -⟩ := Relation.TransGen.head'_iff.mp cycle
  exact not_leadsTo_of_unbound (get?_empty name) leads

/-- Bindings are acyclic when every bound variable ranks above those in its term. -/
theorem acyclic_of_rank (rank : String → Nat)
    (descends : ∀ pair ∈ bindings.toList, ∀ other ∈ pair.2.occurrences, rank other < rank pair.1) :
    bindings.Acyclic := by
  have below {name other : String} (way : Relation.TransGen bindings.LeadsTo name other) :
      rank other < rank name := by
    have step {name other : String} : bindings.LeadsTo name other → rank other < rank name :=
      fun ⟨term, bound, occurs⟩ => descends (name, term) (mem_toList.mpr bound) other occurs
    induction way with
    | single leads => exact step leads
    | tail _ leads ih => exact Nat.lt_trans (step leads) ih
  exact fun name cycle => Nat.lt_irrefl (rank name) (below cycle)

/-- A ground term leads nowhere, so binding a variable to one closes no cycle. -/
theorem Acyclic.bind_ground (acyclic : bindings.Acyclic) (name : String) {term : Term}
    (ground : term.isGround) : (bindings.bind name term).Acyclic := by
  intro start cycle
  refine acyclic start (Relation.TransGen.mono ?_ start start cycle)
  rintro first second ⟨value, bound, occurs⟩
  rw [get?_bind] at bound
  split at bound
  · -- The new link would start at a ground term, in which no variable occurs.
    cases bound
    exact absurd occurs (Term.isGround_iff_forall.mp ground second)
  · exact ⟨value, bound, occurs⟩

/-! ## The equations of resolving -/

/-- With enough links to the end of every way, more of them change nothing. -/
theorem follow_of_endsWithin {links depth : Nat} {term : Term}
    (ends : ∀ name ∈ term.occurrences, bindings.EndsWithin links name) (le : links ≤ depth) :
    bindings.follow depth term = bindings.follow links term := by
  induction links generalizing depth term with
  | zero =>
    cases term with
    | atom constant => simp
    | list items => simp
    | var name =>
      have unbound : bindings.get? name = none := ends name (by simp [Term.occurrences])
      cases depth <;> simp [follow, unbound]
  | succ links ih =>
    obtain ⟨depth, rfl⟩ := Nat.exists_eq_add_of_lt (Nat.lt_of_succ_le le)
    cases term with
    | atom constant => simp
    | list items => simp
    | var name =>
      cases bound : bindings.get? name with
      | none => simp [follow, bound]
      | some value =>
        simp only [follow, bound]
        refine ih (fun other occurs => ?_) (Nat.le_add_right links depth)
        exact ends name (by simp [Term.occurrences]) other ⟨value, bound, occurs⟩

/-- An unbound variable stands for itself. -/
theorem resolve_var_of_unbound {name : String} (unbound : bindings.get? name = none) :
    bindings.resolve (.var name) = .var name := by
  rw [resolve]
  cases bindings.size <;> simp [follow, unbound]

/-- A bound variable stands for what its term stands for. -/
theorem Acyclic.resolve_var (acyclic : bindings.Acyclic) {name : String} {term : Term}
    (bound : bindings.get? name = some term) :
    bindings.resolve (.var name) = bindings.resolve term := by
  have ends := acyclic.endsWithin name
  rw [resolve, resolve]
  cases size : bindings.size with
  | zero => simp [size, EndsWithin, bound] at ends
  | succ links =>
    rw [size] at ends
    simp only [follow, bound]
    exact (follow_of_endsWithin (fun other occurs => ends other ⟨term, bound, occurs⟩)
      (Nat.le_succ links)).symm

/-- Resolving ends at an unbound variable, if at a variable at all. -/
theorem Acyclic.unbound_of_resolve (acyclic : bindings.Acyclic) {term : Term} {name : String}
    (resolved : bindings.resolve term = .var name) : bindings.get? name = none := by
  cases term with
  | atom constant => simp at resolved
  | list items => simp at resolved
  | var start =>
    induction start using acyclic.induct with
    | step start ih =>
      cases bound : bindings.get? start with
      | none =>
        rw [resolve_var_of_unbound bound] at resolved
        cases resolved
        exact bound
      | some value =>
        -- The same variable is reached from the term, one link further on.
        rw [acyclic.resolve_var bound] at resolved
        cases value with
        | atom constant => simp at resolved
        | list items => simp at resolved
        | var next => exact ih next ⟨_, bound, by simp [Term.occurrences]⟩ resolved

/-! ## The equations of substituting -/

/-- Without a bound variable in it, a term stays as it is. -/
theorem substituteWithin_of_unbound {term : Term}
    (unbound : ∀ name ∈ term.occurrences, bindings.get? name = none) (depth : Nat) :
    bindings.substituteWithin depth term = term := by
  cases depth with
  | zero => rw [substituteWithin]
  | succ depth =>
    rw [substituteWithin]
    refine Eq.trans ?_ term.instantiate_var_self
    exact Term.instantiate_congr term fun name occurs => by rw [unbound name occurs]

/-- With enough depth for the end of every way, more of it changes nothing. -/
theorem substituteWithin_of_endsWithin {links depth : Nat} {term : Term}
    (ends : ∀ name ∈ term.occurrences, bindings.EndsWithin links name) (le : links ≤ depth) :
    bindings.substituteWithin depth term = bindings.substituteWithin links term := by
  induction links generalizing depth term with
  | zero => rw [substituteWithin_of_unbound ends, substituteWithin]
  | succ links ih =>
    obtain ⟨depth, rfl⟩ := Nat.exists_eq_add_of_lt (Nat.lt_of_succ_le le)
    rw [substituteWithin, substituteWithin]
    refine Term.instantiate_congr term fun name occurs => ?_
    cases bound : bindings.get? name with
    | none => rfl
    | some value =>
      exact ih (fun other inValue => ends name occurs other ⟨value, bound, inValue⟩)
        (Nat.le_add_right links depth)

/-- A term without bound variables stays as it is. -/
theorem substitute_of_unbound {term : Term}
    (unbound : ∀ name ∈ term.occurrences, bindings.get? name = none) :
    bindings.substitute term = term := substituteWithin_of_unbound unbound _

/-- An unbound variable stays. -/
theorem substitute_var_of_unbound {name : String} (unbound : bindings.get? name = none) :
    bindings.substitute (.var name) = .var name :=
  substitute_of_unbound (by simpa [Term.occurrences] using unbound)

/-- A bound variable becomes what its term becomes. -/
theorem Acyclic.substitute_var (acyclic : bindings.Acyclic) {name : String} {term : Term}
    (bound : bindings.get? name = some term) :
    bindings.substitute (.var name) = bindings.substitute term := by
  have ends := acyclic.endsWithin name
  rw [substitute, substitute]
  cases size : bindings.size with
  | zero => simp [size, EndsWithin, bound] at ends
  | succ links =>
    rw [size] at ends
    rw [substituteWithin, Term.instantiate_var, bound]
    exact (substituteWithin_of_endsWithin (fun other occurs => ends other ⟨term, bound, occurs⟩)
      (Nat.le_succ links)).symm

/-- To substitute is to replace all variables at once, each by what it becomes. -/
theorem substitute_eq_instantiate (bindings : Bindings) (term : Term) :
    bindings.substitute term = term.instantiate fun name => bindings.substitute (.var name) := by
  simp only [substitute]
  cases bindings.size with
  | zero => simp only [substituteWithin, Term.instantiate_var_self]
  | succ depth => simp only [substituteWithin, Term.instantiate_var]

/-- Substituting after a replacement is substituting in the values. -/
theorem substitute_instantiate (bindings : Bindings) (value : String → Term) (term : Term) :
    bindings.substitute (term.instantiate value) =
      term.instantiate fun name => bindings.substitute (value name) := by
  rw [substitute_eq_instantiate, Term.instantiate_instantiate]
  exact Term.instantiate_congr term fun name _ => (substitute_eq_instantiate bindings _).symm

/-- An atom becomes itself. -/
@[simp] theorem substitute_atom (bindings : Bindings) (constant : Atom) :
    bindings.substitute (.atom constant) = .atom constant := by
  rw [substitute_eq_instantiate, Term.instantiate_atom]

/-- A list becomes the list of what its items become. -/
@[simp] theorem substitute_list (bindings : Bindings) (items : List Term) :
    bindings.substitute (.list items) = .list (items.map bindings.substitute) := by
  rw [substitute_eq_instantiate, Term.instantiate_list, Term.list.injEq]
  exact List.map_congr_left fun item _ => (substitute_eq_instantiate bindings item).symm

/-- A ground term becomes itself. -/
theorem substitute_of_isGround {term : Term} (ground : term.isGround) :
    bindings.substitute term = term :=
  substitute_of_unbound fun name occurs =>
    absurd occurs (Term.isGround_iff_forall.mp ground name)

/-- A term becomes ground when all its variables do. -/
theorem isGround_substitute {term : Term} :
    (bindings.substitute term).isGround ↔
      ∀ name ∈ term.occurrences, (bindings.substitute (.var name)).isGround := by
  rw [substitute_eq_instantiate, Term.isGround_instantiate]

/-- No bound variable is left. -/
theorem Acyclic.unbound_of_mem_substitute (acyclic : bindings.Acyclic) {term : Term}
    {name : String} (occurs : name ∈ (bindings.substitute term).occurrences) :
    bindings.get? name = none := by
  have ofVariable (start : String) :
      name ∈ (bindings.substitute (.var start)).occurrences → bindings.get? name = none := by
    induction start using acyclic.induct with
    | step start ih =>
      intro occurs
      cases bound : bindings.get? start with
      | none =>
        rw [substitute_var_of_unbound bound] at occurs
        rw [List.mem_singleton.mp occurs, bound]
      | some value =>
        rw [acyclic.substitute_var bound, substitute_eq_instantiate,
          Term.mem_occurrences_instantiate] at occurs
        obtain ⟨other, inValue, occurs⟩ := occurs
        exact ih other ⟨value, bound, inValue⟩ occurs
  rw [substitute_eq_instantiate, Term.mem_occurrences_instantiate] at occurs
  obtain ⟨start, -, occurs⟩ := occurs
  exact ofVariable start occurs

/-- **Substituting reaches a normal form**: a second time it changes nothing. -/
theorem Acyclic.substitute_substitute (acyclic : bindings.Acyclic) (term : Term) :
    bindings.substitute (bindings.substitute term) = bindings.substitute term :=
  substitute_of_unbound fun _ occurs => acyclic.unbound_of_mem_substitute occurs

/-- What a term stands for at its top becomes the same. -/
theorem Acyclic.substitute_resolve (acyclic : bindings.Acyclic) (term : Term) :
    bindings.substitute (bindings.resolve term) = bindings.substitute term := by
  cases term with
  | atom constant => rw [resolve_atom]
  | list items => rw [resolve_list]
  | var name =>
    induction name using acyclic.induct with
    | step name ih =>
      cases bound : bindings.get? name with
      | none => rw [resolve_var_of_unbound bound]
      | some value =>
        rw [acyclic.resolve_var bound, acyclic.substitute_var bound]
        cases value with
        | atom constant => rw [resolve_atom]
        | list items => rw [resolve_list]
        | var next => exact ih next ⟨_, bound, by simp [Term.occurrences]⟩

/-! ## More bindings -/

/-- The bindings keep all those of others. -/
def Extends (bindings given : Bindings) : Prop :=
  ∀ name term, given.get? name = some term → bindings.get? name = some term

/-- Bindings keep themselves. -/
theorem Extends.refl (bindings : Bindings) : bindings.Extends bindings := fun _ _ bound => bound

/-- What is kept twice is kept. -/
theorem Extends.trans {first second third : Bindings} (outer : third.Extends second)
    (inner : second.Extends first) : third.Extends first :=
  fun name term bound => outer name term (inner name term bound)

/-- Binding an unbound variable keeps all bindings. -/
theorem extends_bind_of_unbound {name : String} (unbound : bindings.get? name = none)
    (term : Term) : (bindings.bind name term).Extends bindings := by
  intro other value bound
  have different : name ≠ other := by
    rintro rfl
    simp [unbound] at bound
  rw [get?_bind, if_neg different, bound]

/-- **More bindings finish what fewer began.** -/
theorem Extends.substitute_substitute {given : Bindings} (keeps : bindings.Extends given)
    (acyclicGiven : given.Acyclic) (acyclic : bindings.Acyclic) (term : Term) :
    bindings.substitute (given.substitute term) = bindings.substitute term := by
  have ofTerm {term : Term}
      (ofVariables : ∀ name ∈ term.occurrences, bindings.substitute (given.substitute (.var name)) =
        bindings.substitute (.var name)) :
      bindings.substitute (given.substitute term) = bindings.substitute term := by
    rw [substitute_eq_instantiate given, substitute_instantiate, substitute_eq_instantiate bindings]
    exact Term.instantiate_congr term ofVariables
  have ofVariable (name : String) : bindings.substitute (given.substitute (.var name)) =
      bindings.substitute (.var name) := by
    induction name using acyclicGiven.induct with
    | step name ih =>
      cases bound : given.get? name with
      | none => rw [substitute_var_of_unbound bound]
      | some value =>
        rw [acyclicGiven.substitute_var bound, acyclic.substitute_var (keeps name value bound)]
        exact ofTerm fun other inValue => ih other ⟨value, bound, inValue⟩
  exact ofTerm fun name _ => ofVariable name

end Bindings

end ForwardChaining
