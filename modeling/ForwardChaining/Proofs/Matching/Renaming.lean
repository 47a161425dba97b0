import ForwardChaining.Matching.Trigger
import ForwardChaining.Matching.Unification
import ForwardChaining.Proofs.Matching.Acyclic
import Mathlib.Logic.Equiv.Fintype

/-! # Renaming variables

Matching looks at the names of variables only to tell them apart. So a permutation of all names,
applied to terms and bindings alike, carries over to everything that is computed from them: to what
terms resolve to, to what substitution makes of them, and to the bindings that unify them
(`unifyAll_rename`). Ground facts stay as they are.

Renaming finitely many names without making two of them equal is what some permutation does
(`exists_perm_of_injOn`). -/

namespace ForwardChaining

variable (π : Equiv.Perm String)

/-! ## Terms -/

namespace Term

/-- The term with other names for its variables. -/
def rename (names : String → String) (term : Term) : Term :=
  term.instantiate fun name => .var (names name)

/-- An atom has no variables. -/
@[simp] theorem rename_atom (names : String → String) (constant : Atom) :
    (atom constant).rename names = atom constant := rfl

/-- A variable gets its other name. -/
@[simp] theorem rename_var (names : String → String) (name : String) :
    (var name).rename names = var (names name) := rfl

/-- A list is renamed item by item. -/
@[simp] theorem rename_list (names : String → String) (items : List Term) :
    (list items).rename names = list (items.map (rename names)) := instantiate_list _ _

/-- Only the names of the variables that occur matter. -/
theorem rename_congr {first second : String → String} {term : Term}
    (agree : ∀ name ∈ term.occurrences, first name = second name) :
    term.rename first = term.rename second :=
  instantiate_congr term fun name occurs => congrArg var (agree name occurs)

/-- Keeping all names changes nothing. -/
@[simp] theorem rename_id : rename id = id := funext instantiate_var_self

/-- A ground term stays as it is. -/
theorem rename_of_isGround (names : String → String) {term : Term} (ground : term.isGround) :
    term.rename names = term := by
  have same : term.rename names = term.rename id :=
    rename_congr fun name occurs => absurd occurs (isGround_iff_forall.mp ground name)
  rw [same, rename_id, id]

/-- Only ground terms become ground. -/
@[simp] theorem isGround_rename (names : String → String) (term : Term) :
    (term.rename names).isGround = term.isGround := by
  rw [Bool.eq_iff_iff, rename, isGround_instantiate, isGround_iff_forall]
  simp [isGround]

/-- Renaming back what was renamed gives the term again. -/
@[simp] theorem rename_symm_rename (term : Term) : (term.rename π).rename π.symm = term := by
  rw [rename, rename, instantiate_instantiate]
  simp only [instantiate_var, Equiv.symm_apply_apply, instantiate_var_self]

/-- Different terms stay different. -/
theorem rename_injective : Function.Injective (rename π) :=
  Function.LeftInverse.injective (rename_symm_rename π)

/-- Terms keep their size. -/
@[simp] theorem size_rename (names : String → String) (term : Term) :
    (term.rename names).size = term.size := by
  induction term with
  | atom constant => rfl
  | var name => rfl
  | list items ih =>
    have sizes : itemsSize (items.map (rename names)) = itemsSize items := by
      induction items with
      | nil => rfl
      | cons item items ihItems =>
        obtain ⟨first, others⟩ := List.forall_mem_cons.mp ih
        rw [List.map_cons, itemsSize, itemsSize, first, ihItems others]
    rw [rename_list, size, size, sizes]

/-- Lists stay lists, and nothing else becomes one. -/
@[simp] theorem isList_rename (names : String → String) (term : Term) :
    (term.rename names).isList = term.isList := by
  cases term with
  | list items =>
    rw [rename_list]
    rfl
  | _ => rfl

/-- Symbols stay, and nothing else becomes one. -/
@[simp] theorem symbol?_rename (names : String → String) (term : Term) :
    (term.rename names).symbol? = term.symbol? := by
  cases term with
  | list items =>
    rw [rename_list]
    rfl
  | _ => rfl

/-- Replacing variables after renaming them. -/
theorem instantiate_rename (names : String → String) (value : String → Term) (term : Term) :
    (term.rename names).instantiate value = term.instantiate fun name => value (names name) := by
  rw [rename, instantiate_instantiate]
  rfl

/-- Renaming after replacing variables. -/
theorem rename_instantiate (names : String → String) (value : String → Term) (term : Term) :
    (term.instantiate value).rename names =
      term.instantiate fun name => (value name).rename names :=
  instantiate_instantiate _ _ _

end Term

/-- Names that stay different are permuted among all names. -/
theorem exists_perm_of_injOn {names : String → String} {list : List String}
    (injective : Set.InjOn names {name | name ∈ list}) :
    ∃ π : Equiv.Perm String, ∀ name ∈ list, π name = names name := by
  obtain ⟨π, extends_⟩ := Equiv.Perm.exists_extending_pair
    (Subtype.val : {name // name ∈ list} → String) (fun name => names name.val)
    Subtype.val_injective
    fun left right equal => Subtype.ext (injective left.property right.property equal)
  exact ⟨π, fun name member => extends_ ⟨name, member⟩⟩

/-! ## Triggers -/

/-- A trigger with other names for its variables. -/
def Trigger.rename (names : String → String) (trigger : Trigger) : Trigger :=
  ⟨trigger.clauses.map (Term.rename names),
    fun empty => trigger.clauses_ne_nil (List.map_eq_nil_iff.mp empty)⟩

/-- The number of clauses stays. -/
@[simp] theorem Trigger.size_rename (names : String → String) (trigger : Trigger) :
    (trigger.rename names).size = trigger.size := List.length_map _

/-- Only the names of the variables in the clauses matter. -/
theorem Trigger.rename_congr {first second : String → String} {trigger : Trigger}
    (agree : ∀ clause ∈ trigger.clauses, clause.rename first = clause.rename second) :
    trigger.rename first = trigger.rename second := by
  simp only [rename, List.map_congr_left agree]

/-- Keeping all names changes nothing. -/
@[simp] theorem Trigger.rename_id : Trigger.rename id = id := by
  funext trigger
  simp [Trigger.rename]

/-- A term writes down its trigger under all names. -/
theorem Trigger.ofTerm_rename (names : String → String) (term : Term) :
    Trigger.ofTerm (term.rename names) = (Trigger.ofTerm term).rename names := by
  match term with
  | .atom constant => rfl
  | .var name => rfl
  | .list [] => rfl
  | .list (first :: rest) =>
    have lists : (first.rename names :: rest.map (Term.rename names)).all Term.isList =
        (first :: rest).all Term.isList := by simp [Function.comp_def]
    rw [Term.rename_list, List.map_cons, ofTerm, ofTerm]
    by_cases all : (first :: rest).all Term.isList
    · rw [if_pos all, if_pos (lists.trans all)]
      rfl
    · rw [if_neg all, if_neg (lists ▸ all)]
      simp [single, Trigger.rename]

/-! ## Bindings -/

namespace Bindings

/-- What a variable is bound to by pairs for different variables. -/
theorem get?_ofList {pairs : List (String × Term)} (nodup : (pairs.map (·.1)).Nodup)
    {name : String} {term : Term} :
    (ofList pairs).get? name = some term ↔ (name, term) ∈ pairs := by
  induction pairs using List.reverseRecOn with
  | nil => simp [ofList]
  | append_singleton pairs last ih =>
    obtain ⟨lastName, lastTerm⟩ := last
    rw [List.map_append, List.map_singleton, List.nodup_append] at nodup
    obtain ⟨nodupPairs, -, apart⟩ := nodup
    -- The last name is new, so no earlier pair is overwritten.
    have fresh : ∀ other, (lastName, other) ∉ pairs := fun other member =>
      apart lastName (List.mem_map_of_mem member) lastName List.mem_cons_self rfl
    have snoc : ofList (pairs ++ [(lastName, lastTerm)]) =
        (ofList pairs).bind lastName lastTerm := by simp [ofList]
    rw [snoc, get?_bind, List.mem_append, List.mem_singleton]
    by_cases same : lastName = name
    · subst same
      simp [fresh, eq_comm]
    · simp [same, ih nodupPairs, Ne.symm same]

/-- The bound variables are listed once. -/
theorem nodup_names (bindings : Bindings) : (bindings.toList.map (·.1)).Nodup := by
  rw [toList, Std.ExtTreeMap.map_fst_toList_eq_keys]
  exact Std.ExtTreeMap.nodup_keys

/-- The bindings with other names for their variables. -/
def rename (bindings : Bindings) : Bindings :=
  ofList (bindings.toList.map fun (name, term) => (π name, term.rename π))

/-- The renamed pairs are for different variables. -/
theorem nodup_renamed (bindings : Bindings) :
    ((bindings.toList.map fun (name, term) => (π name, Term.rename π term)).map (·.1)).Nodup := by
  have names := bindings.nodup_names.map π.injective
  rw [List.map_map] at names ⊢
  exact names

/-- A renamed variable is bound to the renamed term. -/
theorem get?_rename_apply (bindings : Bindings) (name : String) :
    (bindings.rename π).get? (π name) = (bindings.get? name).map (Term.rename π) := by
  ext term
  rw [rename, get?_ofList (nodup_renamed π bindings), List.mem_map, Option.map_eq_some_iff]
  constructor
  · rintro ⟨⟨other, value⟩, member, equal⟩
    obtain ⟨sameName, rfl⟩ := Prod.mk.inj equal
    rw [mem_toList, π.injective sameName] at member
    exact ⟨value, member, rfl⟩
  · rintro ⟨value, bound, rfl⟩
    exact ⟨(name, value), mem_toList.mpr bound, rfl⟩

/-- No bindings are no bindings. -/
@[simp] theorem rename_empty : (∅ : Bindings).rename π = ∅ := by
  ext name term
  obtain ⟨name, rfl⟩ := π.surjective name
  simp [get?_rename_apply]

/-- Keeping all names changes nothing. -/
@[simp] theorem rename_refl (bindings : Bindings) : bindings.rename (.refl String) = bindings := by
  ext name term
  have same : (bindings.rename (.refl String)).get? name =
      (bindings.get? name).map (Term.rename id) := get?_rename_apply (.refl String) bindings name
  rw [same, Term.rename_id, Option.map_id, id]

/-- Binding a variable under all names. -/
theorem rename_bind (bindings : Bindings) (name : String) (term : Term) :
    (bindings.bind name term).rename π = (bindings.rename π).bind (π name) (term.rename π) := by
  ext other value
  obtain ⟨other, rfl⟩ := π.surjective other
  rw [get?_rename_apply, get?_bind, get?_bind, get?_rename_apply, apply_ite (Option.map _)]
  simp only [Option.map_some, π.injective.eq_iff]

/-- The renamed bindings consist of the renamed pairs. -/
theorem toList_rename_perm (bindings : Bindings) : (bindings.rename π).toList.Perm
    (bindings.toList.map fun (name, term) => (π name, term.rename π)) := by
  have nodup := List.Nodup.of_map _ (nodup_renamed π bindings)
  have nodupRenamed := List.Nodup.of_map _ (bindings.rename π).nodup_names
  rw [List.perm_ext_iff_of_nodup nodupRenamed nodup]
  intro pair
  exact mem_toList.trans (get?_ofList (nodup_renamed π bindings))

/-- There are as many bindings. -/
@[simp] theorem size_rename (bindings : Bindings) : (bindings.rename π).size = bindings.size := by
  have lengths := (toList_rename_perm π bindings).length_eq
  rw [List.length_map, toList, toList, Std.ExtTreeMap.length_toList,
    Std.ExtTreeMap.length_toList] at lengths
  exact lengths

/-- They are as large. -/
@[simp] theorem weight_rename (bindings : Bindings) :
    (bindings.rename π).weight = bindings.weight := by
  -- The renamed pairs come in another order, but the sizes are added up.
  have rightCommutative :
      RightCommutative fun (total : Nat) (pair : String × Term) => total + pair.2.size :=
    ⟨fun total first second => Nat.add_right_comm ..⟩
  rw [weight, weight, Std.ExtTreeMap.foldl_eq_foldl_toList, Std.ExtTreeMap.foldl_eq_foldl_toList]
  refine ((toList_rename_perm π bindings).foldl_eq 0).trans ?_
  simp [List.foldl_map, toList]

/-! ## Following links -/

/-- Links are followed under all names. -/
theorem follow_rename (bindings : Bindings) (links : Nat) (term : Term) :
    (bindings.rename π).follow links (term.rename π) = (bindings.follow links term).rename π := by
  induction links generalizing term with
  | zero =>
    cases term with
    | list items => simp
    | _ => rfl
  | succ links ih =>
    cases term with
    | atom constant => rfl
    | list items => simp
    | var name =>
      rw [Term.rename_var, follow, follow, get?_rename_apply]
      cases bindings.get? name with
      | none => rfl
      | some value => exact ih value

/-- Terms stand for the same under all names. -/
theorem resolve_rename (bindings : Bindings) (term : Term) :
    (bindings.rename π).resolve (term.rename π) = (bindings.resolve term).rename π := by
  rw [resolve, resolve, size_rename, follow_rename]

/-- Variables are replaced under all names. -/
theorem substituteWithin_rename (bindings : Bindings) (depth : Nat) (term : Term) :
    (bindings.rename π).substituteWithin depth (term.rename π) =
      (bindings.substituteWithin depth term).rename π := by
  induction depth generalizing term with
  | zero => rfl
  | succ depth ih =>
    rw [substituteWithin, substituteWithin, Term.instantiate_rename, Term.rename_instantiate]
    refine Term.instantiate_congr term fun name _ => ?_
    rw [get?_rename_apply]
    cases bindings.get? name with
    | none => rfl
    | some value => exact ih value

/-- **Substitution does not look at names.** -/
theorem substitute_rename (bindings : Bindings) (term : Term) :
    (bindings.rename π).substitute (term.rename π) = (bindings.substitute term).rename π := by
  rw [substitute, substitute, size_rename, substituteWithin_rename]

end Bindings

/-! ## Unification -/

/-- The outcome of a unification under other names. -/
def Unification.rename : Unification → Unification
  | .unified bindings => .unified (bindings.rename π)
  | .clash => .clash
  | .unfinished => .unfinished

/-- Pairs are unified under all names when each pair is. -/
theorem unifyPairs_rename {step : Term → Term → Bindings → Unification} {lefts : List Term}
    (each : ∀ left right bindings,
      step (left.rename π) (right.rename π) (bindings.rename π) =
        (step left right bindings).rename π) (rights : List Term) (bindings : Bindings) :
    unifyPairs step (lefts.map (Term.rename π)) (rights.map (Term.rename π)) (bindings.rename π) =
      (unifyPairs step lefts rights bindings).rename π := by
  induction lefts generalizing rights bindings with
  | nil => cases rights <;> rfl
  | cons left lefts ih =>
    cases rights with
    | nil => rfl
    | cons right rights =>
      rw [List.map_cons, List.map_cons, unifyPairs, unifyPairs, each]
      cases step left right bindings with
      | unified next => exact ih rights next
      | clash => rfl
      | unfinished => rfl

/-- Two terms are unified under all names, within any depth. -/
theorem unifyWithin_rename (depth : Nat) (left right : Term) (bindings : Bindings) :
    unifyWithin depth (left.rename π) (right.rename π) (bindings.rename π) =
      (unifyWithin depth left right bindings).rename π := by
  induction depth generalizing left right bindings with
  | zero => rfl
  | succ depth ih =>
    -- Whichever side stands for an unbound variable, the same variable is bound.
    have bound (name : String) (term : Term) :
        Unification.unified ((bindings.rename π).bind (π name) (term.rename π)) =
          (Unification.unified (bindings.bind name term)).rename π :=
      congrArg Unification.unified (Bindings.rename_bind π bindings name term).symm
    rw [unifyWithin, unifyWithin, Bindings.resolve_rename, Bindings.resolve_rename]
    cases bindings.resolve left with
    | atom constant =>
      cases bindings.resolve right with
      | atom other =>
        dsimp only [Term.rename_atom]
        split <;> rfl
      | var name => exact bound name (.atom constant)
      | list items =>
        rw [Term.rename_list]
        rfl
    | var name =>
      cases bindings.resolve right with
      | atom constant => exact bound name (.atom constant)
      | var other =>
        simp only [Term.rename_var, π.injective.eq_iff]
        split
        · rfl
        · exact bound name (.var other)
      | list items => exact bound name (.list items)
    | list lefts =>
      cases bindings.resolve right with
      | atom constant =>
        rw [Term.rename_list]
        rfl
      | var name => exact bound name (.list lefts)
      | list rights =>
        simp only [Term.rename_list, List.length_map]
        split
        · exact unifyPairs_rename π ih rights bindings
        · rfl

/-- Two terms are unified under all names. -/
theorem unify_rename (left right : Term) (bindings : Bindings) :
    unify (left.rename π) (right.rename π) (bindings.rename π) =
      (unify left right bindings).map (Bindings.rename π) := by
  have sameDepth : unificationDepth (left.rename π) (right.rename π) (bindings.rename π) =
      unificationDepth left right bindings := by simp [unificationDepth]
  rw [unify, unify, sameDepth, unifyWithin_rename]
  cases unifyWithin (unificationDepth left right bindings) left right bindings <;> rfl

/-- **Matching ground facts does not look at names.** -/
theorem unifyAll_rename {facts : List Term} (ground : ∀ fact ∈ facts, fact.isGround)
    (clauses : List Term) (bindings : Bindings) :
    unifyAll facts (clauses.map (Term.rename π)) (bindings.rename π) =
      (unifyAll facts clauses bindings).map (Bindings.rename π) := by
  induction facts generalizing clauses bindings with
  | nil => cases clauses <;> rfl
  | cons fact facts ih =>
    obtain ⟨groundFact, groundFacts⟩ := List.forall_mem_cons.mp ground
    cases clauses with
    | nil => rfl
    | cons clause clauses =>
      have first := unify_rename π fact clause bindings
      rw [Term.rename_of_isGround π groundFact] at first
      rw [List.map_cons, unifyAll, unifyAll, first]
      cases unify fact clause bindings with
      | none => rfl
      | some next => exact ih groundFacts clauses next

end ForwardChaining
