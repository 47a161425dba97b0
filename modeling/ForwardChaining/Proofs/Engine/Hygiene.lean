import ForwardChaining.Proofs.Engine.WellFormed

/-! # Rules are hygienic

The variables of a rule belong to it alone. Facts are ground, so the bindings of a match bind
variables of its rule only, and a rule that is made by a firing inherits them with its environment.
No name of one rule ever meets a name of another.

So each rule can be given other names, together with all rules that it makes, and nothing that can
be seen changes but names in faults and values (`trace_seemAlike`). Step by step, two such engines
hold the same facts, and rules and activations that are pairwise the same up to renamings
(`Renamed`). -/

namespace ForwardChaining

/-! ## Rules under other names -/

/-- One rule is another one under other names. They may know different buckets. -/
structure Rule.IsRenamed (π : Equiv.Perm String) (rule other : Rule) : Prop where
  /-- The number is the same. -/
  id : other.id = rule.id
  /-- The trigger has the other names. -/
  trigger : other.trigger = rule.trigger.rename π
  /-- So has the body. -/
  body : other.body = rule.body.map (Term.rename π)
  /-- So has the environment. -/
  environment : other.environment = rule.environment.rename π

namespace Rule.IsRenamed

variable {π : Equiv.Perm String} {rule other : Rule} (renamed : Rule.IsRenamed π rule other)
include renamed

/-- A renamed rule matches the same ground facts, with renamed matches. -/
theorem matchesAs : rule.MatchesAs (Activation.rename π) other where
  size_eq := by rw [renamed.trigger, Trigger.size_rename]
  match?_eq list ground := by
    have unified := unifyAll_rename π ground rule.trigger.clauses rule.environment
    rw [Rule.match?, Rule.match?, renamed.trigger, renamed.environment, renamed.id, renamed.body,
      Trigger.rename, unified, Option.map_map, Option.map_map]
    rfl

end Rule.IsRenamed

/-- An activation under other names. -/
def Activation.Alike (activation other : Activation) : Prop := ∃ π, other = activation.rename π

/-- Renamed activations are alike, one by one. -/
theorem Activation.forall₂_alike_map (π : Equiv.Perm String) (activations : List Activation) :
    List.Forall₂ Activation.Alike activations (activations.map (Activation.rename π)) := by
  rw [List.forall₂_map_right_iff, List.forall₂_same]
  exact fun activation _ => ⟨π, rfl⟩

/-- Agendas stay alike when alike activations are added. -/
theorem Agenda.forall₂_alike_pushAll {agenda other : Agenda} {activations others : List Activation}
    (waiting : List.Forall₂ Activation.Alike agenda.waiting other.waiting)
    (added : List.Forall₂ Activation.Alike activations others) :
    List.Forall₂ Activation.Alike (agenda.pushAll activations).waiting
      (other.pushAll others).waiting := by
  rw [Agenda.waiting_pushAll, Agenda.waiting_pushAll]
  exact List.rel_append (List.forall₂_reverse_iff.mpr added) waiting

namespace Engine

variable {config : Config} {left right : Engine}

/-! ## Engines under other names -/

/-- Two engines of one configuration with the same facts, and with rules and activations that are
pairwise the same up to renamings. -/
structure Renamed (config : Config) (left right : Engine) : Prop where
  /-- The first engine is well-formed. -/
  wellFormedLeft : left.WellFormed
  /-- So is the second one. -/
  wellFormedRight : right.WellFormed
  /-- The first engine has the configuration. -/
  configLeft : left.config = config
  /-- So has the second one. -/
  configRight : right.config = config
  /-- They have the same facts. -/
  facts : left.facts = right.facts
  /-- Each rule has names of its own. -/
  rules : List.Forall₂ (fun rule other => ∃ π, Rule.IsRenamed π rule other) left.rules.toList
    right.rules.toList
  /-- So has each activation. -/
  waiting : List.Forall₂ Activation.Alike left.agenda.waiting right.agenda.waiting
  /-- Rules have fired equally often. -/
  firings : left.firings = right.firings

/-- A new engine is the same under any names. -/
theorem renamed_new (config : Config) : Renamed config (new config) (new config) where
  wellFormedLeft := wellFormed_new config
  wellFormedRight := wellFormed_new config
  configLeft := rfl
  configRight := rfl
  facts := rfl
  rules := .nil
  waiting := .nil
  firings := rfl

namespace Renamed

variable (renamed : Renamed config left right)
include renamed

/-- The engines have equally many rules. -/
theorem size_rules : left.rules.size = right.rules.size := by
  simpa using renamed.rules.length_eq

/-- The next rule gets the same number in both. -/
theorem newestRule : left.newestRule = right.newestRule := by
  rw [renamed.wellFormedLeft.newest, renamed.wellFormedRight.newest, renamed.size_rules]

/-- Storing a ground fact in both. -/
theorem assertFact {fact : Term} (ground : fact.isGround) :
    Renamed config (left.assertFact fact).2 (right.assertFact fact).2 where
  wellFormedLeft := renamed.wellFormedLeft.assertFact fact
  wellFormedRight := renamed.wellFormedRight.assertFact fact
  configLeft := by rw [assertFact_config, renamed.configLeft]
  configRight := by rw [assertFact_config, renamed.configRight]
  facts := by rw [assertFact_facts ground, assertFact_facts ground, renamed.facts]
  rules := by
    rw [assertFact_rules, assertFact_rules]
    exact renamed.rules
  waiting := by
    have stored : ∀ other ∈ left.facts.push fact, other.isGround :=
      (renamed.wellFormedLeft.withFact ground).ground
    rw [renamed.wellFormedLeft.assertFact_agenda ground,
      renamed.wellFormedRight.assertFact_agenda ground, ← renamed.facts]
    refine Agenda.forall₂_alike_pushAll renamed.waiting (List.rel_flatMap renamed.rules ?_)
    -- The new matches of a rule get the names of that rule.
    rintro rule other ⟨π, isRenamed⟩
    have newMatches := isRenamed.matchesAs.newMatches_eq stored left.facts.size
    dsimp only
    rw [newMatches]
    exact Activation.forall₂_alike_map π _
  firings := by rw [assertFact_firings, assertFact_firings, renamed.firings]

/-- Adding a rule to both, with any names. -/
theorem addRule (π : Equiv.Perm String) (trigger : Trigger) (body : List Term)
    (environment : Bindings) :
    Renamed config (left.addRule trigger body environment).1
      (right.addRule (trigger.rename π) (body.map (Term.rename π)) (environment.rename π)).1 := by
  have isRenamed : Rule.IsRenamed π (left.ruleToAdd trigger body environment)
      (right.ruleToAdd (trigger.rename π) (body.map (Term.rename π)) (environment.rename π)) :=
    ⟨congrArg (· + 1) renamed.newestRule.symm, rfl, rfl, rfl⟩
  refine ⟨renamed.wellFormedLeft.addRule _ _ _, renamed.wellFormedRight.addRule _ _ _,
    renamed.configLeft, renamed.configRight, renamed.facts, ?_, ?_, renamed.firings⟩
  · rw [addRule_rules, addRule_rules, Array.toList_push, Array.toList_push]
    exact List.rel_append renamed.rules (.cons ⟨π, isRenamed⟩ .nil)
  · rw [renamed.wellFormedLeft.addRule_agenda, renamed.wellFormedRight.addRule_agenda,
      ← renamed.facts, isRenamed.matchesAs.allMatches_eq renamed.wellFormedLeft.ground]
    exact Agenda.forall₂_alike_pushAll renamed.waiting (Activation.forall₂_alike_map π _)

end Renamed

/-- **Whatever engines do, they do under any names**, chosen for each rule. -/
theorem renamed_simulation (config : Config) :
    SimulationUpTo Set.univ (Renamed config) fun _ => True where
  evaluation π _ :=
    { assertFact := by
        intro left right renamed fact
        by_cases ground : fact.isGround
        · have next := renamed.assertFact ground
          rw [Term.rename_of_isGround π ground]
          refine ⟨?_, next⟩
          show (right.assertFact fact).1 = renameResult π id (left.assertFact fact).1
          rw [assertFact_of_ground ground, assertFact_of_ground ground, renamed.facts]
          rfl
        · have notGround : ¬ (fact.rename π).isGround := by rwa [Term.isGround_rename]
          show AgreeUpTo _ (Renamed config) (left.assertFact fact)
            (right.assertFact (fact.rename π))
          rw [assertFact_of_not_ground ground, assertFact_of_not_ground notGround]
          exact ⟨rfl, renamed⟩
      addRule := by
        intro left right renamed environment _ trigger body
        exact ⟨congrArg (· + 1) renamed.newestRule.symm,
          renamed.addRule π trigger body environment⟩ }
  refl_mem := trivial
  marker renamed := congrArg Config.marker (renamed.configLeft.trans renamed.configRight.symm)
  empty := trivial
  takeNewest? := by
    intro left right renamed
    have waiting := renamed.waiting
    cases ofLeft : left.agenda.waiting with
    | nil =>
      rw [ofLeft, List.forall₂_nil_left_iff] at waiting
      exact .inl ⟨takeNewest?_eq_none_iff.mpr ofLeft, takeNewest?_eq_none_iff.mpr waiting⟩
    | cons activation others =>
      rw [ofLeft, List.forall₂_cons_left_iff] at waiting
      obtain ⟨_, rest, ⟨π, rfl⟩, restAlike, ofRight⟩ := waiting
      have takenLeft := takeNewest?_eq_some_iff.mpr ⟨others, ofLeft, rfl⟩
      have takenRight := takeNewest?_eq_some_iff.mpr ⟨rest, ofRight, rfl⟩
      refine .inr ⟨π, trivial, activation, _, _, takenLeft, takenRight, trivial, ?_⟩
      exact
        { wellFormedLeft := (wellFormed_invariant.takeNewest? renamed.wellFormedLeft takenLeft).2
          wellFormedRight := (wellFormed_invariant.takeNewest? renamed.wellFormedRight takenRight).2
          configLeft := renamed.configLeft
          configRight := renamed.configRight
          facts := renamed.facts
          rules := renamed.rules
          waiting := restAlike
          firings := congrArg (· + 1) renamed.firings }

end Engine

/-! ## Histories under other names -/

/-- Other names under which all variables of some terms stay different. -/
def Separates (names : String → String) (terms : List Term) : Prop :=
  Set.InjOn names {name | name ∈ terms.flatMap Term.occurrences}

/-- On these terms, such names are those of a permutation of all names. -/
theorem Separates.exists_perm {names : String → String} {terms : List Term}
    (separates : Separates names terms) :
    ∃ π : Equiv.Perm String, ∀ term ∈ terms, term.rename names = term.rename π := by
  obtain ⟨π, agree⟩ := exists_perm_of_injOn separates
  refine ⟨π, fun term member => Term.rename_congr fun name occurs => (agree name ?_).symm⟩
  exact List.mem_flatMap.mpr ⟨term, member, occurs⟩

/-- One call is another one after renaming: the same call, or a rule or a form without bindings, or
a program, in which each rule and each form has other names for its variables. -/
inductive Call.Renames (marker : Char) : Call → Call → Prop where
  /-- Nothing is renamed. -/
  | same (call : Call) : Renames marker call call
  /-- A rule is added under other names. -/
  | addRule (trigger : Trigger) (body : List Term) {names : String → String}
    (separates : Separates names (trigger.clauses ++ body)) :
    Renames marker (.addRule trigger body ∅)
      (.addRule (trigger.rename names) (body.map (Term.rename names)) ∅)
  /-- A form is evaluated under other names, such as one that adds a rule. -/
  | evaluate (form : Term) {names : String → String} (separates : Separates names [form]) :
    Renames marker (.evaluate ∅ form) (.evaluate ∅ (form.rename names))
  /-- Each form of a program has other names. -/
  | runProgram (limit : Nat) {text other : String} {forms others : List Term}
    (read : readProgram marker text = .ok forms)
    (readOther : readProgram marker other = .ok others)
    (each : List.Forall₂ (fun form other => ∃ names, Separates names [form] ∧
      other = form.rename names) forms others) :
    Renames marker (.runProgram limit text) (.runProgram limit other)

/-- Renaming without making variables equal is renaming by permutations. -/
theorem Call.Renames.alikeUpTo {marker : Char} {call other : Call}
    (renames : call.Renames marker other) : call.AlikeUpTo Set.univ marker other := by
  cases renames with
  | same => exact call.alikeUpTo_self (Set.mem_univ _) marker
  | addRule trigger body separates =>
    obtain ⟨π, agree⟩ := separates.exists_perm
    obtain ⟨clauses, forms⟩ := List.forall_mem_append.mp agree
    have alike : AlikeUpTo Set.univ marker _ _ := .addRule (Set.mem_univ π) trigger body ∅
    rw [Bindings.rename_empty] at alike
    rw [Trigger.rename_congr clauses, List.map_congr_left forms]
    exact alike
  | evaluate form separates =>
    obtain ⟨π, agree⟩ := separates.exists_perm
    have alike : AlikeUpTo Set.univ marker _ _ := .evaluate (Set.mem_univ π) ∅ form
    rw [Bindings.rename_empty] at alike
    rw [agree form List.mem_cons_self]
    exact alike
  | runProgram limit read readOther each =>
    refine .runProgram limit read readOther (each.imp ?_)
    rintro form _ ⟨names, separates, rfl⟩
    obtain ⟨π, agree⟩ := separates.exists_perm
    exact ⟨π, trivial, agree form List.mem_cons_self⟩

/-- The responses to calls, each with the system that it leaves. -/
def trace {σ : Type} [ProductionSystem σ] (system : σ) : List Call → List (Response × σ)
  | [] => []
  | call :: calls => call.perform system :: trace (call.perform system).2 calls

/-- What is seen after a call, and after the same call under other names. -/
structure SeemAlike (left right : Response × Engine) : Prop where
  /-- The responses are equal up to the names of variables: they give the same numbers, they report
  the same firings in the same order, and if one of them is a fault so is the other, of the same
  kind. -/
  response : ∃ π : Equiv.Perm String, right.1 = left.1.rename π
  /-- The facts are the same, in the same order. -/
  facts : left.2.facts = right.2.facts
  /-- Equally many activations wait. -/
  waiting : left.2.agenda.size = right.2.agenda.size
  /-- There are equally many rules. -/
  rules : left.2.rules.size = right.2.rules.size
  /-- Rules have fired equally often. -/
  firings : left.2.firings = right.2.firings

namespace Engine

variable {config : Config} {left right : Engine}

/-- Two engines that are the same up to renamings go through the same calls alike. -/
theorem Renamed.trace (renamed : Renamed config left right) {calls others : List Call}
    (renames : List.Forall₂ (Call.Renames config.marker) calls others) :
    List.Forall₂ SeemAlike (trace left calls) (trace right others) := by
  induction renames generalizing left right with
  | nil => exact .nil
  | @cons call other _ _ first _ ih =>
    have alike := first.alikeUpTo
    rw [← renamed.configLeft] at alike
    obtain ⟨π, -, result, next⟩ := (renamed_simulation config).perform renamed alike
      (call.supplies_of_forall fun _ => trivial)
    exact .cons ⟨⟨π, result⟩, next.facts, next.waiting.length_eq, next.size_rules, next.firings⟩
      (ih next)

/-- **Rules are hygienic.** Take any history of calls, and give each rule that is added without
bindings, and each form that is evaluated or stands in a program, other names for its variables,
chosen for each of them such that different variables stay different. Then, call by call, both
histories lead to the same facts in the same order, with equally many rules, waiting activations and
firings, and to responses that are equal up to the names of variables. -/
theorem trace_seemAlike (config : Config) {calls others : List Call}
    (renames : List.Forall₂ (Call.Renames config.marker) calls others) :
    List.Forall₂ SeemAlike (ForwardChaining.trace (new config) calls)
      (ForwardChaining.trace (new config) others) :=
  (renamed_new config).trace renames

/-- A rule that makes rules, with its two names exchanged, and a program under another name. -/
theorem trace_seemAlike_implies :
    let symbol (name : String) : Term := .atom (.symbol name)
    let implies (left right : Term) : Term := .list [symbol "implies", left, right]
    let makesRule (left right : String) : Term :=
      .list [symbol "rule", .var left, .list [symbol "assert!", .var right]]
    let facts : List Call := [.assertFact (.list [symbol "rain"]),
      .assertFact (implies (.list [symbol "rain"]) (.list [symbol "wet"])), .runRules 5]
    List.Forall₂ SeemAlike
      (ForwardChaining.trace (new {}) (.addRule (.single (implies (.var "?p") (.var "?q")))
        [makesRule "?p" "?q"] ∅ :: .runProgram 5 "(rule (wet) (assert! ?x))" :: facts))
      (ForwardChaining.trace (new {}) (.addRule (.single (implies (.var "?q") (.var "?p")))
        [makesRule "?q" "?p"] ∅ :: .runProgram 5 "(rule (wet) (assert! ?y))" :: facts)) := by
  intro symbol implies makesRule facts
  let conclude (name : String) : Term :=
    .list [symbol "rule", .list [symbol "wet"], .list [symbol "assert!", .var name]]
  have read : readProgram defaultMarker "(rule (wet) (assert! ?x))" = .ok [conclude "?x"] := by
    decide +kernel
  have readOther : readProgram defaultMarker "(rule (wet) (assert! ?y))" = .ok [conclude "?y"] := by
    decide +kernel
  have renamed : conclude "?y" = (conclude "?x").rename (Equiv.swap "?x" "?y") := by
    simp [conclude, symbol]
  refine trace_seemAlike {} (.cons ?_ (.cons ?_ (List.forall₂_same.mpr fun call _ => .same call)))
  · have exchanged : Call.Renames defaultMarker _ _ :=
      .addRule (.single (implies (.var "?p") (.var "?q"))) [makesRule "?p" "?q"]
        (Equiv.swap "?p" "?q").injective.injOn
    simpa [implies, makesRule, symbol, Trigger.single, Trigger.rename] using exchanged
  · exact .runProgram 5 read readOther
      (.cons ⟨_, (Equiv.swap "?x" "?y").injective.injOn, renamed⟩ .nil)

end Engine

end ForwardChaining
