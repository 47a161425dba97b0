import ForwardChaining.Engine.System
import ForwardChaining.Matching.CrossProduct

/-! # The engine

An engine holds facts, rules, the index of both, and the agenda. Facts and rules are only ever
added. Adding one finds every match that it completes:

* a new rule is matched against all tuples of stored facts;
* a new fact is tried at every clause it could match. There, earlier clauses take older facts only
  and later clauses take any, so a tuple that holds the new fact in several places is found once, at
  the first of them.

Facts may be stored more than once, and every copy matches on its own. -/

namespace ForwardChaining

/-- What can be chosen about an engine. -/
structure Config where
  /-- The name that the engine shows. -/
  title : String := "LTRE"
  /-- The first character of variables in programs. -/
  marker : Char := defaultMarker
  /-- Whether the owner asked for more details on its work. -/
  debugging : Bool := false
  deriving DecidableEq, Repr

instance : Inhabited Config := ⟨{}⟩

/-- A production-rule engine. -/
structure Engine where
  /-- The choices made at its creation. -/
  config : Config
  /-- The facts in the order of assertion. -/
  facts : Array Term
  /-- The rules in the order of creation. -/
  rules : Array Rule
  /-- The facts and the clauses of the rules by signature. -/
  index : Index
  /-- The matches that have not fired. -/
  agenda : Agenda
  /-- The number of the newest rule, or zero. -/
  newestRule : RuleId
  /-- How often rules have fired. -/
  firings : Nat

namespace Engine

/-- The engine without facts and rules. -/
def new (config : Config) : Engine := ⟨config, #[], #[], ∅, ∅, 0, 0⟩

instance : Inhabited Engine := ⟨new {}⟩

/-- The rule with a number. -/
def rule? (engine : Engine) (id : RuleId) : Option Rule :=
  if id = 0 then none else engine.rules[id - 1]?

/-- The facts that could match a term, in the order of assertion. -/
def candidates (engine : Engine) (pattern : Term) : List FactId :=
  engine.index.lookupFacts (Signature.of pattern)

/-- The terms of some facts. -/
def factsAt (engine : Engine) (ids : List FactId) : List Term :=
  ids.filterMap (engine.facts[·]?)

/-- Tries every tuple that takes a fact from each list, the first list varying slowest, and returns
the matches. -/
def findMatches (engine : Engine) (rule : Rule) (candidates : List (List FactId)) :
    List Activation :=
  (CrossProduct.ofLists (candidates.map List.toArray)).filterMap fun tuple =>
    (unifyAll (engine.factsAt tuple) rule.trigger.clauses rule.environment).map fun bindings =>
      ⟨rule.id, rule.body, bindings⟩

/-- Puts matches on the agenda. -/
def queue (engine : Engine) (activations : List Activation) : Engine :=
  { engine with agenda := engine.agenda.pushAll activations }

/-! ## Adding a rule -/

/-- Puts the clauses of a rule into the index, from some position on, and returns their buckets. -/
def indexClauses (id : RuleId) (position : Nat) : List Term → Index → Index × List BucketId
  | [], index => (index, [])
  | clause :: clauses, index =>
    let (index, bucket) := index.insertClause (Signature.of clause) ⟨id, position⟩
    let (index, buckets) := indexClauses id (position + 1) clauses index
    (index, bucket :: buckets)

/-- Adds a rule whose matches extend `environment`, and queues its matches with the stored facts. -/
def addRule (engine : Engine) (trigger : Trigger) (body : List Term) (environment : Bindings) :
    Engine × RuleId :=
  let id := engine.newestRule + 1
  let (index, buckets) := indexClauses id 0 trigger.clauses engine.index
  let engine := { engine with index := index, newestRule := id }
  let rule : Rule := ⟨id, trigger, body, environment, buckets⟩
  let activations := engine.findMatches rule (trigger.clauses.map engine.candidates)
  (({ engine with rules := engine.rules.push rule } : Engine).queue activations, id)

/-! ## Asserting a fact -/

/-- The facts to try at the clauses of a trigger, from some position on, when `fact` is fixed at the
clause `fixed`. -/
def candidatesAround (engine : Engine) (fact : FactId) (fixed position : Nat) :
    List Term → List (List FactId)
  | [] => []
  | clause :: clauses =>
    (if position = fixed then [fact]
    else if position < fixed then (engine.candidates clause).filter (· < fact)
    else engine.candidates clause) :: engine.candidatesAround fact fixed (position + 1) clauses

/-- The matches of one rule that hold `fact` at a clause, and only older facts before it. -/
def matchesAt (engine : Engine) (fact : FactId) (clause : ClauseRef) : List Activation :=
  match engine.rule? clause.rule with
  | none => []
  | some rule =>
    engine.findMatches rule (engine.candidatesAround fact clause.clause 0 rule.trigger.clauses)

/-- Stores a ground fact and queues the matches that it completes. -/
def assertFact (engine : Engine) (fact : Term) : Except Fault FactId × Engine :=
  if fact.isGround then
    let id := engine.facts.size
    let signature := Signature.of fact
    let (index, _) := engine.index.insertFact signature id
    let engine := { engine with facts := engine.facts.push fact, index := index }
    let clauses := engine.index.lookupClauses signature
    (.ok id, engine.queue (clauses.flatMap (engine.matchesAt id)))
  else (.error (.nonGroundFact fact), engine)

/-! ## Firing -/

/-- Takes the newest activation off the agenda and counts it as fired. -/
def takeNewest? (engine : Engine) : Option (Activation × Engine) :=
  engine.agenda.pop?.map fun (activation, agenda) =>
    (activation, { engine with agenda := agenda, firings := engine.firings + 1 })

instance : ProductionSystem Engine where
  assertFact := assertFact
  addRule := addRule
  takeNewest? := takeNewest?
  marker engine := engine.config.marker

/-! ## Questions -/

/-- Whether a fact is stored. -/
def containsFact (engine : Engine) (fact : Term) : Bool :=
  (engine.factsAt (engine.candidates fact)).contains fact

/-- The facts that unify with a pattern, in the order of assertion. -/
def fetch (engine : Engine) (pattern : Term) : List Term :=
  (engine.factsAt (engine.candidates pattern)).filter fun fact => (unify fact pattern ∅).isSome

/-- The text of an engine: its title and how much it holds. -/
def text (engine : Engine) : String :=
  engine.config.title ++ "(" ++ engine.rules.size.repr ++ " rules, " ++ engine.facts.size.repr ++
    " facts, " ++ engine.index.size.repr ++ " dbclasses)"

end Engine

end ForwardChaining
