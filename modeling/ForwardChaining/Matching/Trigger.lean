import ForwardChaining.Term.Basic

/-! # Triggers

A trigger is what facts have to match for a rule to fire: one or more clauses, each matched by a
fact, all of them under the same bindings. -/

namespace ForwardChaining

/-- The clauses of a rule. -/
structure Trigger where
  /-- The patterns, each for one fact. -/
  clauses : List Term
  /-- There is at least one. -/
  clauses_ne_nil : clauses ≠ []
  deriving DecidableEq

namespace Trigger

/-- The trigger with a single clause. -/
def single (clause : Term) : Trigger := ⟨[clause], List.cons_ne_nil _ _⟩

/-- The trigger with the given clauses, if there are any. -/
def ofClauses? (clauses : List Term) : Option Trigger :=
  if empty : clauses = [] then none else some ⟨clauses, empty⟩

/-- The trigger that a term writes down: a list of lists, unless it is empty, gives the clauses one
by one, and any other term is the only clause. -/
def ofTerm : Term → Trigger
  | .list (first :: rest) =>
    if (first :: rest).all Term.isList then ⟨first :: rest, List.cons_ne_nil _ _⟩
    else single (.list (first :: rest))
  | term => single term

/-- The number of clauses. -/
def size (trigger : Trigger) : Nat := trigger.clauses.length

/-- The text of a trigger. A single clause stands without parentheses of its own. -/
def text (trigger : Trigger) : String :=
  match trigger.clauses with
  | [clause] => clause.text
  | clauses => "(" ++ " ".intercalate (clauses.map Term.text) ++ ")"

end Trigger

end ForwardChaining
