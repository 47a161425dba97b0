import ForwardChaining.Term.Basic
import Std.Data.ExtTreeMap

/-! # Bindings

A finite map from variable names to terms, sorted by name. The map is triangular: a bound term may
hold variables that are bound themselves, and is stored as it was given. `Bindings.resolve` follows
the links from variable to variable at the top of a term, `Bindings.substitute` replaces bound
variables at every depth.

Both would run for ever round a cycle. They are total because they use at most one link for each
binding on the way down, which is as many as a path through different variables can have. -/

namespace ForwardChaining

/-- Terms for some variables. Two bindings are equal when they give the same variables the same
terms. -/
structure Bindings where
  /-- The bound variables with their terms. -/
  terms : Std.ExtTreeMap String Term
  deriving DecidableEq

namespace Bindings

instance : EmptyCollection Bindings := ⟨⟨∅⟩⟩
instance : Inhabited Bindings := ⟨∅⟩

/-- The term that a variable is bound to. -/
def get? (bindings : Bindings) (name : String) : Option Term := bindings.terms[name]?

/-- The bindings with a variable bound to a term, whatever it was bound to before. -/
def bind (bindings : Bindings) (name : String) (term : Term) : Bindings :=
  ⟨bindings.terms.insert name term⟩

/-- The number of bound variables. -/
def size (bindings : Bindings) : Nat := bindings.terms.size

/-- Whether no variable is bound. -/
def isEmpty (bindings : Bindings) : Bool := bindings.terms.isEmpty

/-- The bound variables with their terms, sorted by name. -/
def toList (bindings : Bindings) : List (String × Term) := bindings.terms.toList

/-- Binds pairs one after another; of two pairs for one variable the later one counts. -/
def ofList (pairs : List (String × Term)) : Bindings :=
  pairs.foldl (fun bindings (name, term) => bindings.bind name term) ∅

/-- No variable is bound by the empty bindings. -/
@[simp] theorem get?_empty (name : String) : (∅ : Bindings).get? name = none :=
  Std.ExtTreeMap.getElem?_empty

/-- Binding a variable changes what that variable is bound to and nothing else. -/
@[simp] theorem get?_bind (bindings : Bindings) (name other : String) (term : Term) :
    (bindings.bind name term).get? other =
      if name = other then some term else bindings.get? other := by
  simp only [get?, bind, Std.ExtTreeMap.getElem?_insert,
    Std.LawfulEqCmp.compare_eq_iff_eq]

/-- Bindings that agree on every variable are equal. -/
@[ext] theorem ext {left right : Bindings} (agree : ∀ name, left.get? name = right.get? name) :
    left = right := by
  cases left
  cases right
  exact congrArg Bindings.mk (Std.ExtTreeMap.ext_getElem? agree)

/-- The empty bindings have no bound variable. -/
@[simp] theorem size_empty : (∅ : Bindings).size = 0 := Std.ExtTreeMap.size_empty

/-- Binding an unbound variable makes one more. -/
theorem size_bind_of_unbound {bindings : Bindings} {name : String} (term : Term)
    (unbound : bindings.get? name = none) : (bindings.bind name term).size = bindings.size + 1 := by
  have absent : name ∉ bindings.terms := by
    rw [Std.ExtTreeMap.mem_iff_isSome_getElem?, show bindings.terms[name]? = none from unbound]
    exact Bool.false_ne_true
  simp [size, bind, Std.ExtTreeMap.size_insert, absent]

/-- The pairs of the list are the bound variables with their terms. -/
theorem mem_toList {bindings : Bindings} {name : String} {term : Term} :
    (name, term) ∈ bindings.toList ↔ bindings.get? name = some term :=
  Std.ExtTreeMap.mem_toList_iff_getElem?_eq_some

/-! ## Following links -/

/-- Replaces a bound variable by its term, and again what comes out of it, at most `links` times. -/
def follow (bindings : Bindings) : (links : Nat) → Term → Term
  | links + 1, .var name =>
    match bindings.get? name with
    | some term => bindings.follow links term
    | none => .var name
  | _, term => term

/-- Follows the links from variable to variable up to an unbound variable or a term that is none. -/
def resolve (bindings : Bindings) (term : Term) : Term := bindings.follow bindings.size term

/-- Replaces the bound variables of a term, and again those of their terms, `depth` times. -/
def substituteWithin (bindings : Bindings) : (depth : Nat) → Term → Term
  | 0, term => term
  | depth + 1, term => term.instantiate fun name =>
    match bindings.get? name with
    | some value => bindings.substituteWithin depth value
    | none => .var name

/-- Replaces every bound variable of a term by its term, through all levels. -/
def substitute (bindings : Bindings) (term : Term) : Term :=
  bindings.substituteWithin bindings.size term

/-- An atom has no links to follow. -/
@[simp] theorem follow_atom (bindings : Bindings) (links : Nat) (constant : Atom) :
    bindings.follow links (.atom constant) = .atom constant := by cases links <;> rfl

/-- A list has no links to follow, whatever its items are. -/
@[simp] theorem follow_list (bindings : Bindings) (links : Nat) (items : List Term) :
    bindings.follow links (.list items) = .list items := by cases links <;> rfl

/-- An atom stands for itself. -/
@[simp] theorem resolve_atom (bindings : Bindings) (constant : Atom) :
    bindings.resolve (.atom constant) = .atom constant := follow_atom ..

/-- At its top, a list stands for itself. -/
@[simp] theorem resolve_list (bindings : Bindings) (items : List Term) :
    bindings.resolve (.list items) = .list items := follow_list ..

/-- Without bindings, a term stands for itself. -/
@[simp] theorem resolve_empty (term : Term) : (∅ : Bindings).resolve term = term := by
  rw [resolve, size_empty, follow.eq_def]

/-- Without bindings, nothing is replaced. -/
@[simp] theorem substitute_empty (term : Term) : (∅ : Bindings).substitute term = term := by
  rw [substitute, size_empty, substituteWithin]

/-! ## Size and text -/

/-- The total size of the bound terms. -/
def weight (bindings : Bindings) : Nat :=
  bindings.terms.foldl (fun total _ term => total + term.size) 0

/-- The text of one binding. -/
def pairText : String × Term → String
  | (name, term) => name ++ ": " ++ term.text

/-- The text of the bindings: pairs in braces, sorted by name. -/
def text (bindings : Bindings) : String :=
  "\x7b" ++ ", ".intercalate (bindings.toList.map pairText) ++ "\x7d"

end Bindings

end ForwardChaining
