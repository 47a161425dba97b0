import ForwardChaining.Term.Basic

/-! # Signatures

The signature of a term is its outline: what it is and, for a list, what its items are, with
variables as wildcards. Terms whose signatures are not compatible never unify, so facts and clauses
are looked up by signature.

The *kind* of a signature is coarser still. Compatible signatures have the same kind unless one of
them is the wildcard. -/

namespace ForwardChaining

/-- The outline of an item of a list. -/
inductive Shape where
  /-- A variable. -/
  | wildcard
  /-- A constant. -/
  | atom (constant : Atom)
  /-- A list with this many items. -/
  | list (arity : Nat)
  deriving DecidableEq, Hashable

/-- The outline of a term. -/
inductive Signature where
  /-- A variable. -/
  | wildcard
  /-- A constant. -/
  | atom (constant : Atom)
  /-- A list, by the outlines of its items. -/
  | list (shapes : List Shape)
  deriving DecidableEq, Hashable

namespace Shape

/-- The outline of an item. -/
def of : Term → Shape
  | .atom constant => .atom constant
  | .var _ => .wildcard
  | .list items => .list items.length

/-- Whether two outlines are equal up to wildcards. -/
def compatible : Shape → Shape → Bool
  | .wildcard, _ | _, .wildcard => true
  | left, right => left = right

/-- The text of an outline; only the arity of a list is shown. -/
def text : Shape → String
  | .wildcard => "_"
  | .atom constant => constant.text
  | .list arity => "/" ++ arity.repr

end Shape

/-- Whether two lists of outlines have equal lengths and are compatible item by item. -/
def compatibleShapes : List Shape → List Shape → Bool
  | [], [] => true
  | left :: lefts, right :: rights => left.compatible right && compatibleShapes lefts rights
  | _, _ => false

/-- The coarse partition of signatures. -/
inductive Kind where
  /-- The wildcard. -/
  | wildcard
  /-- All constants. -/
  | atom
  /-- All lists with this many items. -/
  | list (arity : Nat)
  deriving DecidableEq, Hashable

namespace Signature

/-- The signature of a term. -/
def of : Term → Signature
  | .atom constant => .atom constant
  | .var _ => .wildcard
  | .list items => .list (items.map Shape.of)

/-- Whether two signatures are equal up to wildcards. -/
def compatible : Signature → Signature → Bool
  | .wildcard, _ | _, .wildcard => true
  | .atom left, .atom right => left = right
  | .list lefts, .list rights => compatibleShapes lefts rights
  | _, _ => false

/-- The kind of a signature. -/
def kind : Signature → Kind
  | .wildcard => .wildcard
  | .atom _ => .atom
  | .list shapes => .list shapes.length

/-- The text of a signature. -/
def text : Signature → String
  | .wildcard => "_"
  | .atom constant => constant.text
  | .list shapes => "(" ++ " ".intercalate (shapes.map Shape.text) ++ ")"

end Signature

/-! ## Laws of compatibility -/

/-- An outline is compatible with itself. -/
@[simp] theorem Shape.compatible_self (shape : Shape) : shape.compatible shape := by
  cases shape <;> simp [Shape.compatible]

/-- Compatibility of outlines is symmetric. -/
theorem Shape.compatible_comm (left right : Shape) :
    left.compatible right = right.compatible left := by
  cases left <;> cases right <;> simp [Shape.compatible, eq_comm]

/-- Compatibility of lists of outlines is symmetric. -/
theorem compatibleShapes_comm (lefts rights : List Shape) :
    compatibleShapes lefts rights = compatibleShapes rights lefts := by
  induction lefts generalizing rights with
  | nil => cases rights <;> rfl
  | cons left lefts ih =>
    cases rights with
    | nil => rfl
    | cons right rights => simp [compatibleShapes, Shape.compatible_comm left, ih]

/-- Compatible lists of outlines have equal lengths. -/
theorem length_eq_of_compatibleShapes {lefts rights : List Shape}
    (compatible : compatibleShapes lefts rights) : lefts.length = rights.length := by
  induction lefts generalizing rights with
  | nil => cases rights <;> simp_all [compatibleShapes]
  | cons left lefts ih =>
    cases rights with
    | nil => simp [compatibleShapes] at compatible
    | cons right rights =>
      simp only [compatibleShapes, Bool.and_eq_true] at compatible
      simp [ih compatible.2]

/-- A list of outlines is compatible with itself. -/
@[simp] theorem compatibleShapes_self (shapes : List Shape) : compatibleShapes shapes shapes := by
  induction shapes with
  | nil => rfl
  | cons shape shapes ih => simp [compatibleShapes, ih]

/-- A signature is compatible with itself. -/
@[simp] theorem Signature.compatible_self (signature : Signature) :
    signature.compatible signature := by
  cases signature <;> simp [Signature.compatible]

/-- Compatibility of signatures is symmetric. -/
theorem Signature.compatible_comm (left right : Signature) :
    left.compatible right = right.compatible left := by
  cases left <;> cases right <;>
    simp [Signature.compatible, eq_comm, compatibleShapes_comm]

/-- Compatible signatures are of one kind, or one of them is the wildcard. -/
theorem Signature.kind_of_compatible {left right : Signature} (compatible : left.compatible right) :
    left.kind = right.kind ∨ left = .wildcard ∨ right = .wildcard := by
  cases left <;> cases right <;> simp_all [Signature.compatible, Signature.kind]
  exact length_eq_of_compatibleShapes compatible

end ForwardChaining
