import ForwardChaining.Term.Atom

/-! # Terms

A term is an atom, a variable, or a list of terms. Functions on terms come in pairs, one for a term
and one for the terms of a list; the second of each pair is the first mapped over the list, which
the lemmas beside them say. -/

namespace ForwardChaining

/-- A fact, a pattern or a form. -/
inductive Term where
  /-- A constant. -/
  | atom (constant : Atom)
  /-- A pattern variable, with its marker as part of the name. -/
  | var (name : String)
  /-- A list of terms. -/
  | list (items : List Term)

/-- The first character of variable names, unless another one is chosen. -/
def defaultMarker : Char := '?'

namespace Term

instance : Inhabited Term := ⟨.list []⟩

/-! ## Induction and equality -/

mutual

/-- A property that passes from the items of a list to the list, and holds of atoms and variables,
holds of every term. -/
@[elab_as_elim, induction_eliminator]
theorem induct {motive : Term → Prop}
    (atom : ∀ atom, motive (.atom atom))
    (var : ∀ name, motive (.var name))
    (list : ∀ items, (∀ item ∈ items, motive item) → motive (.list items)) :
    ∀ term, motive term
  | .atom constant => atom constant
  | .var name => var name
  | .list items => list items (induct_items atom var list items)

/-- The same for every item of a list. -/
theorem induct_items {motive : Term → Prop}
    (atom : ∀ atom, motive (.atom atom))
    (var : ∀ name, motive (.var name))
    (list : ∀ items, (∀ item ∈ items, motive item) → motive (.list items)) :
    ∀ items : List Term, ∀ item ∈ items, motive item
  | [], _, member => absurd member List.not_mem_nil
  | first :: rest, item, member => by
    rcases List.mem_cons.mp member with equal | inRest
    · exact equal ▸ induct atom var list first
    · exact induct_items atom var list rest item inRest

end

mutual

/-- Decides whether two terms are equal. -/
def decideEq : (left right : Term) → Decidable (left = right)
  | .atom left, .atom right =>
    if equal : left = right then .isTrue (equal ▸ rfl)
    else .isFalse fun same => equal (Term.atom.inj same)
  | .var left, .var right =>
    if equal : left = right then .isTrue (equal ▸ rfl)
    else .isFalse fun same => equal (Term.var.inj same)
  | .list left, .list right =>
    match decideEqItems left right with
    | .isTrue equal => .isTrue (equal ▸ rfl)
    | .isFalse different => .isFalse fun same => different (Term.list.inj same)
  | .atom _, .var _ | .atom _, .list _ | .var _, .atom _ | .var _, .list _ | .list _, .atom _
  | .list _, .var _ => .isFalse (by simp)

/-- Decides whether two lists of terms are equal. -/
def decideEqItems : (left right : List Term) → Decidable (left = right)
  | [], [] => .isTrue rfl
  | [], _ :: _ | _ :: _, [] => .isFalse (by simp)
  | left :: lefts, right :: rights =>
    match decideEq left right with
    | .isFalse different => .isFalse fun same => different (List.cons.inj same).1
    | .isTrue equal =>
      match decideEqItems lefts rights with
      | .isTrue equals => .isTrue (equal ▸ equals ▸ rfl)
      | .isFalse different => .isFalse fun same => different (List.cons.inj same).2

end

instance : DecidableEq Term := decideEq

/-! ## Shape -/

/-- The name, if the term is a symbol. -/
def symbol? : Term → Option String
  | .atom constant => constant.symbol?
  | _ => none

/-- The items, if the term is a list. -/
def items? : Term → Option (List Term)
  | .list items => some items
  | _ => none

/-- Whether the term is a list. -/
def isList : Term → Bool
  | .list _ => true
  | _ => false

/-! ## Variables -/

mutual

/-- Whether no variable occurs in the term. -/
def isGround : Term → Bool
  | .atom _ => true
  | .var _ => false
  | .list items => areGround items

/-- Whether no variable occurs in any of the terms. -/
def areGround : List Term → Bool
  | [] => true
  | item :: items => item.isGround && areGround items

end

mutual

/-- The variables of the term from left to right, each as often as it occurs. -/
def occurrences : Term → List String
  | .atom _ => []
  | .var name => [name]
  | .list items => itemOccurrences items

/-- The variables of the terms from left to right, each as often as it occurs. -/
def itemOccurrences : List Term → List String
  | [] => []
  | item :: items => item.occurrences ++ itemOccurrences items

end

/-- The variables of the term in the order of their first occurrences. -/
def variableNames (term : Term) : List String := term.occurrences.eraseDups

/-- Terms are ground when each of them is. -/
theorem areGround_eq_all (items : List Term) : areGround items = items.all isGround := by
  induction items with
  | nil => rfl
  | cons item items ih => simp [areGround, ih]

/-- The occurrences in terms are those in each of them, one after another. -/
theorem itemOccurrences_eq_flatMap (items : List Term) :
    itemOccurrences items = items.flatMap occurrences := by
  induction items with
  | nil => rfl
  | cons item items ih => simp [itemOccurrences, ih]

/-- A list is ground when its items are. -/
@[simp] theorem isGround_list (items : List Term) :
    (list items).isGround = items.all isGround := by
  rw [isGround, areGround_eq_all]

/-- The occurrences in a list are those in its items. -/
@[simp] theorem occurrences_list (items : List Term) :
    (list items).occurrences = items.flatMap occurrences := by
  rw [occurrences, itemOccurrences_eq_flatMap]

/-- The variables of a term are those that occur in it. -/
@[simp] theorem mem_variableNames {name : String} {term : Term} :
    name ∈ term.variableNames ↔ name ∈ term.occurrences := List.mem_eraseDups

/-- The ground terms are those without variables. -/
theorem isGround_iff (term : Term) : term.isGround ↔ term.occurrences = [] := by
  induction term with
  | atom constant => simp [isGround, occurrences]
  | var name => simp [isGround, occurrences]
  | list items ih => simpa using forall₂_congr ih

/-! ## Size -/

mutual

/-- The number of atoms, variables and lists in the term. -/
def size : Term → Nat
  | .list items => itemsSize items + 1
  | _ => 1

/-- The number of atoms, variables and lists in the terms. -/
def itemsSize : List Term → Nat
  | [] => 0
  | item :: items => item.size + itemsSize items

end

/-- A term is at most as large as a list of terms that holds it. -/
theorem size_le_itemsSize {item : Term} {items : List Term} (member : item ∈ items) :
    item.size ≤ itemsSize items := by
  induction items with
  | nil => exact absurd member List.not_mem_nil
  | cons first rest ih =>
    rw [itemsSize]
    rcases List.mem_cons.mp member with equal | inRest
    · rw [equal]
      exact Nat.le_add_right ..
    · exact Nat.le_trans (ih inRest) (Nat.le_add_left ..)

/-- An item is smaller than its list. -/
theorem size_lt_size_list {item : Term} {items : List Term} (member : item ∈ items) :
    item.size < (list items).size :=
  Nat.lt_succ_of_le (size_le_itemsSize member)

/-! ## Replacing variables -/

mutual

/-- The term with every variable replaced by its value, all at once. -/
def instantiate (value : String → Term) : Term → Term
  | .atom constant => .atom constant
  | .var name => value name
  | .list items => .list (instantiateItems value items)

/-- The terms with every variable replaced by its value, all at once. -/
def instantiateItems (value : String → Term) : List Term → List Term
  | [] => []
  | item :: items => item.instantiate value :: instantiateItems value items

end

/-- Replacing variables in terms is replacing them in each. -/
theorem instantiateItems_eq_map (value : String → Term) (items : List Term) :
    instantiateItems value items = items.map (instantiate value) := by
  induction items with
  | nil => rfl
  | cons item items ih => simp [instantiateItems, ih]

/-- An atom has no variables to replace. -/
@[simp] theorem instantiate_atom (value : String → Term) (constant : Atom) :
    (atom constant).instantiate value = atom constant := rfl

/-- A variable is replaced by its value. -/
@[simp] theorem instantiate_var (value : String → Term) (name : String) :
    (var name).instantiate value = value name := rfl

/-- Replacing variables in a list is replacing them in its items. -/
@[simp] theorem instantiate_list (value : String → Term) (items : List Term) :
    (list items).instantiate value = list (items.map (instantiate value)) := by
  rw [instantiate, instantiateItems_eq_map]

/-- Only the values of the variables that occur matter. -/
theorem instantiate_congr {first second : String → Term} (term : Term)
    (agree : ∀ name ∈ term.occurrences, first name = second name) :
    term.instantiate first = term.instantiate second := by
  induction term with
  | atom constant => rfl
  | var name => exact agree name (by simp [occurrences])
  | list items ih =>
    simp only [instantiate_list, list.injEq, List.map_inj_left]
    intro item member
    exact ih item member fun name occurs =>
      agree name (by simpa using ⟨item, member, occurs⟩)

/-- Replacing variables by themselves changes nothing. -/
@[simp] theorem instantiate_var_self (term : Term) : term.instantiate var = term := by
  induction term with
  | atom constant => rfl
  | var name => rfl
  | list items ih =>
    rw [instantiate_list, list.injEq]
    exact (List.map_congr_left ih).trans items.map_id

/-! ## Text -/

mutual

/-- The text of the term: a list in parentheses, its items with single spaces between them. -/
def text : Term → String
  | .atom constant => constant.text
  | .var name => name
  | .list items => "(" ++ " ".intercalate (texts items) ++ ")"

/-- The texts of the terms. -/
def texts : List Term → List String
  | [] => []
  | item :: items => item.text :: texts items

end

/-- The texts of terms are the text of each. -/
theorem texts_eq_map (items : List Term) : texts items = items.map text := by
  induction items with
  | nil => rfl
  | cons item items ih => simp [texts, ih]

/-- The text of a list by the texts of its items. -/
@[simp] theorem text_list (items : List Term) :
    (list items).text = "(" ++ " ".intercalate (items.map text) ++ ")" := by
  rw [text, texts_eq_map]

end Term

end ForwardChaining
