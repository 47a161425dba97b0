/-! # Cross products

The tuples that take one item from each of several lists, one after another. A cross product works
like an odometer: every list has a dial, the tuple is what the dials show, and a step turns the last
dial and carries to the left. So the first list varies slowest, and no more than one tuple exists at
a time. -/

namespace ForwardChaining

variable {α β : Type}

/-- A list of items and the position of the one that shows. -/
structure Dial (α : Type) where
  /-- The items of the list. -/
  items : Array α
  /-- The position that shows. -/
  position : Nat

namespace Dial

/-- The item that shows. -/
def shown? (dial : Dial α) : Option α := dial.items[dial.position]?

/-- The dial at its first item. -/
def rewind (dial : Dial α) : Dial α := { dial with position := 0 }

end Dial

/-- The tuples of a cross product from some tuple on. -/
structure CrossProduct (α : Type) where
  /-- The dials of the lists, in their order. -/
  dials : List (Dial α)
  /-- Whether the last tuple has been taken, or there never was one. -/
  exhausted : Bool

namespace CrossProduct

/-- The dials one step further, and whether they have come round to the first tuple. -/
def turn : List (Dial α) → List (Dial α) × Bool
  | [] => ([], true)
  | dial :: dials =>
    match turn dials with
    | (dials, false) => (dial :: dials, false)
    | (dials, true) =>
      if dial.position + 1 < dial.items.size then
        ({ dial with position := dial.position + 1 } :: dials, false)
      else (dial.rewind :: dials, true)

/-- The cross product of lists, from its first tuple on. There is one empty tuple when there are no
lists, and no tuple when one of the lists is empty. -/
def ofLists (lists : List (Array α)) : CrossProduct α :=
  ⟨lists.map (⟨·, 0⟩), lists.any Array.isEmpty⟩

/-- The lists of the product. -/
def lists (product : CrossProduct α) : List (Array α) := product.dials.map Dial.items

/-- The same product from its first tuple on. -/
def reset (product : CrossProduct α) : CrossProduct α := ofLists product.lists

/-- The number of all tuples, wherever the product stands. -/
def total (product : CrossProduct α) : Nat :=
  product.lists.foldr (fun list count => list.size * count) 1

/-- The tuple that the dials show. -/
def shown (product : CrossProduct α) : List α := product.dials.filterMap Dial.shown?

/-- Takes the next tuple. -/
def next (product : CrossProduct α) : Option (List α × CrossProduct α) :=
  if product.exhausted then none
  else
    let (dials, exhausted) := turn product.dials
    some (product.shown, ⟨dials, exhausted⟩)

/-- What `select` makes of the next tuples, at most `count` of them. -/
def selectNext (select : List α → Option β) : (count : Nat) → CrossProduct α → List β
  | 0, _ => []
  | count + 1, product =>
    match product.next with
    | none => []
    | some (tuple, product) =>
      match select tuple with
      | none => selectNext select count product
      | some result => result :: selectNext select count product

/-- What `select` makes of the remaining tuples. -/
def filterMap (select : List α → Option β) (product : CrossProduct α) : List β :=
  product.selectNext select product.total

/-- The remaining tuples. -/
def toList (product : CrossProduct α) : List (List α) := product.filterMap some

/-- An exhausted product has no next tuple. -/
@[simp] theorem next_exhausted (dials : List (Dial α)) : next ⟨dials, true⟩ = none := rfl

/-- Selecting among the next tuples is selecting from their list. -/
theorem selectNext_eq_filterMap (select : List α → Option β) (count : Nat)
    (product : CrossProduct α) :
    product.selectNext select count = (product.selectNext some count).filterMap select := by
  induction count generalizing product with
  | zero => rfl
  | succ count ih =>
    simp only [selectNext]
    split
    · rfl
    · rename_i tuple rest _
      cases chosen : select tuple <;> simp [chosen, ih]

/-- Selecting on the way is selecting from the list of tuples. -/
theorem filterMap_eq (select : List α → Option β) (product : CrossProduct α) :
    product.filterMap select = product.toList.filterMap select :=
  selectNext_eq_filterMap select product.total product

end CrossProduct

end ForwardChaining
