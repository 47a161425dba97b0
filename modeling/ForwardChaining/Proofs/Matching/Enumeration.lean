import ForwardChaining.Proofs.Matching.Product
import Mathlib.Data.List.Induction

/-! # Taking tuples one by one

A cross product is asked for one tuple after another, and can be set back to its first tuple at any
time. However these requests are mixed, it stands at the tuple that has as many before it as were
requested since it last began (`StandsAt`). So it gives the tuples of the product in their order and
none after the last one, and it reads its lists at places that they have (`next_afterAll`). -/

namespace ForwardChaining

namespace CrossProduct

variable {α : Type} {lists : List (Array α)} {odometer : CrossProduct α} {count : Nat}

/-- What can be requested of a cross product. -/
inductive Request where
  /-- The next tuple. -/
  | next
  /-- To begin again with the first tuple. -/
  | reset
  deriving DecidableEq

/-- The product after a request. Where no tuple is left, a request for one changes nothing. -/
def after (odometer : CrossProduct α) : Request → CrossProduct α
  | .next =>
    match odometer.next with
    | none => odometer
    | some (_, rest) => rest
  | .reset => odometer.reset

/-- The product after requests one after another. -/
def afterAll (odometer : CrossProduct α) (requests : List Request) : CrossProduct α :=
  requests.foldl after odometer

/-- How many tuples have been requested since the product last began: as many as there are requests
for a tuple at the end. -/
def Request.sinceReset (requests : List Request) : Nat :=
  (requests.reverse.takeWhile (· = .next)).length

/-- One more tuple has been requested. -/
@[simp] theorem Request.sinceReset_next (requests : List Request) :
    sinceReset (requests ++ [.next]) = sinceReset requests + 1 := by
  simp [sinceReset]

/-- After a reset, no tuple has been requested. -/
@[simp] theorem Request.sinceReset_reset (requests : List Request) :
    sinceReset (requests ++ [.reset]) = 0 := by
  simp [sinceReset]

/-! ## Where a product stands -/

/-- A product of some lists has passed so many tuples and has the others to give. -/
structure StandsAt (odometer : CrossProduct α) (lists : List (Array α)) (count : Nat) : Prop where
  /-- The lists are the same ever since. -/
  lists_eq : odometer.lists = lists
  /-- The dials show a tuple, unless no tuple is left. -/
  showing : odometer.exhausted ∨ Showing odometer.dials
  /-- What is left are the tuples from that number on. -/
  drop_eq : (product (lists.map Array.toList)).drop count =
    if odometer.exhausted then [] else remaining odometer.dials

/-- A product begins with its first tuple. -/
theorem standsAt_ofLists (lists : List (Array α)) : (ofLists lists).StandsAt lists 0 where
  lists_eq := lists_ofLists lists
  showing := or_iff_not_imp_left.mpr showing_ofLists
  drop_eq := by
    rw [List.drop_zero]
    split
    · next exhausted => exact exhausted_ofLists_iff.mp exhausted
    · exact (remaining_ofLists lists).symm

namespace StandsAt

variable (stands : odometer.StandsAt lists count)
include stands

/-- A reset goes back to the first tuple. -/
theorem reset : odometer.reset.StandsAt lists 0 := by
  rw [CrossProduct.reset, stands.lists_eq]
  exact standsAt_ofLists lists

/-- The product gives the tuple that it stands at, if any. -/
theorem next_eq :
    odometer.next.map Prod.fst = (product (lists.map Array.toList))[count]? := by
  obtain ⟨-, showing, rest⟩ := stands
  rw [← List.head?_drop, rest]
  obtain ⟨dials, _ | _⟩ := odometer
  · obtain ⟨-, -, -, shown⟩ := turn_spec (showing.resolve_left nofun)
    rw [if_neg nofun, shown]
    rfl
  · rfl

/-- Having given a tuple, it stands at the one after it. -/
theorem next : (odometer.after .next).StandsAt lists (count + 1) := by
  obtain ⟨sameLists, showing, rest⟩ := stands
  obtain ⟨dials, _ | _⟩ := odometer
  · -- The shown tuple is the first of those left, and the turn drops it.
    obtain ⟨showingNext, sameItems, -, shown⟩ := turn_spec (showing.resolve_left nofun)
    refine ⟨?_, .inr showingNext, ?_⟩
    · rw [← sameLists]
      exact sameItems
    · rw [← List.drop_drop, rest, if_neg nofun, shown]
      rfl
  · refine ⟨sameLists, .inl rfl, ?_⟩
    rw [← List.drop_drop, rest]
    rfl

end StandsAt

/-- **Whatever was requested, a product stands behind as many tuples as were requested since it last
began.** -/
theorem standsAt_afterAll (lists : List (Array α)) (requests : List Request) :
    ((ofLists lists).afterAll requests).StandsAt lists (Request.sinceReset requests) := by
  induction requests using List.reverseRecOn with
  | nil => exact standsAt_ofLists lists
  | append_singleton requests request ih =>
    rw [afterAll, List.foldl_append, List.foldl_cons, List.foldl_nil]
    cases request with
    | next =>
      rw [Request.sinceReset_next]
      exact ih.next
    | reset =>
      rw [Request.sinceReset_reset]
      exact ih.reset

/-- A third request finds none left of two tuples. After a reset and one request more, the second
tuple is next. -/
example : ((ofLists [#[1, 2], #[3]]).afterAll [.next, .next, .next, .reset, .next]).next.map
    Prod.fst = some [2, 3] := by decide

end CrossProduct

end ForwardChaining
