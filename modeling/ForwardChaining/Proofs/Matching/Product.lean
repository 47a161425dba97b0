import ForwardChaining.Matching.CrossProduct
import Mathlib.Data.List.Nodup
import Mathlib.Data.List.Flatten
import Mathlib.Data.List.Perm.Basic
import Mathlib.Data.List.Perm.Subperm

/-! # Cross products as lists

`product lists` is the lexicographic cross product of lists, written by recursion on them. A
`CrossProduct` enumerates exactly it: `remaining` gives the tuples that the dials still have to
show, and one turn of the dials drops the first of them.

The second half is about the tuples of the numbers below some bound. Those that hold the largest
number split by the first place where it stands (`tuples_succ_perm`): this is what makes a search
that fixes a new fact at each place in turn find every new tuple once. -/

namespace ForwardChaining

variable {α β γ : Type}

/-- All tuples that take one item from each list, the first list varying slowest. -/
def product : List (List α) → List (List α)
  | [] => [[]]
  | list :: lists => list.flatMap fun item => (product lists).map (item :: ·)

/-- A tuple of a product takes its first item from the first list. -/
theorem product_cons (list : List α) (lists : List (List α)) :
    product (list :: lists) = list.flatMap fun item => (product lists).map (item :: ·) := rfl

/-- The tuples of a product are those that hold an item of each list. -/
theorem mem_product {lists : List (List α)} {tuple : List α} :
    tuple ∈ product lists ↔ List.Forall₂ (· ∈ ·) tuple lists := by
  induction lists generalizing tuple with
  | nil => simp [product]
  | cons list lists ih =>
    cases tuple with
    | nil => simp [product]
    | cons item tuple => simp [product, ih]

/-- There is no tuple just when one of the lists is empty. -/
theorem product_eq_nil_iff {lists : List (List α)} : product lists = [] ↔ [] ∈ lists := by
  induction lists with
  | nil => simp [product]
  | cons list lists ih =>
    rw [product_cons, List.flatMap_eq_nil_iff, List.mem_cons, ← ih]
    cases list with
    | nil => simp
    | cons item items => simpa using fun empty _ _ => empty

/-- No tuple occurs twice when no item occurs twice in its list. -/
theorem nodup_product {lists : List (List α)} (nodup : ∀ list ∈ lists, list.Nodup) :
    (product lists).Nodup := by
  induction lists with
  | nil => simp [product]
  | cons list lists ih =>
    rw [product_cons, List.nodup_flatMap]
    constructor
    · intro item _
      exact (ih fun list member => nodup list (List.mem_cons_of_mem _ member)).map
        (List.cons_injective)
    · refine (nodup list List.mem_cons_self).imp fun different => ?_
      simp only [Function.onFun, List.disjoint_left, List.mem_map, not_exists, not_and]
      rintro _ ⟨tuple, -, rfl⟩ other - equal
      exact different (List.cons.inj equal).1.symm

/-! ## The odometer enumerates the product -/

namespace CrossProduct

/-- The tuples that dials have still to show, from the one that they show now. -/
def remaining : List (Dial α) → List (List α)
  | [] => [[]]
  | dial :: dials =>
    match dial.items.toList.drop dial.position with
    | [] => []
    | item :: items =>
      (remaining dials).map (item :: ·) ++
        items.flatMap fun item => (product (dials.map (·.items.toList))).map (item :: ·)

/-- Every dial shows an item. -/
def Showing (dials : List (Dial α)) : Prop := ∀ dial ∈ dials, dial.position < dial.items.size

/-- From their first tuple on, dials have the whole product to show. -/
theorem remaining_rewind (dials : List (Dial α)) :
    remaining (dials.map Dial.rewind) = product (dials.map (·.items.toList)) := by
  induction dials with
  | nil => rfl
  | cons dial dials ih =>
    rw [List.map_cons, remaining, ih, List.map_cons, product_cons]
    have same : (dials.map Dial.rewind).map (·.items.toList) = dials.map (·.items.toList) := by
      simp [Dial.rewind]
    rw [same]
    cases items : dial.items.toList <;> simp [Dial.rewind, items]

/-- A turn takes the shown tuple away from those that remain. When none is left the dials stand at
their first tuple again. -/
theorem turn_spec {dials : List (Dial α)} (showing : Showing dials) :
    Showing (turn dials).1 ∧
    (turn dials).1.map Dial.items = dials.map Dial.items ∧
    ((turn dials).2 = true → (turn dials).1 = dials.map Dial.rewind) ∧
    remaining dials = dials.filterMap Dial.shown? ::
      (if (turn dials).2 then [] else remaining (turn dials).1) := by
  induction dials with
  | nil => exact ⟨showing, rfl, fun _ => rfl, rfl⟩
  | cons dial dials ih =>
    obtain ⟨showingRest, itemsRest, roundRest, remainingRest⟩ :=
      ih fun dial member => showing dial (List.mem_cons_of_mem _ member)
    have shows : dial.position < dial.items.size := showing dial List.mem_cons_self
    have split : dial.items.toList.drop dial.position =
        dial.items[dial.position] :: dial.items.toList.drop (dial.position + 1) := by
      rw [List.drop_eq_getElem_cons (by simpa using shows), Array.getElem_toList]
    have shown : dial.shown? = some dial.items[dial.position] := Array.getElem?_eq_getElem shows
    rw [remaining, split, remainingRest, List.filterMap_cons_some shown]
    rcases turned : turn dials with ⟨turnedDials, _ | _⟩
    · -- The dials to the right have not come round, so this one stays.
      rw [turned] at showingRest itemsRest
      have lists : turnedDials.map (·.items.toList) = dials.map (·.items.toList) := by
        simpa [Function.comp_def] using congrArg (List.map Array.toList) itemsRest
      simp only [turn, turned]
      refine ⟨List.forall_mem_cons.mpr ⟨shows, showingRest⟩, by simp [itemsRest], nofun, ?_⟩
      simp [remaining, split, lists]
    · -- They have: this dial takes one step, or comes round as well.
      rw [turned] at showingRest itemsRest roundRest
      have rewound : turnedDials = dials.map Dial.rewind := roundRest rfl
      simp only [turn, turned]
      by_cases more : dial.position + 1 < dial.items.size
      · have next : dial.items.toList.drop (dial.position + 1) =
            dial.items[dial.position + 1] :: dial.items.toList.drop (dial.position + 1 + 1) := by
          rw [List.drop_eq_getElem_cons (by simpa using more), Array.getElem_toList]
        have lists : (dials.map Dial.rewind).map (·.items.toList) =
            dials.map (·.items.toList) := by simp [Dial.rewind]
        rw [if_pos more]
        refine ⟨List.forall_mem_cons.mpr ⟨more, showingRest⟩, by simp [itemsRest], nofun, ?_⟩
        simp [remaining, next, rewound, lists, remaining_rewind]
      · have none : dial.items.toList.drop (dial.position + 1) = [] := by
          rw [List.drop_eq_nil_iff]
          simpa using more
        have first : dial.rewind.position < dial.rewind.items.size := Nat.zero_lt_of_lt shows
        rw [if_neg more]
        refine ⟨List.forall_mem_cons.mpr ⟨first, showingRest⟩, ?_, ?_, ?_⟩
        · simp [itemsRest, Dial.rewind]
        · simp [rewound]
        · simp [none]

/-- The next tuples are the first of those that remain. -/
theorem selectNext_some {dials : List (Dial α)} (showing : Showing dials) (count : Nat) :
    selectNext some count ⟨dials, false⟩ = (remaining dials).take count := by
  induction count generalizing dials with
  | zero => rfl
  | succ count ih =>
    obtain ⟨showingNext, -, -, rest⟩ := turn_spec showing
    rw [selectNext, rest, List.take_succ_cons]
    rcases turned : turn dials with ⟨next, _ | _⟩
    · rw [turned] at showingNext
      simp [CrossProduct.next, turned, shown, ih showingNext]
    · cases count <;> simp [CrossProduct.next, turned, shown, selectNext]

/-- The product of some lists has these as its lists. -/
@[simp] theorem lists_ofLists (lists : List (Array α)) : (ofLists lists).lists = lists := by
  simp [ofLists, CrossProduct.lists, Function.comp_def]

/-- The total is the number of all tuples, wherever the product stands. -/
theorem total_eq (odometer : CrossProduct α) :
    odometer.total = (product (odometer.lists.map Array.toList)).length := by
  rw [total]
  induction odometer.lists with
  | nil => rfl
  | cons list lists ih =>
    rw [List.foldr_cons, ih, List.map_cons, product_cons, List.length_flatMap]
    simp

/-- A product is exhausted from the beginning when it has no tuple. -/
theorem exhausted_ofLists_iff {lists : List (Array α)} :
    (ofLists lists).exhausted ↔ product (lists.map Array.toList) = [] := by
  rw [product_eq_nil_iff]
  simp [ofLists]

/-- Otherwise its dials show a tuple. -/
theorem showing_ofLists {lists : List (Array α)} (notExhausted : ¬ (ofLists lists).exhausted) :
    Showing (ofLists lists).dials := by
  intro dial member
  obtain ⟨list, inLists, rfl⟩ := List.mem_map.mp member
  have nonempty : list.isEmpty = false := by
    simpa using fun isEmpty => notExhausted (List.any_eq_true.mpr ⟨list, inLists, isEmpty⟩)
  exact Array.size_pos_iff.mpr (by simpa using nonempty)

/-- The dials begin with the whole product to show. -/
theorem remaining_ofLists (lists : List (Array α)) :
    remaining (ofLists lists).dials = product (lists.map Array.toList) := by
  simpa [ofLists, Dial.rewind, Function.comp_def] using
    remaining_rewind (lists.map (⟨·, 0⟩ : Array α → Dial α))

/-- **The odometer enumerates the cross product** in lexicographic order. -/
theorem toList_ofLists (lists : List (Array α)) :
    (ofLists lists).toList = product (lists.map Array.toList) := by
  rw [toList, filterMap, total_eq, lists_ofLists]
  by_cases exhausted : (ofLists lists).exhausted
  · rw [exhausted_ofLists_iff.mp exhausted, List.length_nil, selectNext]
  · have started : ofLists lists = ⟨(ofLists lists).dials, false⟩ :=
      congrArg (CrossProduct.mk _) (Bool.eq_false_iff.mpr exhausted)
    rw [started, selectNext_some (showing_ofLists exhausted), remaining_ofLists, List.take_length]

end CrossProduct

/-! ## Narrower lists -/

/-- Items that give nothing can be left out. -/
theorem flatMap_filter {list : List α} {keep : α → Bool} {f : α → List β}
    (useless : ∀ item ∈ list, ¬ keep item → f item = []) :
    (list.filter keep).flatMap f = list.flatMap f := by
  induction list with
  | nil => rfl
  | cons item list ih =>
    obtain ⟨first, others⟩ := List.forall_mem_cons.mp useless
    by_cases kept : keep item
    · rw [List.filter_cons_of_pos kept, List.flatMap_cons, List.flatMap_cons, ih others]
    · rw [List.filter_cons_of_neg kept, List.flatMap_cons, first kept, List.nil_append, ih others]

/-- Items that no selected tuple holds can be left out of the lists. -/
theorem filterMap_product_filter {ι : Type} (places : List ι) (list : ι → List α)
    (keep : ι → α → Bool) (select : List α → Option β)
    (needed : ∀ tuple ∈ product (places.map list), ∀ result, select tuple = some result →
      List.Forall₂ (fun item place => keep place item) tuple places) :
    (product (places.map fun place => (list place).filter (keep place))).filterMap select =
      (product (places.map list)).filterMap select := by
  induction places generalizing select with
  | nil => rfl
  | cons place places ih =>
    simp only [List.map_cons, product_cons, List.filterMap_flatMap, List.filterMap_map]
    have inProduct : ∀ item ∈ list place, ∀ tuple ∈ product (places.map list),
        item :: tuple ∈ product ((place :: places).map list) := by
      intro item isItem tuple isTuple
      rw [mem_product] at isTuple ⊢
      exact List.Forall₂.cons isItem isTuple
    have rest : ∀ item ∈ list place,
        (product (places.map fun place => (list place).filter (keep place))).filterMap
            (select ∘ (item :: ·)) =
          (product (places.map list)).filterMap (select ∘ (item :: ·)) := by
      intro item isItem
      refine ih _ fun tuple isTuple result selected => ?_
      have whole := needed _ (inProduct item isItem tuple isTuple) result selected
      exact (List.forall₂_cons.mp whole).2
    rw [List.flatMap_congr fun item kept => rest item (List.mem_of_mem_filter kept)]
    refine flatMap_filter fun item isItem dropped => ?_
    -- No tuple with this item in front is selected.
    rw [List.filterMap_eq_nil_iff]
    intro tuple isTuple
    by_contra some
    obtain ⟨result, selected⟩ := Option.ne_none_iff_exists'.mp some
    have whole := needed _ (inProduct item isItem tuple isTuple) result selected
    exact dropped (List.forall₂_cons.mp whole).1

/-! ## Other lists -/

/-- When every item stands for another one, the tuples of items stand for those of the others. -/
theorem map_product {lists : List (List α)} {f : α → Option β}
    (total : ∀ list ∈ lists, ∀ item ∈ list, (f item).isSome) :
    (product lists).map (List.filterMap f) = product (lists.map (List.filterMap f)) := by
  induction lists with
  | nil => rfl
  | cons list lists ih =>
    obtain ⟨first, others⟩ := List.forall_mem_cons.mp total
    rw [List.map_cons, product_cons, product_cons, ← ih others,
      List.filterMap_eq_flatMap_toList f list, List.flatMap_assoc, List.map_flatMap]
    refine List.flatMap_congr fun item member => ?_
    obtain ⟨value, found⟩ := Option.isSome_iff_exists.mp (first item member)
    have front : List.filterMap f ∘ (item :: ·) = (value :: ·) ∘ List.filterMap f := by
      funext tuple
      exact List.filterMap_cons_some found
    rw [found, Option.toList_some, List.flatMap_singleton, List.map_map, List.map_map, front]

/-- Items that occur more often, and each give more, give more. -/
theorem flatMap_subperm {list other : List α} {f g : α → List β} (more : list.Subperm other)
    (each : ∀ item, (f item).Subperm (g item)) :
    (list.flatMap f).Subperm (other.flatMap g) := by
  have pointwise : ∀ items : List α, (items.flatMap f).Subperm (items.flatMap g) := by
    intro items
    induction items with
    | nil => exact .refl _
    | cons item items ih =>
      rw [List.flatMap_cons, List.flatMap_cons]
      exact (each item).append ih
  obtain ⟨middle, perm, sublist⟩ := more
  exact (pointwise list).trans
    ((perm.symm.flatMap_right g).subperm.trans (sublist.flatMap g).subperm)

/-- Items that occur more often give more results. -/
theorem filterMap_subperm {list other : List α} (f : α → Option β) (more : list.Subperm other) :
    (list.filterMap f).Subperm (other.filterMap f) := by
  rw [List.filterMap_eq_flatMap_toList, List.filterMap_eq_flatMap_toList]
  exact flatMap_subperm more fun _ => .refl _

/-- More items of a list give more tuples. -/
theorem product_replicate_subperm {list other : List α} (more : list.Subperm other)
    (arity : Nat) :
    (product (List.replicate arity list)).Subperm (product (List.replicate arity other)) := by
  induction arity with
  | zero => exact .refl _
  | succ arity ih =>
    rw [List.replicate_succ, List.replicate_succ, product_cons, product_cons]
    exact flatMap_subperm more fun item => ih.map (List.cons_injective)

/-! ## Tuples of the numbers below a bound -/

/-- The tuples of so many numbers below a bound, in lexicographic order. -/
def tuples (bound arity : Nat) : List (List Nat) :=
  product (List.replicate arity (List.range bound))

/-- The numbers to try at a place when `newest` is the largest of all, stands at the place `fixed`
and not before. -/
def numbersAround (newest fixed place : Nat) : List Nat :=
  if place < fixed then List.range newest
  else if place = fixed then [newest]
  else List.range (newest + 1)

/-- The tuples of so many numbers up to `newest` that hold it at the place `fixed` and nowhere
before, in lexicographic order. -/
def tuplesAround (newest fixed arity : Nat) : List (List Nat) :=
  product ((List.range arity).map (numbersAround newest fixed))

/-- No number is larger than the newest. -/
theorem lt_of_mem_numbersAround {newest fixed place number : Nat}
    (member : number ∈ numbersAround newest fixed place) : number < newest + 1 := by
  rw [numbersAround] at member
  split at member
  · exact Nat.lt_succ_of_lt (List.mem_range.mp member)
  · split at member
    · rw [List.mem_singleton.mp member]
      exact Nat.lt_succ_self newest
    · exact List.mem_range.mp member

/-- Every tuple of the right length is there. -/
theorem mem_tuples {bound arity : Nat} {tuple : List Nat} :
    tuple ∈ tuples bound arity ↔ tuple.length = arity ∧ ∀ number ∈ tuple, number < bound := by
  rw [tuples, mem_product]
  induction arity generalizing tuple with
  | zero => cases tuple <;> simp
  | succ arity ih =>
    cases tuple with
    | nil => simp [List.replicate_succ]
    | cons number tuple => simp [List.replicate_succ, ih, and_left_comm]

/-- No tuple occurs twice. -/
theorem nodup_tuples (bound arity : Nat) : (tuples bound arity).Nodup := by
  refine nodup_product fun list member => ?_
  rw [List.eq_of_mem_replicate member]
  exact List.nodup_range

/-- The number of tuples with one more place is that with any number in front. -/
theorem tuples_succ_arity (bound arity : Nat) :
    tuples bound (arity + 1) =
      (List.range bound).flatMap fun number => (tuples bound arity).map (number :: ·) := rfl

/-- With the newest number in front, any numbers up to it may follow. -/
theorem tuplesAround_zero (newest arity : Nat) :
    tuplesAround newest 0 (arity + 1) = (tuples (newest + 1) arity).map (newest :: ·) := by
  simp only [tuplesAround, List.range_succ_eq_map, List.map_cons, List.map_map, product_cons]
  simp [tuples, numbersAround, List.map_const', Function.comp_def, List.range_succ_eq_map]

/-- Further to the right, a smaller number stands in front. -/
theorem tuplesAround_succ (newest fixed arity : Nat) :
    tuplesAround newest (fixed + 1) (arity + 1) =
      (List.range newest).flatMap fun number =>
        (tuplesAround newest fixed arity).map (number :: ·) := by
  have front : numbersAround newest (fixed + 1) 0 = List.range newest := by simp [numbersAround]
  have behind : numbersAround newest (fixed + 1) ∘ Nat.succ = numbersAround newest fixed := by
    funext place
    simp [numbersAround]
  rw [tuplesAround, List.range_succ_eq_map, List.map_cons, List.map_map, product_cons, front,
    behind, tuplesAround]

/-- Two loops can change places, up to the order of what they give. -/
theorem flatMap_comm_perm (list : List α) (other : List β) (f : α → β → List γ) :
    (list.flatMap fun a => other.flatMap (f a)).Perm
      (other.flatMap fun b => list.flatMap (f · b)) := by
  induction list with
  | nil => simp
  | cons a list ih =>
    simp only [List.flatMap_cons]
    exact (ih.append_left _).trans (List.flatMap_append_perm other (f a) _)

open scoped List in
/-- **The new tuples, each once.** With one more number there are the tuples of before, and for each
place those that hold the new number there first. -/
theorem tuples_succ_perm (bound arity : Nat) :
    (tuples (bound + 1) arity).Perm
      (tuples bound arity ++ (List.range arity).flatMap (tuplesAround bound · arity)) := by
  induction arity with
  | zero => simp [tuples, product]
  | succ arity ih =>
    have front (number : Nat) := ih.map (number :: ·)
    calc tuples (bound + 1) (arity + 1)
        = ((List.range bound).flatMap fun number => (tuples (bound + 1) arity).map (number :: ·)) ++
            (tuples (bound + 1) arity).map (bound :: ·) := by
          rw [tuples_succ_arity, List.range_succ, List.flatMap_append, List.flatMap_singleton]
      _ ~ ((List.range bound).flatMap fun number => (tuples bound arity).map (number :: ·) ++
            (List.range arity).flatMap fun fixed =>
              (tuplesAround bound fixed arity).map (number :: ·)) ++
            tuplesAround bound 0 (arity + 1) := by
          rw [tuplesAround_zero]
          refine List.Perm.append_right _ (List.Perm.flatMap_left _ fun number _ => ?_)
          simpa [List.map_flatMap] using front number
      _ ~ (tuples bound (arity + 1) ++ (List.range bound).flatMap fun number =>
            (List.range arity).flatMap fun fixed =>
              (tuplesAround bound fixed arity).map (number :: ·)) ++
            tuplesAround bound 0 (arity + 1) :=
          (List.flatMap_append_perm _ _ _).symm.append_right _
      _ ~ (tuples bound (arity + 1) ++ (List.range arity).flatMap fun fixed =>
            tuplesAround bound (fixed + 1) (arity + 1)) ++
            tuplesAround bound 0 (arity + 1) := by
          simp only [tuplesAround_succ]
          exact ((flatMap_comm_perm _ _ _).append_left _).append_right _
      _ ~ tuples bound (arity + 1) ++
            (List.range (arity + 1)).flatMap (tuplesAround bound · (arity + 1)) := by
          rw [List.append_assoc, List.range_succ_eq_map, List.flatMap_cons, List.flatMap_map]
          exact List.perm_append_comm.append_left _

end ForwardChaining
