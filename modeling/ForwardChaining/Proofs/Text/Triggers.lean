import ForwardChaining.Proofs.Matching.Capture
import ForwardChaining.Proofs.Text.Readable

/-! # Triggers are read back

A trigger is shown as a term: its only clause as it is, and several clauses as the list of them
(`Trigger.written`). Readable clauses make this term readable, so it comes back from the text of the
trigger.

Whether it then writes down the same clauses is another question, since the text does not tell a
single clause from a list of clauses. It does unless the only clause is itself a list of lists; its
items are then taken for clauses (`Trigger.readTerm_text_ofTerm`). -/

namespace ForwardChaining

variable {marker : Char} {term : Term}

/-- The terms that are read from their own text are the readable ones. -/
theorem readTerm_text_eq_ok_iff :
    readTerm marker term.text = .ok term ↔ term.isReadable marker := by
  rw [readTerm_eq_ok_iff, ← readProgram_eq_ok_iff]
  constructor
  · intro read
    exact isReadable_of_readProgram read term List.mem_cons_self
  · exact readProgram_of_isReadable

/-- No list is its own only item. -/
theorem Term.ne_list_singleton (term : Term) : term ≠ .list [term] := by
  intro equal
  have smaller : term.size < (Term.list [term]).size := size_lt_size_list List.mem_cons_self
  rw [← equal] at smaller
  exact smaller.false

namespace Trigger

/-- The term that a trigger is shown as. -/
def written (trigger : Trigger) : Term :=
  match trigger.clauses with
  | [clause] => clause
  | clauses => .list clauses

/-- The text of a trigger is the text of a term. -/
theorem text_eq_written (trigger : Trigger) : trigger.text = trigger.written.text := by
  obtain ⟨_ | ⟨clause, _ | ⟨next, clauses⟩⟩, _⟩ := trigger
  · exact (Term.text_list _).symm
  · rfl
  · exact (Term.text_list _).symm

/-- A single clause is shown as it is. -/
theorem written_of_singleton {trigger : Trigger} {clause : Term}
    (single : trigger.clauses = [clause]) : trigger.written = clause := by
  rw [written, single]

/-- Several clauses are shown as the list of them. -/
theorem written_of_ne {trigger : Trigger} (several : ∀ clause, trigger.clauses ≠ [clause]) :
    trigger.written = .list trigger.clauses := by
  rw [written]
  split
  · next clause single => exact absurd single (several clause)
  · rfl

/-- The clauses that a readable term writes down are readable. -/
theorem isReadable_clauses_ofTerm (readable : term.isReadable marker) :
    ∀ clause ∈ (ofTerm term).clauses, clause.isReadable marker := by
  by_cases lists : term.ListsClauses
  · obtain ⟨items, nonempty, rfl, areLists⟩ := lists
    rw [clauses_ofTerm_list nonempty areLists]
    simpa using readable
  · rw [clauses_ofTerm_of_not lists]
    simpa using readable

/-- Readable clauses are shown as a readable term. -/
theorem isReadable_written {trigger : Trigger}
    (readable : ∀ clause ∈ trigger.clauses, clause.isReadable marker) :
    trigger.written.isReadable marker := by
  rw [written]
  split
  · next clause single => exact readable clause (single ▸ List.mem_cons_self)
  · simpa using readable

/-- A term is its own only clause unless it is a list of lists. -/
theorem clauses_ofTerm_eq_singleton_iff : (ofTerm term).clauses = [term] ↔ ¬ term.ListsClauses := by
  constructor
  · rintro single ⟨items, nonempty, rfl, areLists⟩
    rw [clauses_ofTerm_list nonempty areLists] at single
    exact Term.ne_list_singleton (.list items) (congrArg Term.list single)
  · exact clauses_ofTerm_of_not

/-- Several clauses that a term writes down are shown as a list of lists, which writes them down
again. -/
theorem clauses_ofTerm_written_of_ne (several : ∀ clause, (ofTerm term).clauses ≠ [clause]) :
    (ofTerm (ofTerm term).written).clauses = (ofTerm term).clauses := by
  rw [written_of_ne several]
  by_cases lists : term.ListsClauses
  · obtain ⟨items, nonempty, rfl, areLists⟩ := lists
    rw [clauses_ofTerm_list nonempty areLists, clauses_ofTerm_list nonempty areLists]
  · exact absurd (clauses_ofTerm_of_not lists) (several term)

/-- A list of lists is the only clause of just the list that holds nothing else. -/
theorem clauses_ofTerm_eq_iff_of_lists {clause : Term} (lists : clause.ListsClauses) :
    (ofTerm term).clauses = [clause] ↔ term = .list [clause] := by
  obtain ⟨items, -, isList, -⟩ := id lists
  constructor
  · intro single
    by_cases several : term.ListsClauses
    · obtain ⟨outer, nonempty, rfl, areLists⟩ := several
      rw [← single, clauses_ofTerm_list nonempty areLists]
    · rw [clauses_ofTerm_of_not several, List.cons.injEq] at single
      exact absurd (single.1 ▸ lists) several
  · rintro rfl
    refine clauses_ofTerm_list (List.cons_ne_nil _ _) (List.forall_mem_cons.mpr ⟨?_, nofun⟩)
    rw [isList]
    rfl

/-- **Shown clauses are written down again**, unless the term is a list of one list of lists. -/
theorem clauses_ofTerm_written_iff :
    (ofTerm (ofTerm term).written).clauses = (ofTerm term).clauses ↔
      ¬ ∃ clause, clause.ListsClauses ∧ term = .list [clause] := by
  by_cases single : ∃ clause, (ofTerm term).clauses = [clause]
  · obtain ⟨clause, single⟩ := single
    rw [written_of_singleton single, single, clauses_ofTerm_eq_singleton_iff]
    refine not_congr ⟨fun lists => ?_, ?_⟩
    · exact ⟨clause, lists, (clauses_ofTerm_eq_iff_of_lists lists).mp single⟩
    · rintro ⟨other, lists, equal⟩
      rw [(clauses_ofTerm_eq_iff_of_lists lists).mpr equal, List.cons.injEq] at single
      exact single.1 ▸ lists
  · refine iff_of_true (clauses_ofTerm_written_of_ne (not_exists.mp single)) ?_
    rintro ⟨clause, lists, equal⟩
    exact single ⟨clause, (clauses_ofTerm_eq_iff_of_lists lists).mpr equal⟩

/-- **A trigger is read back from its text.** What is read writes down the same clauses, unless the
trigger was written as a list of one list of lists: then it writes down the items of the latter. -/
theorem readTerm_text_ofTerm (read : readTerm marker term.text = .ok term) :
    ∃ again, readTerm marker (ofTerm term).text = .ok again ∧
      ((ofTerm again).clauses = (ofTerm term).clauses ↔
        ¬ ∃ clause, clause.ListsClauses ∧ term = .list [clause]) ∧
      ∀ items, (Term.list items).ListsClauses → term = .list [.list items] →
        (ofTerm again).clauses = items := by
  have readable := readTerm_text_eq_ok_iff.mp read
  refine ⟨(ofTerm term).written, ?_, clauses_ofTerm_written_iff, ?_⟩
  · rw [text_eq_written]
    exact readTerm_text_eq_ok_iff.mpr (isReadable_written (isReadable_clauses_ofTerm readable))
  · intro items lists equal
    rw [written_of_singleton ((clauses_ofTerm_eq_iff_of_lists lists).mpr equal)]
    obtain ⟨others, nonempty, same, areLists⟩ := lists
    cases same
    exact clauses_ofTerm_list nonempty areLists

/-- Two clauses, of which one is a list of lists, are read back. -/
theorem readTerm_text_ofTerm_pair :
    let pair : Term := .list [.list [.list [.var "?x"], .list []], .list [.atom (.symbol "q")]]
    readTerm '?' pair.text = .ok pair ∧
      ∃ again, readTerm '?' (ofTerm pair).text = .ok again ∧
        (ofTerm again).clauses = (ofTerm pair).clauses := by
  intro pair
  have read : readTerm '?' pair.text = .ok pair := by decide +kernel
  obtain ⟨again, readAgain, same, -⟩ := readTerm_text_ofTerm read
  refine ⟨read, again, readAgain, same.mpr ?_⟩
  rintro ⟨clause, -, equal⟩
  simp [pair] at equal

/-- The trigger `((()))` is shown as `(())`, which is read as a trigger with another clause. -/
theorem clauses_ofTerm_again_ne :
    let nested : Term := .list [.list [.list []]]
    let again : Term := .list [.list []]
    readTerm '?' nested.text = .ok nested ∧ readTerm '?' (ofTerm nested).text = .ok again ∧
      (ofTerm again).clauses ≠ (ofTerm nested).clauses := by
  decide +kernel

end Trigger

end ForwardChaining
