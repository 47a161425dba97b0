import ForwardChaining.Text.ReadError
import ForwardChaining.Text.Token

/-! # The reader

Reads terms by recursive descent. A step that reads something returns the unread rest of its text
together with a proof that it is shorter, so the recursion ends without a bound on its depth.

The reader stops for good inside a list and at a number out of range, and then every list that is
open adds to what was expected. Where no term starts at all, `readTerm?` leaves it to its caller
whether that is an error. -/

namespace ForwardChaining

/-- Where and why reading stopped. -/
structure Stop where
  /-- The text from there on. -/
  unread : List Char
  /-- What could have stood there. -/
  expected : List Expectation
  deriving DecidableEq, Repr

/-- The same place, where a term was expected around what already was. -/
def Stop.insideTerm (stop : Stop) : Stop :=
  { stop with expected := stop.expected ++ [.term] }

/-- The error in a text where reading it stopped. -/
def Stop.toError (text : List Char) (stop : Stop) : ReadError :=
  ⟨text.take (text.length - stop.unread.length), stop.unread, stop.expected⟩

/-- Something read at the front of `text`, and the rest of the text, which is shorter. -/
abbrev ReadFrom (text : List Char) (α : Type) : Type :=
  { read : α × List Char // read.2.length < text.length }

mutual

/-- Reads the term at the very front of a text, if one starts there. -/
def readTerm? (marker : Char) (text : List Char) : Except Stop (Option (ReadFrom text Term)) :=
  match text with
  | '(' :: rest =>
    match readItems marker rest with
    | .error stop => .error stop.insideTerm
    | .ok ⟨(items, unread), shorter⟩ =>
      .ok (some ⟨(.list items, unread), Nat.lt_succ_of_lt shorter⟩)
  | text =>
    -- No token here means no term: a delimiter other than `(`, or the end.
    if empty : tokenAt text = [] then .ok none
    else
      match Term.ofToken? marker (tokenAt text) with
      | some term => .ok (some ⟨(term, afterToken text), length_afterToken_lt empty⟩)
      | none => .error ⟨afterToken text, [.term]⟩
termination_by 2 * text.length

/-- Reads the rest of a list, up to and including the parenthesis that closes it. -/
def readItems (marker : Char) (text : List Char) : Except Stop (ReadFrom text (List Term)) :=
  have skipped := length_skipBlanks_le text
  match readTerm? marker (skipBlanks text) with
  | .error stop => .error stop
  | .ok (some ⟨(item, unread), shorter⟩) =>
    have inText : unread.length < text.length := Nat.lt_of_lt_of_le shorter skipped
    match readItems marker unread with
    | .error stop => .error stop
    | .ok ⟨(items, unread), shorter⟩ =>
      .ok ⟨(item :: items, unread), Nat.lt_trans shorter inText⟩
  | .ok none =>
    match closed : skipBlanks text with
    | ')' :: unread => .ok ⟨([], unread), by rw [closed] at skipped; exact skipped⟩
    -- Neither a term nor the end of the list can be read here, and only the latter is named.
    | unread => .error ⟨unread, [.closing]⟩
termination_by 2 * text.length + 1

end

/-! ## What is read

The same functions without the proofs about lengths, and the equations that they satisfy. -/

/-- The term at the very front of a text, and the rest of the text. -/
def termAt? (marker : Char) (text : List Char) : Except Stop (Option (Term × List Char)) :=
  (readTerm? marker text).map (Option.map Subtype.val)

/-- The items up to the parenthesis that closes their list, and the rest of the text. -/
def itemsAt (marker : Char) (text : List Char) : Except Stop (List Term × List Char) :=
  (readItems marker text).map Subtype.val

/-- A parenthesis opens a list of the items that follow it. -/
theorem termAt?_open (marker : Char) (rest : List Char) :
    termAt? marker ('(' :: rest) =
      match itemsAt marker rest with
      | .error stop => .error stop.insideTerm
      | .ok (items, unread) => .ok (some (.list items, unread)) := by
  rw [termAt?, itemsAt, readTerm?]
  cases readItems marker rest <;> rfl

/-- Anywhere else, a term is a token. -/
theorem termAt?_token (marker : Char) {text : List Char} (notOpen : text.head? ≠ some '(') :
    termAt? marker text =
      if tokenAt text = [] then .ok none
      else
        match Term.ofToken? marker (tokenAt text) with
        | some term => .ok (some (term, afterToken text))
        | none => .error ⟨afterToken text, [.term]⟩ := by
  rw [termAt?, readTerm?.eq_def]
  split
  · exact absurd rfl notOpen
  · by_cases empty : tokenAt text = []
    · rw [dif_pos empty, if_pos empty]
      rfl
    · rw [dif_neg empty, if_neg empty]
      cases Term.ofToken? marker (tokenAt text) <;> rfl

/-- Items are read one by one, until no term starts and the list has to be closed. -/
theorem itemsAt_eq (marker : Char) (text : List Char) :
    itemsAt marker text =
      match termAt? marker (skipBlanks text) with
      | .error stop => .error stop
      | .ok (some (item, unread)) =>
        match itemsAt marker unread with
        | .error stop => .error stop
        | .ok (items, unread) => .ok (item :: items, unread)
      | .ok none =>
        match skipBlanks text with
        | ')' :: unread => .ok ([], unread)
        | unread => .error ⟨unread, [.closing]⟩ := by
  rw [itemsAt, readItems.eq_def, termAt?]
  cases readTerm? marker (skipBlanks text) with
  | error stop => rfl
  | ok found =>
    cases found with
    | none =>
      dsimp only
      split
      · rename_i closed
        simp [Except.map, closed]
      · simp [Except.map]
    | some found =>
      obtain ⟨⟨item, unread⟩, shorter⟩ := found
      simp only [Except.map, Option.map, itemsAt]
      cases readItems marker unread <;> rfl

/-! ## Programs and single terms -/

/-- Reads terms as long as one starts after the blanks, and returns the text that is left. -/
def readForms (marker : Char) (text : List Char) : Except Stop (List Term × List Char) :=
  match readTerm? marker (skipBlanks text) with
  | .error stop => .error stop
  | .ok none => .ok ([], skipBlanks text)
  | .ok (some ⟨(form, unread), shorter⟩) =>
    have : unread.length < text.length := Nat.lt_of_lt_of_le shorter (length_skipBlanks_le text)
    match readForms marker unread with
    | .error stop => .error stop
    | .ok (forms, unread) => .ok (form :: forms, unread)
termination_by text.length

/-- Reads all forms of a program. Nothing may be left over. -/
def readProgram (marker : Char) (source : String) : Except ReadError (List Term) :=
  let text := source.toList
  match readForms marker text with
  | .error stop => .error (stop.toError text)
  | .ok (forms, []) => .ok forms
  | .ok (_, unread) => .error (Stop.toError text ⟨unread, []⟩)

/-- Reads a text that is exactly one term. -/
def readTerm (marker : Char) (source : String) : Except ReadError Term :=
  let text := source.toList
  match readTerm? marker (skipBlanks text) with
  | .error stop => .error (stop.toError text)
  | .ok none => .error (Stop.toError text ⟨skipBlanks text, [.atom, .term]⟩)
  | .ok (some ⟨(term, unread), _⟩) =>
    match skipBlanks unread with
    | [] => .ok term
    | leftover => .error (Stop.toError text ⟨leftover, []⟩)

end ForwardChaining
