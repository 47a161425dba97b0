import ForwardChaining.Proofs.Text.Lexing

/-! # Nesting

A second way to read a text: its lexemes are dealt with one by one, with a stack of the lists that
are open. It is the grammar of programs in a form that does not recurse, look ahead or go back, and
it marks variables only when all forms are there.

Marking them on the way makes no difference (`grammarForms?_eq`). What is left is a stack machine on
texts (`nestText`), which takes a parenthesis, a token or a blank off the front of its text. -/

namespace ForwardChaining

/-! ## The grammar -/

/-- The forms that lexemes make up. `stack` holds the items so far of the lists around the innermost
open one, from the inside out, and `items` those of the innermost one, or the forms so far when no
list is open. A closing parenthesis needs an open list, and none may be open at the end. -/
def nest (read : List Char → Option Term) :
    List Lexeme → (stack : List (List Term)) → (items : List Term) → Option (List Term)
  | [], [], items => some items
  | [], _ :: _, _ => none
  | .opening :: lexemes, stack, items => nest read lexemes (items :: stack) []
  | .closing :: _, [], _ => none
  | .closing :: lexemes, outer :: stack, items =>
    nest read lexemes stack (outer ++ [.list items])
  | .word token :: lexemes, stack, items =>
    (read token).bind fun term => nest read lexemes stack (items ++ [term])

/-- The atom that a word names. A sign at most and then digits only are an integer, and fail when it
takes more than 64 bits. What starts like a number and is a numeral is a double, and fails when it
is infinite. Anything else is a symbol. -/
def wordAtom? (word : List Char) : Option Atom :=
  let digits := (splitSign word).2
  if !digits.isEmpty && digits.all Char.isDigit then
    let value : Int := if word.head? = some '-' then -digitsValue digits else digitsValue digits
    (int64? value).map fun value => .number (.int value)
  else
    match if startsNumber word then Decimal.ofChars? word else none with
    | some decimal =>
      if decimal.toDouble.isFinite then some (.number (.double decimal.toDouble)) else none
    | none => some (.symbol (String.ofList word))

namespace Term

mutual

/-- The term with variables in place of the symbols that start with `marker`. -/
def mark (marker : Char) : Term → Term
  | .atom (.symbol name) =>
    if name.toList.head? = some marker then .var name else .atom (.symbol name)
  | .atom (.number value) => .atom (.number value)
  | .var name => .var name
  | .list items => .list (markItems marker items)

/-- The terms with variables in place of the symbols that start with `marker`. -/
def markItems (marker : Char) : List Term → List Term
  | [] => []
  | item :: items => item.mark marker :: markItems marker items

end

/-- Marking terms is marking each. -/
theorem markItems_eq_map (marker : Char) (items : List Term) :
    markItems marker items = items.map (mark marker) := by
  induction items with
  | nil => rfl
  | cons item items ih => simp [markItems, ih]

/-- Marking a list is marking its items. -/
@[simp] theorem mark_list (marker : Char) (items : List Term) :
    (list items).mark marker = list (items.map (mark marker)) := by
  rw [mark, markItems_eq_map]

/-- The reader marks an atom as it reads it. -/
@[simp] theorem mark_atom (marker : Char) (constant : Atom) :
    (atom constant).mark marker = ofAtom marker constant := by
  cases constant <;> rfl

end Term

/-- The forms of a text by the grammar. -/
def grammarForms? (marker : Char) (text : List Char) : Option (List Term) :=
  ((lex text).bind fun lexemes => nest (fun word => (wordAtom? word).map .atom) lexemes [] []).map
    (List.map (Term.mark marker))

/-! ## Marking on the way -/

/-- The grammar and the reader tell words apart alike. -/
theorem wordAtom?_eq_ofToken? (word : List Char) : wordAtom? word = Atom.ofToken? word := by
  have integer : (!(splitSign word).2.isEmpty && (splitSign word).2.all Char.isDigit) =
      isIntegerToken word := rfl
  have negative : word.head? = some '-' ↔ (splitSign word).1 := by
    unfold splitSign
    split <;> simp_all [List.head?_eq_some_iff]
  rw [wordAtom?, Atom.ofToken?, integerOf?]
  simp only [integer, negative]
  split
  · rfl
  · by_cases number : startsNumber word
    · rw [if_pos number, if_pos number]
      cases Decimal.ofChars? word with
      | none => rfl
      | some decimal =>
        dsimp only
        rw [finiteDouble?]
        split <;> rfl
    · rw [if_neg number, if_neg number]

/-- Whether terms are changed as they are read or all at the end, the forms are the same, as long as
lists are changed item by item. -/
theorem nest_map {change : Term → Term}
    (onLists : ∀ items, change (.list items) = .list (items.map change))
    (read : List Char → Option Term) (lexemes : List Lexeme) (stack : List (List Term))
    (items : List Term) :
    nest (fun word => (read word).map change) lexemes (stack.map (List.map change))
        (items.map change) =
      (nest read lexemes stack items).map (List.map change) := by
  induction lexemes generalizing stack items with
  | nil => cases stack <;> rfl
  | cons lexeme lexemes ih =>
    cases lexeme with
    | opening => exact ih (items :: stack) []
    | closing =>
      cases stack with
      | nil => rfl
      | cons outer stack =>
        have closed := ih stack (outer ++ [.list items])
        rw [List.map_append, List.map_singleton, onLists] at closed
        exact closed
    | word token =>
      simp only [nest]
      cases read token with
      | none => rfl
      | some term =>
        have gone := ih stack (items ++ [term])
        rw [List.map_append] at gone
        exact gone

/-- What the stack machine makes of a text when it marks variables on the way. -/
def nestText (marker : Char) (text : List Char) (stack : List (List Term)) (items : List Term) :
    Option (List Term) :=
  (lex text).bind fun lexemes => nest (Term.ofToken? marker) lexemes stack items

/-- Marking on the way gives the forms of the grammar. -/
theorem grammarForms?_eq (marker : Char) (text : List Char) :
    grammarForms? marker text = nestText marker text [] [] := by
  have read : Term.ofToken? marker = fun word =>
      ((wordAtom? word).map Term.atom).map (Term.mark marker) := by
    funext word
    simp [Term.ofToken?, wordAtom?_eq_ofToken?, Function.comp_def]
  rw [grammarForms?, nestText, Option.map_bind, read]
  refine congrArg _ (funext fun lexemes => ?_)
  exact (nest_map (Term.mark_list marker) _ lexemes [] []).symm

/-! ## The stack machine on texts -/

section

variable {marker : Char}

/-- At the end no list may be open. -/
@[simp] theorem nestText_nil (items : List Term) : nestText marker [] [] items = some items := rfl

/-- So an open list fails at the end. -/
@[simp] theorem nestText_nil_cons (outer : List Term) (stack : List (List Term))
    (items : List Term) : nestText marker [] (outer :: stack) items = none := rfl

/-- A parenthesis opens a list. -/
theorem nestText_open (rest : List Char) (stack : List (List Term)) (items : List Term) :
    nestText marker ('(' :: rest) stack items = nestText marker rest (items :: stack) [] := by
  rw [nestText, lex_open, Option.bind_map]
  rfl

/-- A parenthesis closes the innermost list. -/
theorem nestText_close (rest : List Char) (outer : List Term) (stack : List (List Term))
    (items : List Term) :
    nestText marker (')' :: rest) (outer :: stack) items =
      nestText marker rest stack (outer ++ [.list items]) := by
  rw [nestText, lex_close, Option.bind_map]
  rfl

/-- A parenthesis without a list to close fails. -/
theorem nestText_close_nil (rest : List Char) (items : List Term) :
    nestText marker (')' :: rest) [] items = none := by
  rw [nestText, lex_close, Option.bind_map]
  exact Option.bind_fun_none _

/-- A token is a term, or fails. -/
theorem nestText_token {word rest : List Char} (undivided : isWord word) (ends : Ends rest)
    (stack : List (List Term)) (items : List Term) :
    nestText marker (word ++ rest) stack items = (Term.ofToken? marker word).bind fun term =>
      nestText marker rest stack (items ++ [term]) := by
  obtain ⟨token, after⟩ := tokenAt_append undivided ends
  have nonempty : tokenAt (word ++ rest) ≠ [] := by
    rw [token]
    exact (isWord_iff.mp undivided).1
  rw [nestText, lex_of_token nonempty, token, after, Option.bind_map]
  simp only [nestText, Function.comp_def, nest]
  exact Option.bind_comm _ _

/-- A blank does nothing. -/
theorem nestText_blank {char : Char} (blank : isBlank char) (text : List Char)
    (stack : List (List Term)) (items : List Term) :
    nestText marker (char :: text) stack items = nestText marker text stack items := by
  rw [nestText, lex_blank blank, nestText]

/-- A word is read as the term that it names. -/
theorem nestText_word {word rest : List Char} (undivided : isWord word) (ends : Ends rest)
    {term : Term} (read : Term.ofToken? marker word = some term) (stack : List (List Term))
    (items : List Term) :
    nestText marker (word ++ rest) stack items = nestText marker rest stack (items ++ [term]) := by
  rw [nestText_token undivided ends, read]
  rfl

/-- A text that nothing can be read from fails. -/
theorem nestText_of_blocked {text : List Char} (blocked : Blocked text) (stack : List (List Term))
    (items : List Term) : nestText marker text stack items = none := by
  rw [nestText, lex_of_blocked blocked]
  rfl

end

end ForwardChaining
