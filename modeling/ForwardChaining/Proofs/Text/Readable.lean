import ForwardChaining.Proofs.Number.DecimalText
import ForwardChaining.Proofs.Text.Reading

/-! # Readable terms

Names are written as they are, so not every term can be read back from its text: a symbol may have
the text of a number, or of two terms, or of a variable. A term is readable when that does not
happen anywhere in it, and its doubles are finite (`Term.isReadable`).

The readable terms are the ones that come back (`readProgram_text`). Each has a text that the reader
takes for that term wherever it stands (`readsBack_of_isReadable`), and nothing else is ever read
(`isReadable_of_readProgram`). -/

namespace ForwardChaining

/-! ## Readability -/

/-- Whether a word is read as a name: it is neither an integer nor the numeral of a double. -/
def isName (word : List Char) : Bool :=
  isWord word && !isIntegerToken word && !(startsNumber word && (Decimal.ofChars? word).isSome)

/-- Names are the words that are read neither as an integer nor as a double. -/
theorem isName_iff {word : List Char} :
    isName word ↔ isWord word ∧ ¬ isIntegerToken word ∧
      ¬ (startsNumber word ∧ (Decimal.ofChars? word).isSome) := by
  simp only [isName, Bool.and_eq_true, Bool.not_eq_true', Bool.eq_false_iff, ne_eq, and_assoc]

namespace Term

mutual

/-- Whether the term is read back from its text: its doubles are finite, its symbols and variables
are words that name something, and the marker tells which of the two. -/
def isReadable (marker : Char) : Term → Bool
  | .atom (.number (.int _)) => true
  | .atom (.number (.double value)) => value.isFinite
  | .atom (.symbol name) => isName name.toList && name.toList.head? ≠ some marker
  | .var name => isName name.toList && name.toList.head? = some marker
  | .list items => areReadable marker items

/-- Whether each of the terms is read back. -/
def areReadable (marker : Char) : List Term → Bool
  | [] => true
  | item :: items => item.isReadable marker && areReadable marker items

end

/-- Terms are readable when each of them is. -/
theorem areReadable_eq_all (marker : Char) (items : List Term) :
    areReadable marker items = items.all (isReadable marker) := by
  induction items with
  | nil => rfl
  | cons item items ih => simp [areReadable, ih]

/-- A list is readable when its items are. -/
@[simp] theorem isReadable_list (marker : Char) (items : List Term) :
    (list items).isReadable marker = items.all (isReadable marker) := by
  rw [isReadable, areReadable_eq_all]

end Term

/-! ## What is read is readable -/

section

variable {marker : Char}

/-- Words of names are read as symbols. -/
theorem ofToken?_eq_symbol_iff {word : List Char} {name : String} :
    Atom.ofToken? word = some (.symbol name) ↔
      name.toList = word ∧ ¬ isIntegerToken word ∧
        ¬ (startsNumber word ∧ (Decimal.ofChars? word).isSome) := by
  have same : String.ofList word = name ↔ name.toList = word := by
    constructor
    · rintro rfl
      exact String.toList_ofList
    · rintro rfl
      exact String.ofList_toList
  rw [Atom.ofToken?]
  by_cases integer : isIntegerToken word
  · simp [integer]
  · rw [if_neg integer]
    by_cases number : startsNumber word
    · rw [if_pos number]
      rcases Decimal.ofChars? word with _ | decimal <;> simp [integer, number, same]
    · rw [if_neg number]
      simp [integer, number, same]

/-- No double that is read is infinite, or no number. -/
theorem isFinite_of_finiteDouble? {decimal : Decimal} {value : Double}
    (read : finiteDouble? decimal = some value) : value.isFinite := by
  rw [finiteDouble?] at read
  split at read
  · cases read
    assumption
  · cases read

/-- Doubles that are read are finite. -/
theorem isFinite_of_ofToken? {word : List Char} {value : Double}
    (read : Atom.ofToken? word = some (.number (.double value))) : value.isFinite := by
  rw [Atom.ofToken?] at read
  split_ifs at read with integer number
  · simp at read
  · split at read
    · obtain ⟨double, finite, equal⟩ := Option.map_eq_some_iff.mp read
      cases equal
      exact isFinite_of_finiteDouble? finite
    · cases read
  · cases read

/-- **A word is read as a readable term.** -/
theorem isReadable_of_ofToken? {word : List Char} {term : Term} (undivided : isWord word)
    (read : Term.ofToken? marker word = some term) : term.isReadable marker := by
  obtain ⟨atom, isAtom, rfl⟩ := Option.map_eq_some_iff.mp read
  cases atom with
  | number value =>
    cases value with
    | int value => rfl
    | double value => exact isFinite_of_ofToken? isAtom
  | symbol name =>
    obtain ⟨rfl, noInteger, noNumeral⟩ := ofToken?_eq_symbol_iff.mp isAtom
    have named : isName name.toList := isName_iff.mpr ⟨undivided, noInteger, noNumeral⟩
    rw [Term.ofAtom]
    split
    · next marked => simp [Term.isReadable, named, marked]
    · next unmarked => simp [Term.isReadable, named, unmarked]

/-- Whether everything that has been read up to a place is readable. -/
def Place.IsReadable (marker : Char) (place : Place) : Prop :=
  (∀ outer ∈ place.stack, ∀ item ∈ outer, item.isReadable marker) ∧
    ∀ item ∈ place.items, item.isReadable marker

/-- A step reads nothing else. -/
theorem Step.isReadable {before after : Place} (step : Step marker before after)
    (readable : before.IsReadable marker) : after.IsReadable marker := by
  obtain ⟨inStack, inItems⟩ := readable
  cases step with
  | blank => exact ⟨inStack, inItems⟩
  | comment => exact ⟨inStack, inItems⟩
  | opening => exact ⟨List.forall_mem_cons.mpr ⟨inItems, inStack⟩, nofun⟩
  | closing =>
    obtain ⟨inOuter, inOthers⟩ := List.forall_mem_cons.mp inStack
    refine ⟨inOthers, ?_⟩
    simpa [or_imp, forall_and] using ⟨inOuter, inItems⟩
  | token undivided _ read =>
    have term := isReadable_of_ofToken? undivided read
    refine ⟨inStack, ?_⟩
    simpa [or_imp, forall_and] using ⟨inItems, term⟩

/-- **Nor does a run of steps.** -/
theorem Leads.isReadable {before after : Place} (leads : Leads marker before after)
    (readable : before.IsReadable marker) : after.IsReadable marker := by
  induction leads with
  | refl => exact readable
  | tail _ step ih => exact step.isReadable ih

/-- **All forms of a program are readable.** -/
theorem isReadable_of_readProgram {source : String} {forms : List Term}
    (read : readProgram marker source = .ok forms) : ∀ form ∈ forms, form.isReadable marker :=
  ((leads_of_readProgram read).isReadable ⟨nofun, nofun⟩).2

/-! ## Numbers are read back -/

/-- Digits are no delimiters. -/
theorem not_isDelimiter_of_isDigit {char : Char} (digit : char.isDigit) : ¬ isDelimiter char := by
  have least : '0'.toNat = 48 := rfl
  have greatest : '9'.toNat = 57 := rfl
  obtain ⟨low, high⟩ := Char.isDigit_iff_toNat.mp digit
  intro delimiter
  simp only [isDelimiter, isWhiteSpace, Bool.or_eq_true, Bool.and_eq_true,
    decide_eq_true_eq] at delimiter
  rcases delimiter with ((space | rfl) | rfl) | rfl
  · omega
  · cases digit
  · cases digit
  · cases digit

/-- A sign before a word makes a word. -/
theorem isWord_signed (negative : Bool) {unsigned : List Char} (word : isWord unsigned) :
    isWord (signed negative unsigned) := by
  obtain ⟨nonempty, undelimited⟩ := isWord_iff.mp word
  cases negative with
  | false => exact word
  | true =>
    refine isWord_iff.mpr ⟨List.cons_ne_nil _ _, List.forall_mem_cons.mpr ⟨?_, undelimited⟩⟩
    decide

/-- The text of an integer is its digits, with a minus sign when it is negative. -/
theorem toList_text_int (value : Int64) :
    (Number.int value).text.toList =
      signed (value.toInt < 0) (Nat.toDigits 10 value.toInt.natAbs) := by
  rw [Number.text]
  cases value.toInt with
  | ofNat value => simp [Int.repr, signed]
  | negSucc value => simp [Int.repr, signed]

/-- What starts with a digit after its sign starts a number. -/
theorem startsNumber_signed (negative : Bool) {unsigned : List Char}
    (starts : StartsWithDigit unsigned) : startsNumber (signed negative unsigned) := by
  rw [startsNumber, splitSign_signed negative starts]
  obtain ⟨first, rest, rfl, digit⟩ := starts
  dsimp only
  split
  · next equal =>
    cases equal
    cases digit
  · next equal =>
    cases equal
    exact digit
  · next equal => cases equal

/-- **An integer is read back.** -/
theorem ofToken?_int (value : Int64) :
    Atom.ofToken? (Number.int value).text.toList = some (.number (.int value)) := by
  have digits := isDigit_of_mem_toDigits value.toInt.natAbs
  have starts := startsWithDigit_append Nat.toDigits_ne_nil digits []
  rw [List.append_nil] at starts
  have unsigned := splitSign_signed (value.toInt < 0) starts
  have integer :
      isIntegerToken (signed (value.toInt < 0) (Nat.toDigits 10 value.toInt.natAbs)) := by
    rw [isIntegerToken, unsigned]
    simpa [Nat.toDigits_ne_nil] using digits
  -- The sign and the digits make up the value again.
  have worth : (if decide (value.toInt < 0) then -(value.toInt.natAbs : Int)
      else value.toInt.natAbs) = value.toInt := by
    simp only [decide_eq_true_eq]
    omega
  rw [toList_text_int, Atom.ofToken?, if_pos integer, integerOf?, unsigned]
  dsimp only
  rw [digitsValue_toDigits, worth, int64?_toInt]
  rfl

/-- **A finite double is read back.** -/
theorem ofToken?_double {value : Double} (finite : value.isFinite) :
    Atom.ofToken? (Number.double value).text.toList = some (.number (.double value)) := by
  obtain ⟨unsigned, whole, fraction, text, pointed, reads⟩ := Double.exists_text finite
  have starts := pointed.startsWithDigit
  -- The point keeps the token from being an integer.
  have noInteger : ¬ isIntegerToken (signed value.isNegative unsigned) := by
    rw [isIntegerToken, splitSign_signed _ starts, pointed.eq_append]
    simp
  rw [Number.text, text, Atom.ofToken?, if_neg noInteger, if_pos (startsNumber_signed _ starts),
    Decimal.ofChars?_point value.isNegative pointed]
  simp only [finiteDouble?, reads, finite]
  rfl

/-- The text of a number is a word. -/
theorem isWord_text {number : Number} (readable : (Term.atom (.number number)).isReadable marker) :
    isWord number.text.toList := by
  cases number with
  | int value =>
    rw [toList_text_int]
    exact isWord_signed _ (isWord_iff.mpr ⟨Nat.toDigits_ne_nil, fun char member =>
      not_isDelimiter_of_isDigit (isDigit_of_mem_toDigits _ char member)⟩)
  | double value =>
    obtain ⟨unsigned, whole, fraction, text, pointed, -⟩ := Double.exists_text readable
    rw [Number.text, text, pointed.eq_append]
    refine isWord_signed _ (isWord_iff.mpr ⟨by simp, fun char member => ?_⟩)
    rcases List.mem_append.mp member with inWhole | inRest
    · exact not_isDelimiter_of_isDigit (pointed.wholeDigits char inWhole)
    · rcases List.mem_cons.mp inRest with rfl | inFraction
      · decide
      · exact not_isDelimiter_of_isDigit (pointed.fractionDigits char inFraction)

/-! ## Readable terms are read back -/

/-- A name is read as a symbol, or as a variable if the marker says so. -/
theorem ofToken?_name (marker : Char) {name : String} (named : isName name.toList) :
    Term.ofToken? marker name.toList = some (.ofAtom marker (.symbol name)) := by
  obtain ⟨-, notNumber⟩ := isName_iff.mp named
  rw [Term.ofToken?, ofToken?_eq_symbol_iff.mpr ⟨rfl, notNumber⟩]
  rfl

/-- Whether the text of a term is read as the term, wherever it stands and whatever ends it. -/
def Term.ReadsBack (marker : Char) (term : Term) : Prop :=
  ∀ rest, Ends rest → ∀ stack items,
    nestText marker (term.text.toList ++ rest) stack items =
      nestText marker rest stack (items ++ [term])

/-- Terms are read one by one from their texts with spaces between them, when each of them is. -/
theorem nestText_intercalate {terms : List Term}
    (each : ∀ term ∈ terms, term.ReadsBack marker) {rest : List Char} (ends : Ends rest)
    (stack : List (List Term)) (items : List Term) :
    nestText marker ((" ".intercalate (terms.map Term.text)).toList ++ rest) stack items =
      nestText marker rest stack (items ++ terms) := by
  induction terms generalizing items with
  | nil => simp
  | cons term terms ih =>
    obtain ⟨first, others⟩ := List.forall_mem_cons.mp each
    cases terms with
    | nil => simpa using first rest ends stack items
    | cons next terms =>
      -- The space ends the first term, and is skipped before the next one.
      have spaced : (" ".intercalate ((term :: next :: terms).map Term.text)).toList ++ rest =
          term.text.toList ++
            ' ' :: ((" ".intercalate ((next :: terms).map Term.text)).toList ++ rest) := by
        simp
      have space : ∀ rest, Ends (' ' :: rest) := by
        rintro rest char ⟨⟩
        decide
      have later := ih others (items ++ [term])
      rw [spaced, first _ (space _), nestText, lex_blank (by decide)]
      rwa [nestText, List.append_assoc] at later

/-- **The text of a readable term is read as the term.** -/
theorem readsBack_of_isReadable {term : Term} (readable : term.isReadable marker) :
    term.ReadsBack marker := by
  intro rest ends stack items
  induction term generalizing rest stack items with
  | atom constant =>
    cases constant with
    | number number =>
      have read : Atom.ofToken? number.text.toList = some (.number number) := by
        cases number with
        | int value => exact ofToken?_int value
        | double value => exact ofToken?_double readable
      refine nestText_word (isWord_text readable) ends ?_ stack items
      rw [Term.ofToken?, read]
      rfl
    | symbol name =>
      rw [Term.isReadable, Bool.and_eq_true, decide_eq_true_eq] at readable
      refine nestText_word (isName_iff.mp readable.1).1 ends ?_ stack items
      rw [ofToken?_name marker readable.1, Term.ofAtom, if_neg readable.2]
  | var name =>
    rw [Term.isReadable, Bool.and_eq_true, decide_eq_true_eq] at readable
    refine nestText_word (isName_iff.mp readable.1).1 ends ?_ stack items
    rw [ofToken?_name marker readable.1, Term.ofAtom, if_pos readable.2]
  | list terms ih =>
    have each : ∀ term ∈ terms, term.isReadable marker := by simpa using readable
    -- The parenthesis ends the last item, whatever comes after the list.
    have closes : Ends (')' :: rest) := by
      rintro char ⟨⟩
      decide
    have itemsReadBack : ∀ term ∈ terms, term.ReadsBack marker :=
      fun term member => ih term member (each term member)
    have inside := nestText_intercalate itemsReadBack closes (items :: stack) []
    have text : (Term.list terms).text.toList ++ rest =
        '(' :: ((" ".intercalate (terms.map Term.text)).toList ++ ')' :: rest) := by
      simp
    rw [text, nestText_open, inside, nestText_close]
    simp

/-- A readable term is read back from its text. -/
theorem readProgram_of_isReadable {term : Term} (readable : term.isReadable marker) :
    readProgram marker term.text = .ok [term] := by
  have whole := readsBack_of_isReadable readable [] nofun [] []
  rw [List.append_nil] at whole
  exact readProgram_eq_ok_iff.mpr whole

end

/-- **Reading undoes writing just for the readable terms**, and nothing else is ever read: each form
of a program is readable and read back from its text. -/
theorem readProgram_text (marker : Char) :
    (∀ term : Term, readProgram marker term.text = .ok [term] ↔ term.isReadable marker) ∧
      ∀ source forms, readProgram marker source = .ok forms → ∀ form ∈ forms,
        form.isReadable marker ∧ readProgram marker form.text = .ok [form] := by
  refine ⟨fun term => ⟨fun read => ?_, readProgram_of_isReadable⟩, ?_⟩
  · exact isReadable_of_readProgram read term List.mem_cons_self
  · intro source forms read form member
    have readable := isReadable_of_readProgram read form member
    exact ⟨readable, readProgram_of_isReadable readable⟩

/-- The forms of a program that writes its numbers in other ways. -/
theorem readProgram_text_numbers :
    ∃ forms, readProgram '?' "(at ?x +07 1e-1 (-.0)) 1st" = .ok forms ∧ forms.length = 2 ∧
      ∀ form ∈ forms, form.isReadable '?' ∧ readProgram '?' form.text = .ok [form] := by
  have read : readProgram '?' "(at ?x +07 1e-1 (-.0)) 1st" =
      .ok [.list [.atom (.symbol "at"), .var "?x", .atom (.number (.int 7)),
          .atom (.number (.double ⟨0x3fb999999999999a⟩)),
          .list [.atom (.number (.double ⟨0x8000000000000000⟩))]],
        .atom (.symbol "1st")] := by decide +kernel
  exact ⟨_, read, rfl, (readProgram_text '?').2 _ _ read⟩

/-- A symbol with the text of an integer is not read back. -/
example : ¬ (Term.atom (.symbol "07")).isReadable '?' := by decide

end ForwardChaining
