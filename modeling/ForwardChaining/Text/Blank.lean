/-! # Blanks

Two sets of blank characters matter when terms are read: every character that Unicode calls white
space ends a token, but only the ASCII ones may stand between tokens. -/

namespace ForwardChaining

/-- The characters with the Unicode property `White_Space`. -/
def isWhiteSpace (char : Char) : Bool :=
  let code := char.toNat
  (0x0009 ≤ code && code ≤ 0x000d) || code = 0x0020 || code = 0x0085 || code = 0x00a0 ||
    code = 0x1680 || (0x2000 ≤ code && code ≤ 0x200a) || code = 0x2028 || code = 0x2029 ||
    code = 0x202f || code = 0x205f || code = 0x3000

/-- The blanks that may separate tokens: space, tab, line feed, form feed and carriage return, but
not the vertical tab. -/
def isBlank (char : Char) : Bool :=
  char = ' ' || char = '\t' || char = '\n' || char = '\x0c' || char = '\r'

/-- The characters that no token contains. -/
def isDelimiter (char : Char) : Bool :=
  isWhiteSpace char || char = '(' || char = ')' || char = ';'

/-- Blanks are white space. -/
theorem isWhiteSpace_of_isBlank {char : Char} (blank : isBlank char) : isWhiteSpace char := by
  simp only [isBlank, Bool.or_eq_true, decide_eq_true_eq] at blank
  rcases blank with (((rfl | rfl) | rfl) | rfl) | rfl <;> rfl

/-- Blanks end a token. -/
theorem isDelimiter_of_isBlank {char : Char} (blank : isBlank char) : isDelimiter char := by
  simp [isDelimiter, isWhiteSpace_of_isBlank blank]

mutual

/-- The text without the blanks and comments in front of it. A comment runs from `;` to a line feed,
with or without a carriage return before it, or to the end; one that meets a carriage return with
no line feed after it is no comment, and stays. -/
def skipBlanks : List Char → List Char
  | [] => []
  | char :: rest =>
    if isBlank char then skipBlanks rest
    else if char = ';' then skipComment (char :: rest) rest
    else char :: rest

/-- What is left after the comment that `start` opens and the blanks that follow it, or `start`
when it is no comment. -/
def skipComment (start : List Char) : List Char → List Char
  | [] => []
  | '\n' :: rest => skipBlanks rest
  | '\r' :: '\n' :: rest => skipBlanks rest
  | '\r' :: _ => start
  | _ :: rest => skipComment start rest

end

mutual

/-- Skipping blanks leaves an end of the text. -/
theorem skipBlanks_isSuffix : ∀ text : List Char, skipBlanks text <:+ text
  | [] => by simp [skipBlanks]
  | char :: rest => by
    rw [skipBlanks]
    split
    · exact (skipBlanks_isSuffix rest).trans (List.suffix_cons char rest)
    · split
      · exact skipComment_isSuffix _ rest (List.suffix_cons char rest)
      · exact List.suffix_refl _

/-- Skipping a comment leaves an end of the text from its start. -/
theorem skipComment_isSuffix (start : List Char) :
    ∀ text : List Char, text <:+ start → skipComment start text <:+ start
  | [], _ => by simp [skipComment]
  | char :: rest, inside => by
    have tailInside : rest <:+ start := (List.suffix_cons char rest).trans inside
    unfold skipComment
    split
    · exact List.nil_suffix
    · rename_i equal
      cases equal
      exact (skipBlanks_isSuffix _).trans tailInside
    · rename_i equal
      cases equal
      exact (skipBlanks_isSuffix _).trans ((List.suffix_cons '\n' _).trans tailInside)
    · exact List.suffix_refl start
    · rename_i equal
      cases equal
      exact skipComment_isSuffix start rest tailInside

end

/-- Skipping blanks never makes a text longer. -/
theorem length_skipBlanks_le (text : List Char) : (skipBlanks text).length ≤ text.length :=
  (skipBlanks_isSuffix text).length_le

end ForwardChaining
