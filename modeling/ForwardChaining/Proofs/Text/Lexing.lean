import ForwardChaining.Text.Token
import Mathlib.Data.List.TakeWhile

/-! # Lexemes

The characters of a text, one after another, make up a list of lexemes: parentheses and words. Which
lexeme a character belongs to depends on the characters before it only through a `Lexer.Mode`.

A token is one word (`lex_of_token`). The reader skips blanks and comments (`skips_skipBlanks`), and
neither of them is a lexeme. Skipping ends at a token, at a parenthesis, at the end of the text, or
where nothing can be read (`Blocked`), and there the text has no lexemes at all. -/

namespace ForwardChaining

/-- The least parts of a text that mean something. -/
inductive Lexeme where
  /-- A parenthesis that opens a list. -/
  | opening
  /-- A parenthesis that closes one. -/
  | closing
  /-- A run of characters that are no delimiters. -/
  | word (token : List Char)
  deriving DecidableEq, Repr

namespace Lexer

/-- What the next character may go on with. -/
inductive Mode where
  /-- Nothing. -/
  | between
  /-- A word, of which these are the characters so far. -/
  | word (token : List Char)
  /-- A comment. -/
  | comment
  /-- A line ending, after the carriage return that has ended a comment. -/
  | lineEnding
  deriving DecidableEq, Repr

/-- The lexemes that a character completes when nothing goes on, and what goes on after it. A
delimiter that is no blank, no parenthesis and opens no comment may stand nowhere. -/
def start (char : Char) : Option (List Lexeme × Mode) :=
  if isBlank char then some ([], .between)
  else if char = '(' then some ([.opening], .between)
  else if char = ')' then some ([.closing], .between)
  else if char = ';' then some ([], .comment)
  else if isDelimiter char then none
  else some ([], .word [char])

/-- The lexemes that a character completes, and what goes on after it. A comment is ended by a line
feed alone or together with a carriage return before it, and by no other carriage return. -/
def Mode.next : Mode → Char → Option (List Lexeme × Mode)
  | .between, char => start char
  | .word token, char =>
    if isDelimiter char then
      (start char).map fun (lexemes, mode) => (.word token :: lexemes, mode)
    else some ([], .word (token ++ [char]))
  | .comment, '\n' => some ([], .between)
  | .comment, '\r' => some ([], .lineEnding)
  | .comment, _ => some ([], .comment)
  | .lineEnding, '\n' => some ([], .between)
  | .lineEnding, _ => none

/-- The lexemes that the end of the text completes. -/
def Mode.finish : Mode → Option (List Lexeme)
  | .between => some []
  | .word token => some [.word token]
  | .comment => some []
  | .lineEnding => none

/-- The lexemes of a text after characters that have led to a mode. -/
def lexFrom (mode : Mode) : List Char → Option (List Lexeme)
  | [] => mode.finish
  | char :: text =>
    (mode.next char).bind fun (lexemes, mode) => (lexFrom mode text).map (lexemes ++ ·)

end Lexer

open Lexer

/-- The lexemes of a text, unless a character stands where it may not. -/
def lex (text : List Char) : Option (List Lexeme) := lexFrom .between text

/-! ## Lexemes at the front of a text -/

/-- There are no lexemes in the empty text. -/
@[simp] theorem lex_nil : lex [] = some [] := rfl

/-- A blank is no lexeme. -/
theorem lex_blank {char : Char} (blank : isBlank char) (text : List Char) :
    lex (char :: text) = lex text := by
  simp [lex, lexFrom, Mode.next, start, blank]

/-- An opening parenthesis is a lexeme. -/
@[simp] theorem lex_open (text : List Char) :
    lex ('(' :: text) = (lex text).map (.opening :: ·) := rfl

/-- A closing parenthesis is a lexeme. -/
@[simp] theorem lex_close (text : List Char) :
    lex (')' :: text) = (lex text).map (.closing :: ·) := rfl

/-- A semicolon opens a comment. -/
theorem lex_comment (text : List Char) : lex (';' :: text) = lexFrom .comment text := by
  show (lexFrom .comment text).map ([] ++ ·) = lexFrom .comment text
  simp

/-- A line feed ends a comment. -/
theorem lexFrom_comment_feed (text : List Char) : lexFrom .comment ('\n' :: text) = lex text := by
  show (lex text).map ([] ++ ·) = lex text
  simp

/-- So does a carriage return before a line feed. -/
theorem lexFrom_comment_return (text : List Char) :
    lexFrom .comment ('\r' :: '\n' :: text) = lex text := by
  show ((lex text).map ([] ++ ·)).map ([] ++ ·) = lex text
  simp

/-- A character that does not end a comment belongs to it. -/
theorem lexFrom_comment_cons {char : Char} (text : List Char) (noFeed : char ≠ '\n')
    (noReturn : char ≠ '\r') : lexFrom .comment (char :: text) = lexFrom .comment text := by
  rw [lexFrom, Mode.next]
  · simp
  · exact noFeed
  · exact noReturn

/-- A word goes on up to the next delimiter. -/
theorem lexFrom_word (token text : List Char) :
    lexFrom (.word token) text =
      (lex (afterToken text)).map (.word (token ++ tokenAt text) :: ·) := by
  induction text generalizing token with
  | nil => simp [lexFrom, Mode.finish, tokenAt, afterToken]
  | cons char text ih =>
    rw [lexFrom, Mode.next, tokenAt, afterToken, List.takeWhile_cons, List.dropWhile_cons]
    by_cases delimiter : isDelimiter char
    · -- The delimiter ends the word and means what it means after it.
      rw [if_pos delimiter]
      simp only [delimiter, Bool.not_true, Bool.false_eq_true, if_false, lex, lexFrom, Mode.next]
      cases start char <;> simp [Function.comp_def]
    · rw [if_neg delimiter]
      simp only [delimiter, Bool.not_false, if_true, Option.bind_some, List.nil_append,
        Option.map_id']
      rw [ih, List.append_assoc]
      rfl

/-- A token is one word. -/
theorem lex_of_token {text : List Char} (nonempty : tokenAt text ≠ []) :
    lex text = (lex (afterToken text)).map (.word (tokenAt text) :: ·) := by
  cases text with
  | nil => exact absurd rfl nonempty
  | cons char text =>
    have undelimited : ¬ isDelimiter char := by
      intro delimiter
      simp [tokenAt, delimiter] at nonempty
    have notBlank : ¬ isBlank char := fun blank => undelimited (isDelimiter_of_isBlank blank)
    have notOpen : char ≠ '(' := by rintro rfl; exact undelimited rfl
    have notClose : char ≠ ')' := by rintro rfl; exact undelimited rfl
    have notComment : char ≠ ';' := by rintro rfl; exact undelimited rfl
    have begins : lex (char :: text) = lexFrom (.word [char]) text := by
      simp [lex, lexFrom, Mode.next, start, notBlank, notOpen, notClose, notComment, undelimited]
    rw [begins, lexFrom_word]
    simp [tokenAt, afterToken, undelimited]

/-! ## Words -/

/-- Whether characters make up one word. -/
def isWord (word : List Char) : Bool := !word.isEmpty && word.all (!isDelimiter ·)

/-- Words have characters, and none of them is a delimiter. -/
theorem isWord_iff {word : List Char} :
    isWord word ↔ word ≠ [] ∧ ∀ char ∈ word, ¬ isDelimiter char := by
  simp [isWord]

/-- Whether a text ends, or a delimiter comes first. -/
def Ends (rest : List Char) : Prop := ∀ char ∈ rest.head?, isDelimiter char

/-- There is no token at the front of a text just when it ends or starts with a delimiter. -/
theorem ends_iff {text : List Char} : Ends text ↔ tokenAt text = [] := by
  cases text with
  | nil => exact iff_of_true nofun rfl
  | cons char rest => simp [Ends, tokenAt, List.takeWhile_cons]

/-- Before the end of a token comes a word, and after it a delimiter or the end. -/
theorem isWord_tokenAt {text : List Char} (nonempty : tokenAt text ≠ []) :
    isWord (tokenAt text) ∧ Ends (afterToken text) := by
  constructor
  · exact isWord_iff.mpr ⟨nonempty, fun char member => by simpa using List.mem_takeWhile_imp member⟩
  · intro char first
    have stopped := List.head?_dropWhile_not (!isDelimiter ·) text
    rw [← afterToken, Option.mem_def.mp first] at stopped
    simpa using stopped

/-- A text that starts with a word does not end there. -/
theorem not_ends_of_isWord {word : List Char} (undivided : isWord word) (rest : List Char) :
    ¬ Ends (word ++ rest) := by
  obtain ⟨nonempty, undelimited⟩ := isWord_iff.mp undivided
  obtain ⟨char, more, rfl⟩ := List.exists_cons_of_ne_nil nonempty
  exact fun ends => undelimited char List.mem_cons_self (ends char rfl)

/-- A line feed ends a token. -/
theorem ends_feed (more : List Char) : Ends ('\n' :: more) := by
  rintro char ⟨⟩
  rfl

/-- A word before the end or a delimiter is a token. -/
theorem tokenAt_append {word rest : List Char} (undivided : isWord word) (ends : Ends rest) :
    tokenAt (word ++ rest) = word ∧ afterToken (word ++ rest) = rest := by
  have undelimited : ∀ char ∈ word, !isDelimiter char := by
    simpa using (isWord_iff.mp undivided).2
  rw [tokenAt, afterToken, List.takeWhile_append_of_pos undelimited,
    List.dropWhile_append_of_pos undelimited]
  cases rest with
  | nil => simp
  | cons char rest =>
    have delimiter : isDelimiter char := ends char rfl
    simp [delimiter]

/-! ## Skipping blanks and comments -/

/-- A line is ended by a line feed, with or without a carriage return before it, or by the end of
the text. -/
inductive LineEnds : (ending rest : List Char) → Prop where
  /-- A line feed. -/
  | feed (rest : List Char) : LineEnds ['\n'] rest
  /-- A carriage return and a line feed. -/
  | returnFeed (rest : List Char) : LineEnds ['\r', '\n'] rest
  /-- The end of the text. -/
  | textEnd : LineEnds [] []

/-- No line ends within a text. -/
def InLine (line : List Char) : Prop := ∀ char ∈ line, char ≠ '\n' ∧ char ≠ '\r'

/-- A text that nothing can be read from: it starts with white space that is no blank, or with a
comment that is stopped by a carriage return without a line feed. -/
inductive Blocked : List Char → Prop where
  /-- White space that may not stand between tokens. -/
  | space {char : Char} {rest : List Char} (white : isWhiteSpace char) (noBlank : ¬ isBlank char) :
    Blocked (char :: rest)
  /-- A comment that does not end as a line does. -/
  | comment {line rest : List Char} (inLine : InLine line) (noFeed : rest.head? ≠ some '\n') :
    Blocked (';' :: (line ++ '\r' :: rest))

/-- What follows a semicolon is a comment that ends, or one that is stopped. -/
theorem exists_line (text : List Char) :
    (∃ line ending rest, text = line ++ (ending ++ rest) ∧ InLine line ∧ LineEnds ending rest) ∨
      ∃ line rest, text = line ++ '\r' :: rest ∧ InLine line ∧ rest.head? ≠ some '\n' := by
  induction text with
  | nil => exact .inl ⟨[], [], [], rfl, nofun, .textEnd⟩
  | cons char text ih =>
    by_cases feed : char = '\n'
    · exact .inl ⟨[], ['\n'], text, by rw [feed]; rfl, nofun, .feed text⟩
    · by_cases carriage : char = '\r'
      · by_cases feedNext : text.head? = some '\n'
        · obtain ⟨rest, rfl⟩ := List.head?_eq_some_iff.mp feedNext
          exact .inl ⟨[], ['\r', '\n'], rest, by rw [carriage]; rfl, nofun, .returnFeed rest⟩
        · exact .inr ⟨[], text, by rw [carriage]; rfl, nofun, feedNext⟩
      · have here : ∀ line, InLine line → InLine (char :: line) :=
          fun line inLine => List.forall_mem_cons.mpr ⟨⟨feed, carriage⟩, inLine⟩
        rcases ih with ⟨line, ending, rest, rfl, inLine, ends⟩ | ⟨line, rest, rfl, inLine, noFeed⟩
        · exact .inl ⟨char :: line, ending, rest, rfl, here line inLine, ends⟩
        · exact .inr ⟨char :: line, rest, rfl, here line inLine, noFeed⟩

/-- Within its line, a comment goes on. -/
theorem skipComment_append (start : List Char) {line : List Char} (inLine : InLine line)
    (rest : List Char) : skipComment start (line ++ rest) = skipComment start rest := by
  induction line with
  | nil => rfl
  | cons char line ih =>
    obtain ⟨⟨noFeed, noReturn⟩, inRest⟩ := List.forall_mem_cons.mp inLine
    rw [List.cons_append, skipComment]
    · exact ih inRest
    · exact noFeed
    · exact fun _ isReturn _ => noReturn isReturn
    · exact noReturn

/-- Skipping takes blanks and comments off a text, until neither of them is at its front. -/
inductive Skips : (text unread : List Char) → Prop where
  /-- Nothing more can be skipped. -/
  | stop {text : List Char} (noBlank : ∀ char ∈ text.head?, ¬ isBlank char)
    (noComment : text.head? = some ';' → Blocked text) : Skips text text
  /-- A blank is skipped. -/
  | blank {char : Char} {rest unread : List Char} (blank : isBlank char)
    (skips : Skips rest unread) : Skips (char :: rest) unread
  /-- A comment is skipped with the end of its line. -/
  | comment {line ending rest unread : List Char} (inLine : InLine line)
    (ends : LineEnds ending rest) (skips : Skips rest unread) :
    Skips (';' :: (line ++ (ending ++ rest))) unread

/-- **This is what the reader skips.** -/
theorem skips_skipBlanks (text : List Char) : Skips text (skipBlanks text) := by
  induction size : text.length using Nat.strongRecOn generalizing text with
  | _ size ih =>
    cases text with
    | nil => exact .stop nofun nofun
    | cons char rest =>
      rw [skipBlanks]
      split
      · next blank => exact .blank blank (ih rest.length (by simp [← size]) rest rfl)
      · next noBlank =>
        have noBlank : ∀ first ∈ (char :: rest).head?, ¬ isBlank first := by simpa using noBlank
        split
        · next semicolon =>
          subst semicolon
          rcases exists_line rest with
            ⟨line, ending, after, rfl, inLine, ends⟩ | ⟨line, after, rfl, inLine, noFeed⟩
          · have later := ih after.length (by simp [← size]; omega) after rfl
            have skipped : skipComment (';' :: (line ++ (ending ++ after)))
                (line ++ (ending ++ after)) = skipBlanks after := by
              rw [skipComment_append _ inLine]
              cases ends <;> rfl
            exact skipped ▸ .comment inLine ends later
          · have stopped : skipComment (';' :: (line ++ '\r' :: after)) (line ++ '\r' :: after) =
                ';' :: (line ++ '\r' :: after) := by
              rw [skipComment_append _ inLine, skipComment]
              rintro next rfl
              exact noFeed rfl
            rw [stopped]
            exact .stop noBlank fun _ => .comment inLine noFeed
        · next noSemicolon =>
          exact .stop noBlank fun semicolon => absurd (Option.some.inj semicolon) noSemicolon

/-- Where no token is at the front after skipping, the text ends there, or a parenthesis follows, or
nothing can be read. -/
theorem Skips.ending {text unread : List Char} (skips : Skips text unread) (ends : Ends unread) :
    unread = [] ∨ unread.head? = some '(' ∨ unread.head? = some ')' ∨ Blocked unread := by
  induction skips with
  | @stop text noBlank noComment =>
    cases text with
    | nil => exact .inl rfl
    | cons char rest =>
      have delimiter : isDelimiter char := ends char rfl
      simp only [isDelimiter, Bool.or_eq_true, decide_eq_true_eq] at delimiter
      rcases delimiter with ((white | rfl) | rfl) | rfl
      · exact .inr (.inr (.inr (.space white (noBlank char rfl))))
      · exact .inr (.inl rfl)
      · exact .inr (.inr (.inl rfl))
      · exact .inr (.inr (.inr (noComment rfl)))
  | blank _ _ ih => exact ih ends
  | comment _ _ _ ih => exact ih ends

/-- Within its line, a comment has no lexemes. -/
theorem lexFrom_comment_append {line : List Char} (inLine : InLine line) (rest : List Char) :
    lexFrom .comment (line ++ rest) = lexFrom .comment rest := by
  induction line with
  | nil => rfl
  | cons char line ih =>
    obtain ⟨⟨noFeed, noReturn⟩, inRest⟩ := List.forall_mem_cons.mp inLine
    rw [List.cons_append, lexFrom_comment_cons _ noFeed noReturn, ih inRest]

/-- A text that nothing can be read from has none. -/
theorem lex_of_blocked {text : List Char} (blocked : Blocked text) : lex text = none := by
  cases blocked with
  | @space char rest white noBlank =>
    have delimiter : isDelimiter char := by simp [isDelimiter, white]
    have noOpen : char ≠ '(' := by rintro rfl; cases white
    have noClose : char ≠ ')' := by rintro rfl; cases white
    have noComment : char ≠ ';' := by rintro rfl; cases white
    simp [lex, lexFrom, Mode.next, start, noBlank, noOpen, noClose, noComment, delimiter]
  | @comment line rest inLine noFeed =>
    rw [lex_comment, lexFrom_comment_append inLine, lexFrom, Mode.next, Option.bind_some]
    cases rest with
    | nil => rfl
    | cons char rest =>
      have fails : Mode.lineEnding.next char = none := by
        rw [Mode.next]
        rintro rfl
        exact noFeed rfl
      simp [lexFrom, fails]

end ForwardChaining
