/-! # Reading errors

A text that cannot be read is cut in two at the place of the error, and the error names what could
have stood there. The message shows the place by a caret: under the whole text when that is a single
line, and otherwise under the line it is in, with the numbers of the line and the column. -/

namespace ForwardChaining

/-- Something that could have stood at the place of an error. -/
inductive Expectation where
  /-- The parenthesis that closes a list. -/
  | closing
  /-- A token. -/
  | atom
  /-- A term. -/
  | term
  deriving DecidableEq, Repr

/-- The name of an expectation in messages. -/
def Expectation.text : Expectation → String
  | .closing => "`)`"
  | .atom => "atom"
  | .term => "term"

/-- Why and where a text cannot be read. -/
structure ReadError where
  /-- The text before the error. -/
  consumed : List Char
  /-- The text from the error on. -/
  unread : List Char
  /-- What could have stood there, from the inside out; nothing when the text should have ended. -/
  expected : List Expectation
  deriving DecidableEq, Repr

/-- The number of bytes that a text takes in UTF-8. -/
def byteLength : List Char → Nat
  | [] => 0
  | char :: text => char.utf8Size + byteLength text

/-- A number of spaces. -/
def spaces (count : Nat) : List Char := List.replicate count ' '

/-- The part of a text after its last line feed. -/
def lastLine (text : List Char) : List Char :=
  (text.reverse.takeWhile (· ≠ '\n')).reverse

namespace ReadError

/-- The number of bytes before the error. -/
def offset (error : ReadError) : Nat := byteLength error.consumed

/-- The sentence about what was expected; empty when nothing was. -/
def expectation (error : ReadError) : List Char :=
  if error.expected.isEmpty then []
  else ("expected " ++ ", ".intercalate (error.expected.map Expectation.text)).toList

/-- The message about an error in a text of a single line. The caret is set by bytes. -/
def messageInLine (error : ReadError) : List Char :=
  error.consumed ++ error.unread ++ ['\n'] ++ spaces error.offset ++ ['^', '\n'] ++
    error.expectation

/-- The message about an error in a text of several lines. An error at the end belongs to the line
of the last character, one place after it. Before a character of more than one byte the column
counts bytes, and characters everywhere else. -/
def messageInLines (error : ReadError) : List Char :=
  let atEnd := error.unread.isEmpty
  let before := if atEnd then error.consumed.dropLast else error.consumed
  let after := if atEnd then error.consumed.drop before.length else error.unread
  let start := lastLine before
  let wide := error.unread.head?.any (1 < ·.utf8Size)
  let column := if wide then byteLength start else start.length + if atEnd then 1 else 0
  let number := Nat.toDigits 10 (before.count '\n' + 1)
  let gutter := spaces number.length
  "parse error at line ".toList ++ number ++ ", column ".toList ++ Nat.toDigits 10 (column + 1) ++
    ['\n'] ++ gutter ++ " |\n".toList ++
    number ++ " | ".toList ++ start ++ after.takeWhile (· ≠ '\n') ++ ['\n'] ++
    gutter ++ " | ".toList ++ spaces column ++ ['^', '\n'] ++ error.expectation

/-- The message about an error. -/
def message (error : ReadError) : String :=
  "parse error: " ++ String.ofList
    (if '\n' ∈ error.consumed ++ error.unread then error.messageInLines else error.messageInLine)

end ReadError

end ForwardChaining
