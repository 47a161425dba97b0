import ForwardChaining.Term.Basic
import ForwardChaining.Text.Blank

/-! # Tokens

A token is a run of characters that are no delimiters. Its characters alone decide which atom it
names, in this order:

* a sign at most and then digits only: an integer, which has to fit in 64 bits;
* the beginning of a number and a decimal numeral as a whole: a double, which has to be finite;
* anything else: a symbol.

So `1st` and `inf` are symbols. A symbol that starts with the marker is a variable. -/

namespace ForwardChaining

/-- Whether a token is an optional sign and then digits only. -/
def isIntegerToken (token : List Char) : Bool :=
  let (_, digits) := splitSign token
  !digits.isEmpty && digits.all Char.isDigit

/-- Whether a token starts the way a number does: an optional sign, an optional point, a digit. -/
def startsNumber (token : List Char) : Bool :=
  let (_, unsigned) := splitSign token
  match unsigned with
  | '.' :: first :: _ => first.isDigit
  | first :: _ => first.isDigit
  | [] => false

/-- The integer that a sign and digits name, unless it takes more than 64 bits. -/
def integerOf? (token : List Char) : Option Int64 :=
  let (negative, digits) := splitSign token
  int64? (if negative then -(digitsValue digits : Int) else digitsValue digits)

/-- The double that a decimal numeral names, unless it is too great to be finite. -/
def finiteDouble? (decimal : Decimal) : Option Double :=
  if decimal.toDouble.isFinite then some decimal.toDouble else none

/-- The atom that a token names; none for a number out of range. -/
def Atom.ofToken? (token : List Char) : Option Atom :=
  if isIntegerToken token then (integerOf? token).map fun value => .number (.int value)
  else if startsNumber token then
    match Decimal.ofChars? token with
    | some decimal => (finiteDouble? decimal).map fun value => .number (.double value)
    | none => some (.symbol (String.ofList token))
  else some (.symbol (String.ofList token))

/-- The term that an atom stands for when symbols that start with `marker` are variables. -/
def Term.ofAtom (marker : Char) : Atom → Term
  | .number value => .atom (.number value)
  | .symbol name => if name.toList.head? = some marker then .var name else .atom (.symbol name)

/-- The term that a token names; none for a number out of range. -/
def Term.ofToken? (marker : Char) (token : List Char) : Option Term :=
  (Atom.ofToken? token).map (Term.ofAtom marker)

/-! ## Taking a token off a text -/

/-- The token at the front of a text, which is empty before a delimiter and at the end. -/
def tokenAt (text : List Char) : List Char := text.takeWhile (!isDelimiter ·)

/-- The text after the token at its front. -/
def afterToken (text : List Char) : List Char := text.dropWhile (!isDelimiter ·)

/-- A token and the text after it make up the text. -/
@[simp] theorem tokenAt_append_afterToken (text : List Char) :
    tokenAt text ++ afterToken text = text := List.takeWhile_append_dropWhile

/-- Taking a token off makes a text shorter. -/
theorem length_afterToken_lt {text : List Char} (nonempty : tokenAt text ≠ []) :
    (afterToken text).length < text.length := by
  have total := congrArg List.length (tokenAt_append_afterToken text)
  have positive := List.length_pos_iff.mpr nonempty
  rw [List.length_append] at total
  omega

end ForwardChaining
