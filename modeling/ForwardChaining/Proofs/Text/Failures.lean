import ForwardChaining.Proofs.Text.Readable

/-! # Where reading fails

What has been read up to the place where the reader stops leaves lists open, one for each term that
was expected around a missing parenthesis, and lacks so many closing parentheses to be a program
(`Lacks`). All that an error says about a text follows from this (`ReadError.Located`). -/

namespace ForwardChaining

variable {marker : Char}

/-! ## Closing what is open -/

/-- Closing parentheses make forms just when there is one for each open list. -/
theorem nestText_replicate_close (stack : List (List Term)) (items : List Term) (count : Nat) :
    (∃ forms, nestText marker (List.replicate count ')') stack items = some forms) ↔
      count = stack.length := by
  induction stack generalizing items count with
  | nil =>
    cases count with
    | zero => simp
    | succ count => simp [List.replicate_succ, nestText_close_nil]
  | cons outer stack ih =>
    cases count with
    | zero => simp
    | succ count => simpa [List.replicate_succ, nestText_close] using ih _ count

/-- A text lacks so many closing parentheses: on a line of their own after it, this many make it a
program, and no other number does. -/
def Lacks (marker : Char) (text : List Char) (depth : Nat) : Prop :=
  ∀ count, (∃ forms, readProgram marker
    (String.ofList (text ++ '\n' :: List.replicate count ')')) = .ok forms) ↔ count = depth

/-- A text lacks as many as lists are open after it. -/
theorem lacks_of_nestText {text : List Char} {stack : List (List Term)} {items : List Term}
    (nests : ∀ more, nestText marker (text ++ '\n' :: more) [] [] =
      nestText marker ('\n' :: more) stack items) : Lacks marker text stack.length := by
  intro count
  simp only [readProgram_eq_ok_iff, String.toList_ofList]
  rw [nests, nestText_blank rfl]
  exact nestText_replicate_close stack items count

section

variable {text piece : List Char} {after : Place}

/-- What has been read up to a place lacks as many as lists are open there. -/
theorem Piece.lacks (leadsTo : Piece marker ⟨text, [], []⟩ after piece) :
    Lacks marker piece after.stack.length :=
  lacks_of_nestText fun more => leadsTo.nests _ (.feed_cons more after.unread)

/-- So does what has been read up to a token, with any name in place of the token. -/
theorem Piece.lacks_name {token unread : List Char}
    (leadsTo : Piece marker ⟨text, [], []⟩ after piece) (atToken : after.unread = token ++ unread)
    (undivided : isWord token) {symbol : List Char} (named : isName symbol) :
    Lacks marker (piece ++ symbol) after.stack.length := by
  have notEnds : ¬ Ends after.unread := atToken ▸ not_ends_of_isWord undivided unread
  have nonempty : after.unread ≠ [] := by
    rw [atToken]
    simp [(isWord_iff.mp undivided).1]
  have name : (String.ofList symbol).toList = symbol := String.toList_ofList
  obtain ⟨term, read⟩ : ∃ term, Term.ofToken? marker symbol = some term :=
    ⟨_, name ▸ ofToken?_name marker (name.symm ▸ named)⟩
  have nests (more : List Char) : nestText marker (piece ++ symbol ++ '\n' :: more) [] [] =
      nestText marker ('\n' :: more) after.stack (after.items ++ [term]) := by
    -- Before the token no token has to end, so any text may stand in its place.
    have follows : Follows (symbol ++ '\n' :: more) after.unread :=
      ⟨fun ends => absurd ends notEnds, fun empty => absurd empty nonempty⟩
    rw [List.append_assoc, ← nestText_word (isName_iff.mp named).1 (ends_feed more) read]
    exact leadsTo.nests _ follows
  exact lacks_of_nestText nests

/-- What has been read up to a place with no open list is a program. -/
theorem Piece.readProgram (leadsTo : Piece marker ⟨text, [], []⟩ after piece)
    (closed : after.stack = []) :
    readProgram marker (String.ofList piece) = .ok after.items := by
  have nests := leadsTo.nests [] ⟨fun _ => nofun, fun _ => .inl rfl⟩
  rw [readProgram_eq_ok_iff, String.toList_ofList]
  simpa [Place.forms?, closed] using nests

end

/-! ## Numbers out of range -/

/-- A token is a number out of range: an integer of more than 64 bits, or a decimal numeral that is
nearest to no finite double. -/
def OutOfRange (token : List Char) : Prop :=
  (isIntegerToken token ∧ integerOf? token = none) ∨
    (¬ isIntegerToken token ∧ startsNumber token ∧
      ∃ decimal, Decimal.ofChars? token = some decimal ∧ ¬ decimal.toDouble.isFinite)

/-- These are the tokens that name no atom. -/
theorem ofToken?_eq_none_iff {token : List Char} :
    Atom.ofToken? token = none ↔ OutOfRange token := by
  rw [Atom.ofToken?, OutOfRange]
  by_cases integer : isIntegerToken token
  · simp [integer]
  · by_cases number : startsNumber token
    · rcases Decimal.ofChars? token with _ | decimal <;> simp [integer, number, finiteDouble?]
    · simp [integer, number]

/-! ## Places of errors -/

/-- The bytes of a text are those of its encoding. -/
theorem byteLength_eq (text : List Char) : byteLength text = (String.ofList text).utf8ByteSize := by
  induction text with
  | nil => rfl
  | cons char text ih => simp [byteLength, ih, String.ofList_cons]

/-- An error that cuts a text in two does so between two characters. -/
theorem ReadError.isValid_offset {error : ReadError} {source : String}
    (cut : error.consumed ++ error.unread = source.toList) :
    String.Pos.Raw.IsValid source ⟨error.offset⟩ := by
  refine String.Pos.Raw.isValid_iff_exists_append.mpr
    ⟨.ofList error.consumed, .ofList error.unread, ?_, ?_⟩
  · rw [← String.ofList_append, cut, String.ofList_toList]
  · rw [ReadError.offset, byteLength_eq]
    rfl

/-- The text before the place where reading stops is the piece that leads there. -/
theorem Stop.toError_append (piece : List Char) (stop : Stop) :
    stop.toError (piece ++ stop.unread) = ⟨piece, stop.unread, stop.expected⟩ := by
  simp [Stop.toError]

/-- What an error says about the text before its place and the text from there on. -/
inductive ReadError.Located (marker : Char) : ReadError → Prop where
  /-- Lists are open, as many as the terms that were expected around their parenthesis, and the text
  ends or nothing can be read from it. -/
  | unclosed {consumed unread : List Char} {depth : Nat} (lacks : Lacks marker consumed (depth + 1))
    (noMore : unread = [] ∨ Blocked unread) :
    Located marker ⟨consumed, unread, .closing :: List.replicate (depth + 1) .term⟩
  /-- The text before is a program, and a parenthesis closes nothing, or nothing can be read. -/
  | leftover {consumed unread : List Char} {forms : List Term}
    (reads : readProgram marker (String.ofList consumed) = .ok forms)
    (more : unread.head? = some ')' ∨ Blocked unread) : Located marker ⟨consumed, unread, []⟩
  /-- The text before ends in a number out of range, in whose place any name might stand. Lists are
  open, one less than terms were expected. -/
  | unreadable {before token unread : List Char} {depth : Nat} (undivided : isWord token)
    (starts : ∀ char ∈ before.getLast?, isDelimiter char) (ends : Ends unread)
    (outOfRange : OutOfRange token)
    (lacks : ∀ symbol, isName symbol → Lacks marker (before ++ symbol) depth) :
    Located marker ⟨before ++ token, unread, List.replicate (depth + 1) .term⟩

/-- Where the reader stops for good, the error says what it should. -/
theorem StopsAt.located {text : List Char} {stop : Stop}
    (stops : StopsAt marker ⟨text, [], []⟩ stop) :
    (stop.toError text).consumed ++ (stop.toError text).unread = text ∧
      (stop.toError text).Located marker := by
  cases stops with
  | @unclosed unread inner stack items leads opened isOpen noMore =>
    obtain ⟨piece, leadsTo⟩ := leads.exists_piece
    obtain rfl : piece ++ unread = text := leadsTo.append
    rw [Stop.toError_append piece ⟨unread, _⟩]
    have lacks := leadsTo.lacks
    -- No list was open at the start, so these are all that are open.
    obtain rfl : stack = inner := by simpa using opened
    obtain ⟨outer, others, rfl⟩ := List.exists_cons_of_ne_nil isOpen
    exact ⟨rfl, .unclosed lacks noMore⟩
  | @unreadable token unread inner stack items leads opened undivided ends outOfRange =>
    obtain ⟨piece, leadsTo⟩ := leads.exists_piece
    obtain rfl : piece ++ (token ++ unread) = text := leadsTo.append
    rw [← List.append_assoc, Stop.toError_append (piece ++ token) ⟨unread, _⟩]
    obtain rfl : stack = inner := by simpa using opened
    have starts := leadsTo.bounded.resolve_left (not_ends_of_isWord undivided unread)
    exact ⟨rfl, .unreadable undivided starts ends (ofToken?_eq_none_iff.mp outOfRange)
      fun symbol named => leadsTo.lacks_name rfl undivided named⟩

/-- So does the error where a program has something left over. -/
theorem located_of_readProgram {source : String} {error : ReadError}
    (fails : readProgram marker source = .error error) :
    error.consumed ++ error.unread = source.toList ∧ error.Located marker := by
  have leads := readForms_leads marker source.toList []
  rw [readProgram] at fails
  rcases read : readForms marker source.toList with stop | ⟨forms, _ | ⟨char, rest⟩⟩
  · rw [read] at leads fails
    cases fails
    exact leads.located
  · rw [read] at fails
    cases fails
  · rw [read] at leads fails
    cases fails
    obtain ⟨onward, ended⟩ := leads
    obtain ⟨piece, leadsTo⟩ := onward.exists_piece
    have append : piece ++ char :: rest = source.toList := leadsTo.append
    rw [← append, Stop.toError_append piece ⟨char :: rest, []⟩]
    have reads := leadsTo.readProgram rfl
    exact ⟨rfl, .leftover reads (ended.resolve_left (List.cons_ne_nil _ _))⟩

/-- **Errors are located exactly.** An error cuts the text in two between characters, and says about
either part what is true of it. -/
theorem readProgram_error_located {marker : Char} {source : String} {error : ReadError}
    (fails : readProgram marker source = .error error) :
    error.consumed ++ error.unread = source.toList ∧
      String.Pos.Raw.IsValid source ⟨error.offset⟩ ∧ error.Located marker := by
  obtain ⟨cut, located⟩ := located_of_readProgram fails
  exact ⟨cut, ReadError.isValid_offset cut, located⟩

/-- A comment hides a parenthesis, a number that is too great stands in two lists after a character
of two bytes, and a vertical tab separates nothing. -/
theorem readProgram_error_located_kinds :
    (readProgram '?' "p (q (r ; s)" = .error ⟨"p (q (r ; s)".toList, [], [.closing, .term, .term]⟩ ∧
      ReadError.Located '?' ⟨"p (q (r ; s)".toList, [], [.closing, .term, .term]⟩) ∧
    (readProgram '?' "(p (é 1e400 q" =
        .error ⟨"(p (é 1e400".toList, " q".toList, [.term, .term, .term]⟩ ∧
      String.Pos.Raw.IsValid "(p (é 1e400 q" ⟨12⟩) ∧
    (readProgram '?' "(p) \x0bq" = .error ⟨"(p) ".toList, "\x0bq".toList, []⟩ ∧
      ReadError.Located '?' ⟨"(p) ".toList, "\x0bq".toList, []⟩) := by
  have unclosed : readProgram '?' "p (q (r ; s)" =
      .error ⟨"p (q (r ; s)".toList, [], [.closing, .term, .term]⟩ := by decide +kernel
  have unreadable : readProgram '?' "(p (é 1e400 q" =
      .error ⟨"(p (é 1e400".toList, " q".toList, [.term, .term, .term]⟩ := by decide +kernel
  have leftover : readProgram '?' "(p) \x0bq" = .error ⟨"(p) ".toList, "\x0bq".toList, []⟩ := by
    decide +kernel
  exact ⟨⟨unclosed, (readProgram_error_located unclosed).2.2⟩,
    ⟨unreadable, (readProgram_error_located unreadable).2.1⟩,
    ⟨leftover, (readProgram_error_located leftover).2.2⟩⟩

end ForwardChaining
