import ForwardChaining.Text.Reader
import ForwardChaining.Proofs.Text.Steps

/-! # The reader in steps

Reading leads in steps from the start of a text to the place where it ends or stops
(`itemsAt_leads`, `readForms_leads`). These are the only inductions along the recursion of the
reader: whatever holds of steps then holds of what is read.

So the reader gives just the forms of the grammar (`reader_accepts_grammar`), on every text, and
reads a text after another one as it reads it alone (`readProgram_append`). -/

namespace ForwardChaining

variable {marker : Char}

/-! ## Where the reader stops -/

/-- Steps have led to a place where the reader stops for good, and to the lists that are open there:
`inner` are those that have been opened since the start. -/
inductive StopsAt (marker : Char) (start : Place) : Stop → Prop where
  /-- Neither an item of the innermost list nor its end can be read. -/
  | unclosed {unread : List Char} {inner stack : List (List Term)} {items : List Term}
    (leads : Leads marker start ⟨unread, stack, items⟩) (opened : stack = inner ++ start.stack)
    (isOpen : stack ≠ []) (noMore : unread = [] ∨ Blocked unread) :
    StopsAt marker start ⟨unread, .closing :: List.replicate inner.length .term⟩
  /-- A token is a number out of range. -/
  | unreadable {token unread : List Char} {inner stack : List (List Term)} {items : List Term}
    (leads : Leads marker start ⟨token ++ unread, stack, items⟩)
    (opened : stack = inner ++ start.stack) (undivided : isWord token) (ends : Ends unread)
    (outOfRange : Atom.ofToken? token = none) :
    StopsAt marker start ⟨unread, List.replicate (inner.length + 1) .term⟩

namespace StopsAt

variable {start middle : Place} {stop : Stop}

/-- The reader stops at the same place after some steps that have left the same lists open. -/
theorem of_leads (leads : Leads marker start middle) (same : middle.stack = start.stack)
    (stops : StopsAt marker middle stop) : StopsAt marker start stop := by
  cases stops with
  | unclosed onward opened isOpen noMore =>
    exact .unclosed (leads.trans onward) (same ▸ opened) isOpen noMore
  | unreadable onward opened undivided ends outOfRange =>
    exact .unreadable (leads.trans onward) (same ▸ opened) undivided ends outOfRange

/-- Where the reader stops inside a list, it does so with one more list open. -/
theorem insideTerm {rest : List Char} {stack : List (List Term)} {items : List Term}
    (stops : StopsAt marker ⟨rest, items :: stack, []⟩ stop) :
    StopsAt marker ⟨'(' :: rest, stack, items⟩ stop.insideTerm := by
  have opens : Leads marker ⟨'(' :: rest, stack, items⟩ ⟨rest, items :: stack, []⟩ :=
    .single .opening
  cases stops with
  | @unclosed unread inner within last onward opened isOpen noMore =>
    have opened : within = (inner ++ [items]) ++ stack := by simpa using opened
    simpa [Stop.insideTerm, List.replicate_succ'] using
      unclosed (opens.trans onward) opened isOpen noMore
  | @unreadable token unread inner within last onward opened undivided ends outOfRange =>
    have opened : within = (inner ++ [items]) ++ stack := by simpa using opened
    simpa [Stop.insideTerm, List.replicate_succ'] using
      unreadable (opens.trans onward) opened undivided ends outOfRange

end StopsAt

/-! ## The reader by steps -/

/-- No term is at the front of a text where neither a parenthesis opens nor a token stands. -/
theorem termAt?_eq_none_iff {text : List Char} :
    termAt? marker text = .ok none ↔ tokenAt text = [] ∧ text.head? ≠ some '(' := by
  rcases text with _ | ⟨char, rest⟩
  · rw [termAt?_token marker (by simp)]
    simp [tokenAt]
  · by_cases isOpen : char = '('
    · rw [isOpen, termAt?_open]
      rcases itemsAt marker rest with _ | ⟨_, _⟩ <;> simp
    · rw [termAt?_token marker (by simpa using isOpen)]
      split
      · simp_all
      · next nonempty =>
        rcases Term.ofToken? marker (tokenAt (char :: rest)) with _ | _ <;> simp [nonempty]

/-- A term takes up some of the text. -/
theorem length_lt_of_termAt? {text unread : List Char} {term : Term}
    (found : termAt? marker text = .ok (some (term, unread))) : unread.length < text.length := by
  rw [termAt?] at found
  rcases read : readTerm? marker text with _ | _ | ⟨⟨_, _⟩, shorter⟩
  · simp [read, Except.map] at found
  · simp [read, Except.map] at found
  · rw [read] at found
    cases found
    exact shorter

/-- The forms of a program are read one by one, until no term starts. -/
theorem readForms_eq (marker : Char) (text : List Char) :
    readForms marker text =
      match termAt? marker (skipBlanks text) with
      | .error stop => .error stop
      | .ok none => .ok ([], skipBlanks text)
      | .ok (some (form, unread)) =>
        match readForms marker unread with
        | .error stop => .error stop
        | .ok (forms, unread) => .ok (form :: forms, unread) := by
  rw [readForms, termAt?]
  rcases readTerm? marker (skipBlanks text) with _ | _ | ⟨⟨_, _⟩, shorter⟩ <;> rfl

/-- Reading the rest of a list leads up to the parenthesis that closes it, or stops. -/
def ItemsLead (marker : Char) (text : List Char) : Prop :=
  ∀ outer stack items,
    match itemsAt marker text with
    | .error stop => StopsAt marker ⟨text, outer :: stack, items⟩ stop
    | .ok (rest, unread) =>
      Leads marker ⟨text, outer :: stack, items⟩ ⟨unread, stack, outer ++ [.list (items ++ rest)]⟩

/-- Where a term starts, reading it leads to its end, or stops. -/
theorem termAt?_leads (marker : Char) (text : List Char)
    (inLists : ∀ rest, text = '(' :: rest → ItemsLead marker rest) (stack : List (List Term))
    (items : List Term) :
    match termAt? marker text with
    | .error stop => StopsAt marker ⟨text, stack, items⟩ stop
    | .ok none => True
    | .ok (some (term, unread)) =>
      Leads marker ⟨text, stack, items⟩ ⟨unread, stack, items ++ [term]⟩ := by
  by_cases isOpen : text.head? = some '('
  · obtain ⟨rest, rfl⟩ := List.head?_eq_some_iff.mp isOpen
    have inList := inLists rest rfl items stack []
    rw [termAt?_open]
    rcases read : itemsAt marker rest with stop | ⟨list, unread⟩
    · rw [read] at inList
      exact inList.insideTerm
    · rw [read] at inList
      exact .head .opening inList
  · rw [termAt?_token marker isOpen]
    by_cases empty : tokenAt text = []
    · rw [if_pos empty]
      trivial
    · rw [if_neg empty]
      obtain ⟨undivided, ends⟩ := isWord_tokenAt empty
      have parts := tokenAt_append_afterToken text
      rcases read : Term.ofToken? marker (tokenAt text) with _ | term
      · have outOfRange : Atom.ofToken? (tokenAt text) = none := Option.map_eq_none_iff.mp read
        have here : Leads marker ⟨text, stack, items⟩
            ⟨tokenAt text ++ afterToken text, stack, items⟩ := by rw [parts]
        exact .unreadable here (List.nil_append _).symm undivided ends outOfRange
      · have step : Step marker ⟨tokenAt text ++ afterToken text, stack, items⟩
            ⟨afterToken text, stack, items ++ [term]⟩ := .token undivided ends read
        rw [parts] at step
        exact .single step

/-- Where no term starts after skipping, and no parenthesis closes, the text ends or is blocked. -/
theorem ending_of_termAt?_eq_none {text : List Char}
    (noTerm : termAt? marker (skipBlanks text) = .ok none) :
    skipBlanks text = [] ∨ (skipBlanks text).head? = some ')' ∨ Blocked (skipBlanks text) := by
  obtain ⟨noToken, notOpen⟩ := termAt?_eq_none_iff.mp noTerm
  have ends : Ends (skipBlanks text) := ends_iff.mpr noToken
  rcases (skips_skipBlanks text).ending ends with atEnd | isOpen | isClose | blocked
  · exact .inl atEnd
  · exact absurd isOpen notOpen
  · exact .inr (.inl isClose)
  · exact .inr (.inr blocked)

/-- **Reading the rest of a list leads up to its end, or stops.** -/
theorem itemsAt_leads (marker : Char) (text : List Char) : ItemsLead marker text := by
  -- The first item may be a list, whose items are read from a text further on, so the induction is
  -- on the length of the text.
  induction size : text.length using Nat.strongRecOn generalizing text with
  | _ size ih =>
    intro outer stack items
    have skipped := length_skipBlanks_le text
    have skipping : Leads marker ⟨text, outer :: stack, items⟩
        ⟨skipBlanks text, outer :: stack, items⟩ := (skips_skipBlanks text).leads _ _
    have inLists : ∀ rest, skipBlanks text = '(' :: rest → ItemsLead marker rest := by
      intro rest isOpen
      rw [isOpen, List.length_cons] at skipped
      exact ih rest.length (by omega) rest rfl
    have term := termAt?_leads marker (skipBlanks text) inLists (outer :: stack) items
    rw [itemsAt_eq]
    rcases found : termAt? marker (skipBlanks text) with stop | _ | ⟨item, unread⟩
    · rw [found] at term
      exact term.of_leads skipping rfl
    · -- No term starts, so the list has to be closed here.
      by_cases isClose : (skipBlanks text).head? = some ')'
      · obtain ⟨unread, closes⟩ := List.head?_eq_some_iff.mp isClose
        rw [closes] at skipping ⊢
        simpa using skipping.tail .closing
      · have noMore : skipBlanks text = [] ∨ Blocked (skipBlanks text) :=
          (ending_of_termAt?_eq_none found).imp_right (·.resolve_left isClose)
        have stops : StopsAt marker ⟨text, outer :: stack, items⟩ ⟨skipBlanks text, [.closing]⟩ :=
          .unclosed skipping (List.nil_append _).symm (List.cons_ne_nil _ _) noMore
        dsimp only
        split
        · next equal =>
          split at equal
          · cases equal
          · cases equal
            exact stops
        · next equal =>
          split at equal
          · next closes => simp [closes] at isClose
          · cases equal
    · have shorter := length_lt_of_termAt? found
      have rest := ih unread.length (by omega) unread rfl outer stack (items ++ [item])
      rw [found] at term
      have here := skipping.trans term
      dsimp only
      rcases read : itemsAt marker unread with stop | ⟨more, last⟩
      · rw [read] at rest
        exact rest.of_leads here rfl
      · rw [read] at rest
        simpa using here.trans rest

/-- **Reading forms leads up to the first text that starts none**, or stops. -/
theorem readForms_leads (marker : Char) (text : List Char) (items : List Term) :
    match readForms marker text with
    | .error stop => StopsAt marker ⟨text, [], items⟩ stop
    | .ok (forms, unread) => Leads marker ⟨text, [], items⟩ ⟨unread, [], items ++ forms⟩ ∧
      (unread = [] ∨ unread.head? = some ')' ∨ Blocked unread) := by
  induction size : text.length using Nat.strongRecOn generalizing text items with
  | _ size ih =>
    have skipped := length_skipBlanks_le text
    have skipping : Leads marker ⟨text, [], items⟩ ⟨skipBlanks text, [], items⟩ :=
      (skips_skipBlanks text).leads _ _
    have term := termAt?_leads marker (skipBlanks text)
      (fun rest _ => itemsAt_leads marker rest) [] items
    rw [readForms_eq]
    rcases found : termAt? marker (skipBlanks text) with stop | _ | ⟨form, unread⟩
    · rw [found] at term
      exact term.of_leads skipping rfl
    · simpa using ⟨skipping, ending_of_termAt?_eq_none found⟩
    · have shorter := length_lt_of_termAt? found
      have rest := ih unread.length (by omega) unread (items ++ [form]) rfl
      rw [found] at term
      have here := skipping.trans term
      dsimp only
      rcases read : readForms marker unread with stop | ⟨more, last⟩
      · rw [read] at rest
        exact rest.of_leads here rfl
      · rw [read] at rest
        obtain ⟨onward, ended⟩ := rest
        rw [List.append_assoc] at onward
        exact ⟨here.trans onward, ended⟩

/-! ## The reader and the grammar -/

/-- Where the reader stops for good, the text makes up no forms. -/
theorem StopsAt.forms?_eq_none {start : Place} {stop : Stop} (stops : StopsAt marker start stop) :
    start.forms? marker = none := by
  cases stops with
  | @unclosed unread inner stack items leads opened isOpen noMore =>
    rw [leads.forms?_eq, Place.forms?]
    rcases noMore with rfl | blocked
    · obtain ⟨outer, others, rfl⟩ := List.exists_cons_of_ne_nil isOpen
      exact nestText_nil_cons outer others items
    · exact nestText_of_blocked blocked stack items
  | unreadable leads opened undivided ends outOfRange =>
    rw [leads.forms?_eq, Place.forms?, nestText_token undivided ends, Term.ofToken?, outOfRange]
    rfl

/-- **The reader gives the forms that the text makes up**, when nothing is left over. -/
theorem nestText_of_readForms (marker : Char) (text : List Char) (items : List Term) :
    nestText marker text [] items =
      match readForms marker text with
      | .error _ => none
      | .ok (forms, unread) => if unread = [] then some (items ++ forms) else none := by
  have leads := readForms_leads marker text items
  rcases read : readForms marker text with stop | ⟨forms, unread⟩
  · rw [read] at leads
    exact leads.forms?_eq_none
  · rw [read] at leads
    obtain ⟨onward, ended⟩ := leads
    have same : nestText marker text [] items = nestText marker unread [] (items ++ forms) :=
      onward.forms?_eq
    rw [same]
    rcases ended with rfl | isClose | blocked
    · rfl
    · obtain ⟨rest, rfl⟩ := List.head?_eq_some_iff.mp isClose
      exact nestText_close_nil rest (items ++ forms)
    · have notEnd : unread ≠ [] := by
        rintro rfl
        cases blocked
      rw [nestText_of_blocked blocked]
      exact (if_neg notEnd).symm

/-- There are no forms just in a text of blanks. -/
theorem readForms_eq_nil_iff {text : List Char} :
    readForms marker text = .ok ([], []) ↔ skipBlanks text = [] := by
  rw [readForms_eq]
  constructor
  · intro read
    rcases found : termAt? marker (skipBlanks text) with stop | _ | ⟨form, unread⟩
    · simp [found] at read
    · simpa [found] using read
    · rw [found] at read
      rcases more : readForms marker unread with stop | ⟨forms, last⟩ <;> simp [more] at read
  · intro blank
    have nothing : termAt? marker [] = .ok none := termAt?_eq_none_iff.mpr ⟨rfl, by simp⟩
    rw [blank, nothing]

/-- A program is read when the stack machine makes forms of it, and gives those. -/
theorem readProgram_eq_ok_iff {source : String} {forms : List Term} :
    readProgram marker source = .ok forms ↔
      nestText marker source.toList [] [] = some forms := by
  rw [nestText_of_readForms, readProgram]
  rcases readForms marker source.toList with stop | ⟨read, _ | ⟨char, rest⟩⟩ <;> simp

/-- A term is read when it is the only form that the stack machine makes of the text. -/
theorem readTerm_eq_ok_iff {source : String} {term : Term} :
    readTerm marker source = .ok term ↔
      nestText marker source.toList [] [] = some [term] := by
  have skipping : Leads marker ⟨source.toList, [], []⟩ ⟨skipBlanks source.toList, [], []⟩ :=
    (skips_skipBlanks source.toList).leads [] []
  have leads := termAt?_leads marker (skipBlanks source.toList)
    (fun rest _ => itemsAt_leads marker rest) [] []
  rw [termAt?] at leads
  rw [readTerm]
  rcases read : readTerm? marker (skipBlanks source.toList) with stop | _ | ⟨⟨first, unread⟩, _⟩
  · rw [read] at leads
    have stops : StopsAt marker ⟨source.toList, [], []⟩ stop := .of_leads skipping rfl leads
    have fails : nestText marker source.toList [] [] = none := stops.forms?_eq_none
    simp [fails]
  · -- No form starts, so the text has none.
    have forms : readForms marker source.toList = .ok ([], skipBlanks source.toList) := by
      rw [readForms, read]
    rw [nestText_of_readForms, forms]
    simp
  · rw [read] at leads
    have same : nestText marker source.toList [] [] = nestText marker unread [] [first] :=
      Leads.forms?_eq (skipping.trans leads)
    rw [same, nestText_of_readForms]
    rcases leftover : skipBlanks unread with _ | ⟨char, rest⟩
    · rw [readForms_eq_nil_iff.mpr leftover]
      simp [leftover]
    · -- What is left over is another form, or fails.
      have notBlank : readForms marker unread ≠ .ok ([], []) := by
        rw [Ne, readForms_eq_nil_iff, leftover]
        exact List.cons_ne_nil char rest
      rcases forms : readForms marker unread with stop | ⟨_ | ⟨form, forms⟩, _ | ⟨next, more⟩⟩
      · simp [leftover]
      · exact absurd forms notBlank
      · simp [leftover]
      · simp [leftover]
      · simp [leftover]

/-! ## Texts one after another -/

/-- What is read leads to the end of the text. -/
theorem leads_of_readProgram {source : String} {forms : List Term}
    (reads : readProgram marker source = .ok forms) :
    Leads marker ⟨source.toList, [], []⟩ ⟨[], [], forms⟩ := by
  have leads := readForms_leads marker source.toList []
  rw [readProgram] at reads
  rcases read : readForms marker source.toList with stop | ⟨all, _ | ⟨char, rest⟩⟩
  · rw [read] at reads
    cases reads
  · rw [read] at leads reads
    cases reads
    exact leads.1
  · rw [read] at reads
    cases reads

/-- The forms of a text come after those that are there already. -/
theorem nestText_items (text : List Char) (items : List Term) :
    nestText marker text [] items = (nestText marker text [] []).map (items ++ ·) := by
  rw [nestText_of_readForms, nestText_of_readForms]
  rcases readForms marker text with stop | ⟨forms, unread⟩
  · rfl
  · by_cases ends : unread = [] <;> simp [ends]

/-- **After a readable text, and a line feed, a text is read as it is alone**: it adds its forms, or
fails. -/
theorem readProgram_append {first second : String} {forms : List Term}
    (reads : readProgram marker first = .ok forms) (all : List Term) :
    readProgram marker (first ++ "\n" ++ second) = .ok all ↔
      ∃ more, readProgram marker second = .ok more ∧ forms ++ more = all := by
  have joined : (first ++ "\n" ++ second).toList = first.toList ++ '\n' :: second.toList := by simp
  obtain ⟨piece, leadsTo⟩ := (leads_of_readProgram reads).exists_piece
  -- The whole first text is a piece, and the line feed and the second text may follow it.
  have nests := leadsTo.nests ('\n' :: second.toList) (.feed_cons second.toList [])
  have whole : piece = first.toList := by simpa using leadsTo.append
  rw [whole] at nests
  simp only [Place.forms?] at nests
  simp only [readProgram_eq_ok_iff]
  rw [joined, nests, nestText_blank rfl, nestText_items]
  exact Option.map_eq_some_iff

/-- **The reader accepts exactly the grammar.** It gives the forms of a program when the lexemes of
the text nest to these forms, and a single term when they nest to that one form. -/
theorem reader_accepts_grammar (marker : Char) (source : String) :
    (∀ forms, readProgram marker source = .ok forms ↔
      grammarForms? marker source.toList = some forms) ∧
    ∀ term, readTerm marker source = .ok term ↔
      grammarForms? marker source.toList = some [term] := by
  rw [grammarForms?_eq]
  exact ⟨fun _ => readProgram_eq_ok_iff, fun _ => readTerm_eq_ok_iff⟩

end ForwardChaining
