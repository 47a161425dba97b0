import ForwardChaining.Proofs.Text.Nesting
import Mathlib.Logic.Relation

/-! # Steps through a text

A place in a text (`Place`) is the text that is still unread, together with the lists that are open
there. Steps lead from place to place (`Step`, `Leads`), each of which takes a piece off the front
of the text.

A step takes the same piece off any other text that goes on alike after it, and changes the open
lists in the same way. So does a run of steps (`Leads.exists_piece`), by one induction: what has
been read up to a place is a text of its own, and leaves the same lists open. -/

namespace ForwardChaining

/-! ## Places and steps -/

/-- A place in a text, and what is open there. -/
structure Place where
  /-- The text from there on. -/
  unread : List Char
  /-- The items so far of the lists around the innermost open one, from the inside out, and at last
  the forms so far. There is one of these for each open list. -/
  stack : List (List Term)
  /-- The items so far of the innermost open list, or the forms so far when no list is open. -/
  items : List Term

/-- The forms that the text from a place on makes up, together with what is there already. -/
def Place.forms? (marker : Char) (place : Place) : Option (List Term) :=
  nestText marker place.unread place.stack place.items

/-- Taking one piece off the front of a text. -/
inductive Step (marker : Char) : (before after : Place) → Prop where
  /-- A blank is skipped. -/
  | blank {char : Char} {rest : List Char} {stack : List (List Term)} {items : List Term}
    (blank : isBlank char) : Step marker ⟨char :: rest, stack, items⟩ ⟨rest, stack, items⟩
  /-- A comment is skipped with the end of its line. -/
  | comment {line ending rest : List Char} {stack : List (List Term)} {items : List Term}
    (inLine : InLine line) (ends : LineEnds ending rest) :
    Step marker ⟨';' :: (line ++ (ending ++ rest)), stack, items⟩ ⟨rest, stack, items⟩
  /-- A list is opened. -/
  | opening {rest : List Char} {stack : List (List Term)} {items : List Term} :
    Step marker ⟨'(' :: rest, stack, items⟩ ⟨rest, items :: stack, []⟩
  /-- The innermost list is closed. -/
  | closing {rest : List Char} {outer : List Term} {stack : List (List Term)} {items : List Term} :
    Step marker ⟨')' :: rest, outer :: stack, items⟩ ⟨rest, stack, outer ++ [.list items]⟩
  /-- A token is read. -/
  | token {word rest : List Char} {term : Term} {stack : List (List Term)} {items : List Term}
    (undivided : isWord word) (ends : Ends rest) (read : Term.ofToken? marker word = some term) :
    Step marker ⟨word ++ rest, stack, items⟩ ⟨rest, stack, items ++ [term]⟩

/-- Some steps lead from one place to another. -/
abbrev Leads (marker : Char) : (before after : Place) → Prop := Relation.ReflTransGen (Step marker)

/-! ## Pieces of a text -/

/-- A text may stand in place of another one after the same piece: when a token cannot go on into
the one, neither can it into the other, and at the end of a text only a line feed may follow. -/
structure Follows (more unread : List Char) : Prop where
  /-- Tokens end alike. -/
  ends : Ends unread → Ends more
  /-- Comments do. -/
  feed : unread = [] → more = [] ∨ more.head? = some '\n'

/-- Every text may stand in its own place. -/
theorem Follows.refl (text : List Char) : Follows text text := ⟨id, .inl⟩

/-- A line feed may follow whatever has been read. -/
theorem Follows.feed_cons (more unread : List Char) : Follows ('\n' :: more) unread :=
  ⟨fun _ => ends_feed more, fun _ => .inr rfl⟩

/-- After the same piece, texts start alike. -/
theorem Follows.append {more unread : List Char} (follows : Follows more unread)
    (piece : List Char) : Follows (piece ++ more) (piece ++ unread) := by
  cases piece with
  | nil => exact follows
  | cons char piece => exact ⟨id, nofun⟩

/-- A piece of text leads from one place to another, also when another text follows it. -/
structure Piece (marker : Char) (before after : Place) (piece : List Char) : Prop where
  /-- It is what is read between the two places. -/
  append : piece ++ after.unread = before.unread
  /-- After it no token goes on. -/
  bounded : Ends after.unread ∨ ∀ char ∈ piece.getLast?, isDelimiter char
  /-- It changes what is open in the same way, whatever follows. -/
  nests : ∀ more, Follows more after.unread → Place.forms? marker ⟨piece ++ more, before.stack,
    before.items⟩ = Place.forms? marker ⟨more, after.stack, after.items⟩

section

variable {marker : Char} {before middle after : Place} {piece : List Char}

/-- Nothing leads from a place to itself. -/
theorem Piece.refl (marker : Char) (place : Place) : Piece marker place place [] :=
  ⟨rfl, .inr nofun, fun _ _ => rfl⟩

/-- Pieces one after another are a piece. -/
theorem Piece.trans (first : Piece marker before middle piece) {rest : List Char}
    (second : Piece marker middle after rest) : Piece marker before after (piece ++ rest) where
  append := by rw [List.append_assoc, second.append, first.append]
  bounded := by
    cases rest with
    | nil =>
      have same : after.unread = middle.unread := second.append
      rw [List.append_nil, same]
      exact first.bounded
    | cons char rest => simpa using second.bounded
  nests more follows := by
    have there := second.append ▸ follows.append rest
    rw [List.append_assoc, first.nests _ there, second.nests more follows]

/-- A comment has no lexemes, nor has the end of its line. -/
theorem lex_comment_append {line ending rest more : List Char} (inLine : InLine line)
    (ends : LineEnds ending rest) (follows : Follows more rest) :
    lex (';' :: (line ++ (ending ++ more))) = lex more := by
  rw [lex_comment, lexFrom_comment_append inLine]
  cases ends with
  | feed => exact lexFrom_comment_feed more
  | returnFeed => exact lexFrom_comment_return more
  | textEnd =>
    -- The comment ends with the text, so only a line feed may follow, which ends it as well.
    rcases follows.feed rfl with rfl | feed
    · rfl
    · obtain ⟨text, rfl⟩ := List.head?_eq_some_iff.mp feed
      rw [List.nil_append, lexFrom_comment_feed, lex_blank rfl]

/-- **A step takes a piece off**, which does the same in front of another text. -/
theorem Step.exists_piece (step : Step marker before after) :
    ∃ piece, Piece marker before after piece := by
  -- A piece ends with a delimiter, unless it is a token or a comment at the end of the text.
  have delimited (front : List Char) {char : Char} (delimiter : isDelimiter char) :
      ∀ last ∈ (front ++ [char]).getLast?, isDelimiter last := by
    rw [List.getLast?_concat]
    rintro last ⟨⟩
    exact delimiter
  cases step with
  | blank blank =>
    refine ⟨[_], rfl, .inr (delimited [] (isDelimiter_of_isBlank blank)), fun more _ => ?_⟩
    exact nestText_blank blank more _ _
  | @comment line ending rest stack items inLine ends =>
    refine ⟨';' :: (line ++ ending), by simp, ?_, fun more follows => ?_⟩
    · cases ends with
      | feed => exact .inr (delimited (';' :: line) rfl)
      | returnFeed =>
        have front : ';' :: (line ++ ['\r', '\n']) = (';' :: (line ++ ['\r'])) ++ ['\n'] := by simp
        exact .inr (front ▸ delimited _ rfl)
      | textEnd => exact .inl nofun
    · have nothing := lex_comment_append inLine ends follows
      simp only [Place.forms?, nestText, List.cons_append, List.append_assoc, nothing]
  | opening => exact ⟨['('], rfl, .inr (delimited [] rfl), fun more _ => nestText_open more _ _⟩
  | closing => exact ⟨[')'], rfl, .inr (delimited [] rfl), fun more _ => nestText_close more _ _ _⟩
  | token undivided ends read =>
    exact ⟨_, rfl, .inl ends, fun more follows =>
      nestText_word undivided (follows.ends ends) read _ _⟩

/-- **So does a run of steps.** -/
theorem Leads.exists_piece (leads : Leads marker before after) :
    ∃ piece, Piece marker before after piece := by
  induction leads with
  | refl => exact ⟨[], .refl marker before⟩
  | tail _ step ih =>
    obtain ⟨piece, first⟩ := ih
    obtain ⟨rest, second⟩ := step.exists_piece
    exact ⟨piece ++ rest, first.trans second⟩

/-- Steps do not change the forms that come out in the end. -/
theorem Leads.forms?_eq (leads : Leads marker before after) :
    before.forms? marker = after.forms? marker := by
  obtain ⟨piece, leadsTo⟩ := leads.exists_piece
  have nests := leadsTo.nests after.unread (.refl after.unread)
  rw [leadsTo.append] at nests
  exact nests

/-- Skipping is done in steps. -/
theorem Skips.leads {text unread : List Char} (skips : Skips text unread)
    (stack : List (List Term)) (items : List Term) :
    Leads marker ⟨text, stack, items⟩ ⟨unread, stack, items⟩ := by
  induction skips with
  | stop => exact .refl
  | blank blank _ ih => exact .head (.blank blank) ih
  | comment inLine ends _ ih => exact .head (.comment inLine ends) ih

end

end ForwardChaining
