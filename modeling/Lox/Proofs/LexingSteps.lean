import Lox.Lexing.Basic
import Lox.Proofs.PieceBoundary

/-!
# Lexing from the middle of a source

Tokens and errors of a text that need not stand at the beginning of its source, and what its first
piece contributes to them.
-/

set_option autoImplicit false

namespace Lox

theorem Placed.token?_eq_some_iff {placed : Placed} {token : Token} :
    placed.token? = some token ↔ placed.piece.kind = .token token.kind ∧
      token = ⟨token.kind, String.ofList placed.piece.text, placed.line⟩ := by
  obtain ⟨⟨kind, text⟩, start, line⟩ := placed
  cases kind with
  | token kind =>
      constructor
      · intro shown
        cases shown
        exact ⟨rfl, rfl⟩
      · rintro ⟨sameKind, shape⟩
        cases sameKind
        rw [shape]
        rfl
  | space | comment | stray | openString => simp [token?]

theorem Lexeme.error?_eq_none {kind : PieceKind} {text : List Char} (lexeme : Lexeme kind text)
    (start line : Nat) : Placed.error? ⟨⟨kind, text⟩, start, line⟩ = none := by
  cases lexeme <;> rfl

/-- The tokens of a text, from an offset and a line on, with the end of the source. -/
def tokensFrom (start line : Nat) (text : List Char) : List Token :=
  (placeFrom start line (pieces text)).filterMap Placed.token? ++
    [Token.endOfSource (line + text.count '\n')]

def errorsFrom (start line : Nat) (text : List Char) : List LexicalError :=
  (placeFrom start line (pieces text)).filterMap Placed.error?

theorem lex_eq (source : String) :
    lex source = ⟨tokensFrom 0 1 source.toList, errorsFrom 0 1 source.toList⟩ :=
  rfl

theorem tokensFrom_nil (start line : Nat) :
    tokensFrom start line [] = [Token.endOfSource line] := by
  simp [tokensFrom]

theorem errorsFrom_nil (start line : Nat) : errorsFrom start line [] = [] := by
  simp [errorsFrom]

section Step

variable {c : Char} {rest following : List Char} {piece : Piece}

theorem tokensFrom_cons (start line : Nat) (taken : Piece.first c rest = (piece, following)) :
    tokensFrom start line (c :: rest) =
      (Placed.token? ⟨piece, start, line + piece.text.count '\n'⟩).toList ++
        tokensFrom (start + piece.text.length) (line + piece.text.count '\n') following := by
  have counts : (c :: rest).count '\n' = piece.text.count '\n' + following.count '\n' := by
    rw [← Piece.append_of_first taken, List.count_append]
  rw [tokensFrom, pieces_cons, taken, placeFrom_cons, counts, ← Nat.add_assoc]
  cases shown : Placed.token? ⟨piece, start, line + piece.text.count '\n'⟩ with
  | none => simp [shown, tokensFrom]
  | some token => simp [shown, tokensFrom]

theorem errorsFrom_cons (start line : Nat) (taken : Piece.first c rest = (piece, following)) :
    errorsFrom start line (c :: rest) =
      (Placed.error? ⟨piece, start, line + piece.text.count '\n'⟩).toList ++
        errorsFrom (start + piece.text.length) (line + piece.text.count '\n') following := by
  rw [errorsFrom, pieces_cons, taken, placeFrom_cons]
  cases shown : Placed.error? ⟨piece, start, line + piece.text.count '\n'⟩ with
  | none => simp [shown, errorsFrom]
  | some error => simp [shown, errorsFrom]

end Step

theorem dropLast_tokensFrom (start line : Nat) (text : List Char) :
    (tokensFrom start line text).dropLast =
      (placeFrom start line (pieces text)).filterMap Placed.token? := by
  rw [tokensFrom, List.dropLast_concat]

theorem tokens_eq_dropLast (source : String) :
    (lex source).tokens =
      (lex source).tokens.dropLast ++ [Token.endOfSource (lineCount source.toList)] := by
  simp [lex]

theorem placeFrom_append (start line : Nat) (left right : List Piece) :
    placeFrom start line (left ++ right) = placeFrom start line left ++
      placeFrom (start + (left.flatMap Piece.text).length)
        (line + (left.flatMap Piece.text).count '\n') right := by
  induction left generalizing start line with
  | nil => rfl
  | cons piece rest ih =>
      rw [List.cons_append, placeFrom_cons, placeFrom_cons, ih, List.flatMap_cons,
        List.length_append, List.count_append, List.cons_append, Nat.add_assoc, Nat.add_assoc]

/-! ## Moving a text down by some lines -/

def Token.advance (lines : Nat) (token : Token) : Token :=
  { token with line := token.line + lines }

def LexicalError.advance (lines : Nat) : LexicalError → LexicalError
  | .unexpectedCharacter character line => .unexpectedCharacter character (line + lines)
  | .unterminatedString text line => .unterminatedString text (line + lines)

private theorem token?_advance (piece : Piece) (start start' line lines : Nat) :
    Placed.token? ⟨piece, start', line + lines⟩ =
      (Placed.token? ⟨piece, start, line⟩).map (Token.advance lines) := by
  obtain ⟨kind, text⟩ := piece
  cases kind <;> rfl

private theorem error?_advance (piece : Piece) (start start' line lines : Nat) :
    Placed.error? ⟨piece, start', line + lines⟩ =
      (Placed.error? ⟨piece, start, line⟩).map (LexicalError.advance lines) := by
  obtain ⟨kind, text⟩ := piece
  cases kind with
  | stray => cases text <;> rfl
  | token => rfl
  | space => rfl
  | comment => rfl
  | openString => rfl

private theorem filterMap_placeFrom_advance {Item : Type} {shown : Placed → Option Item}
    {advance : Nat → Item → Item}
    (moved : ∀ piece start start' line lines,
      shown ⟨piece, start', line + lines⟩ = (shown ⟨piece, start, line⟩).map (advance lines))
    (pieces : List Piece) (start start' line lines : Nat) :
    (placeFrom start' (line + lines) pieces).filterMap shown =
      ((placeFrom start line pieces).filterMap shown).map (advance lines) := by
  induction pieces generalizing start start' line with
  | nil => rfl
  | cons piece rest ih =>
      have shownMoved := moved piece start start' (line + piece.text.count '\n') lines
      rw [placeFrom_cons, placeFrom_cons, Nat.add_right_comm, List.filterMap_cons,
        List.filterMap_cons, shownMoved, ih (start + piece.text.length)]
      cases shown ⟨piece, start, line + piece.text.count '\n'⟩ with
      | none => rfl
      | some item => rfl

/-- Offsets leave no trace in the tokens, and lines are counted on from the first. -/
theorem tokensFrom_advance (text : List Char) (start start' line lines : Nat) :
    tokensFrom start' (line + lines) text =
      (tokensFrom start line text).map (Token.advance lines) := by
  rw [tokensFrom, tokensFrom, filterMap_placeFrom_advance token?_advance _ start,
    List.map_append, Nat.add_right_comm]
  rfl

theorem errorsFrom_advance (text : List Char) (start start' line lines : Nat) :
    errorsFrom start' (line + lines) text =
      (errorsFrom start line text).map (LexicalError.advance lines) :=
  filterMap_placeFrom_advance error?_advance _ start start' line lines

end Lox
