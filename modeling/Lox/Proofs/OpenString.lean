import Lox.Proofs.LexingSteps

/-!
# Open strings

A source leaves a string open when its last piece is a quote without a partner. No other piece can
be one, because such a piece takes all that follows it.
-/

set_option autoImplicit false

namespace Lox

def LexicalError.isUnterminated : LexicalError → Bool
  | .unterminatedString _ _ => true
  | .unexpectedCharacter _ _ => false

def Lexing.leavesOpen (lexing : Lexing) : Bool :=
  lexing.errors.any LexicalError.isUnterminated

/-- Whether a text has a piece that is an open string. -/
def endsInString (text : List Char) : Bool :=
  (pieces text).any (·.kind == .openString)

@[simp] theorem endsInString_nil : endsInString [] = false := by
  simp [endsInString]

theorem kind_ne_openString {text : List Char} (closed : endsInString text = false)
    {piece : Piece} (member : piece ∈ pieces text) : piece.kind ≠ .openString := by
  intro isOpen
  have notOpen := List.any_eq_false.mp closed piece member
  rw [isOpen] at notOpen
  exact notOpen rfl

theorem endsInString_cons {c : Char} {rest following : List Char} {piece : Piece}
    (taken : Piece.first c rest = (piece, following)) :
    endsInString (c :: rest) = (piece.kind == .openString || endsInString following) := by
  rw [endsInString, pieces_cons, taken, List.any_cons, endsInString]

private theorem any_error?_isUnterminated {piece : Piece} (formed : piece.WellFormed)
    (start line : Nat) :
    (Placed.error? ⟨piece, start, line⟩).toList.any LexicalError.isUnterminated =
      (piece.kind == .openString) := by
  cases formed with
  | @lexeme kind text lexeme =>
      cases kind with
      | token kind => rfl
      | space => rfl
      | comment => rfl
      | stray => nomatch lexeme
      | openString => nomatch lexeme
  | stray => rfl
  | openString => rfl

theorem any_errorsFrom_isUnterminated (text : List Char) (start line : Nat) :
    (errorsFrom start line text).any LexicalError.isUnterminated = endsInString text := by
  induction text using pieces_induction generalizing start line with
  | nil => simp [errorsFrom_nil]
  | cons c rest piece following taken ih =>
      have formed := (Piece.first_eq_iff.mp taken).1
      rw [errorsFrom_cons start line taken, List.any_append, endsInString_cons taken,
        any_error?_isUnterminated formed, ih]

theorem leavesOpen_lex (source : String) :
    (lex source).leavesOpen = endsInString source.toList :=
  any_errorsFrom_isUnterminated source.toList 0 1

end Lox
