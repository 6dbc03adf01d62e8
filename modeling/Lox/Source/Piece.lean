import Lox.Number.Numeral
import Lox.Source.Lead

/-!
# Pieces of source

A source text falls without gaps into pieces: tokens, white space, comments, stray characters and,
at the very end, a string that is never closed. `Piece.first` takes the first piece off a text and
`pieces` takes them all. No text is lost: `flatMap_text_pieces` puts the source together again.
-/

set_option autoImplicit false

namespace Lox

inductive PieceKind where
  | token (kind : TokenKind)
  | space
  -- two slashes and the rest of their line, without its line feed
  | comment
  | stray
  -- a quote without a partner, and all that follows it
  | openString
  deriving DecidableEq

/-- A piece of source: what it is and its exact text. -/
structure Piece where
  kind : PieceKind
  text : List Char
  deriving DecidableEq

namespace Piece

def firstOperator (sign : Char) (alone withEqual : TokenKind) (rest : List Char) :
    Piece × List Char :=
  match rest with
  -- never more than one equals sign belongs to an operator
  | '=' :: after => (⟨.token withEqual, [sign, '=']⟩, after)
  | _ => (⟨.token alone, [sign]⟩, rest)

def firstSlash (slash : Char) (rest : List Char) : Piece × List Char :=
  match rest with
  -- a comment ends before the line feed
  | '/' :: after =>
      (⟨.comment, slash :: '/' :: after.takeWhile (· != '\n')⟩, after.dropWhile (· != '\n'))
  | _ => (⟨.token .slash, [slash]⟩, rest)

def firstString (opening : Char) (rest : List Char) : Piece × List Char :=
  -- the first quote ends the string, with a backslash before it or not
  match rest.dropWhile (· != '"') with
  | [] => (⟨.openString, opening :: rest⟩, [])
  | closing :: after =>
      (⟨.token .string, opening :: (rest.takeWhile (· != '"') ++ [closing])⟩, after)

def firstNumeral (digit : Char) (rest : List Char) : Piece × List Char :=
  (⟨.token .number, (Numeral.split (digit :: rest)).1⟩, (Numeral.split (digit :: rest)).2)

def firstWord (letter : Char) (rest : List Char) : Piece × List Char :=
  let word := letter :: rest.takeWhile isWordChar
  (⟨.token (TokenKind.ofWord word), word⟩, rest.dropWhile isWordChar)

/-- Takes the first piece off the text `c :: rest`, as long a piece as the grammar allows. -/
def first (c : Char) (rest : List Char) : Piece × List Char :=
  match Lead.ofChar c with
  | .mark kind => (⟨.token kind, [c]⟩, rest)
  | .operator alone withEqual => firstOperator c alone withEqual rest
  | .slash => firstSlash c rest
  | .blank => (⟨.space, [c]⟩, rest)
  | .quote => firstString c rest
  | .digit => firstNumeral c rest
  | .letter => firstWord c rest
  | .stray => (⟨.stray, [c]⟩, rest)

theorem first_append (c : Char) (rest : List Char) :
    (first c rest).1.text ++ (first c rest).2 = c :: rest := by
  unfold first
  split
  · rfl
  · unfold firstOperator
    split <;> rfl
  · unfold firstSlash
    split <;> simp [List.takeWhile_append_dropWhile]
  · rfl
  · have parts := List.takeWhile_append_dropWhile (p := (· != '"')) (l := rest)
    unfold firstString
    split
    · simp
    · next closing after shape =>
      simp only [List.cons_append, List.append_assoc, List.nil_append]
      rw [← shape, parts]
  · exact Numeral.split_append (c :: rest)
  · simp [firstWord, List.takeWhile_append_dropWhile]
  · rfl

theorem append_of_first {c : Char} {rest following : List Char} {piece : Piece}
    (taken : first c rest = (piece, following)) : piece.text ++ following = c :: rest := by
  have parts := first_append c rest
  rwa [taken] at parts

theorem first_text_ne_nil (c : Char) (rest : List Char) : (first c rest).1.text ≠ [] := by
  unfold first
  split
  · simp
  · unfold firstOperator
    split <;> simp
  · unfold firstSlash
    split <;> simp
  · simp
  · unfold firstString
    split <;> simp
  · next role => exact Numeral.split_fst_ne_nil (Lead.ofChar_eq_digit_iff.mp role)
  · simp [firstWord]
  · simp

theorem length_first_lt (c : Char) (rest : List Char) :
    (first c rest).2.length < (c :: rest).length := by
  have parts := congrArg List.length (first_append c rest)
  have positive := List.length_pos_iff.mpr (first_text_ne_nil c rest)
  rw [List.length_append] at parts
  omega

end Piece

/-- Moves the pieces of a text onto a list of pieces in reverse order. -/
def cutPieces (done : List Piece) (text : List Char) : List Piece :=
  match text with
  | [] => done.reverse
  | c :: rest => cutPieces ((Piece.first c rest).1 :: done) (Piece.first c rest).2
termination_by text.length
decreasing_by exact Piece.length_first_lt c rest

def pieces (text : List Char) : List Piece :=
  cutPieces [] text

private theorem cutPieces_eq_append (done : List Piece) (text : List Char) :
    cutPieces done text = done.reverse ++ cutPieces [] text := by
  match text with
  | [] => simp [cutPieces]
  | c :: rest =>
      rw [cutPieces, cutPieces, cutPieces_eq_append (_ :: done), cutPieces_eq_append [_]]
      simp
termination_by text.length
decreasing_by all_goals exact Piece.length_first_lt c rest

@[simp]
theorem pieces_nil : pieces [] = [] := by
  simp [pieces, cutPieces]

theorem pieces_cons (c : Char) (rest : List Char) :
    pieces (c :: rest) = (Piece.first c rest).1 :: pieces (Piece.first c rest).2 := by
  rw [pieces, cutPieces, cutPieces_eq_append]
  rfl

/-- Induction along the pieces of a text: what holds of the empty text, and of a text whenever it
holds of what remains after the first piece, holds of every text. -/
theorem pieces_induction {motive : List Char → Prop} (nil : motive [])
    (cons : ∀ c rest piece following, Piece.first c rest = (piece, following) →
      motive following → motive (c :: rest))
    (text : List Char) : motive text := by
  match text with
  | [] => exact nil
  | c :: rest => exact cons c rest _ _ rfl (pieces_induction nil cons _)
termination_by text.length
decreasing_by exact Piece.length_first_lt c rest

/-- The pieces tile the source: their texts, in order, are the whole of it. -/
theorem flatMap_text_pieces (text : List Char) : (pieces text).flatMap Piece.text = text := by
  induction text using pieces_induction with
  | nil => simp
  | cons c rest piece following taken ih =>
      rw [pieces_cons, taken, List.flatMap_cons, ih, Piece.append_of_first taken]

end Lox
