import Lox.Source.Piece

/-!
# Placed pieces

A piece together with its place in the source. The line of a piece is the line on which it ends,
so a string that runs over several lines bears the line of its closing quote.
-/

set_option autoImplicit false

namespace Lox

def lineCount (text : List Char) : Nat :=
  1 + text.count '\n'

/-- A piece with the offset of its first character in the source, counted in characters, and the
line on which the piece ends. -/
structure Placed where
  piece : Piece
  start : Nat
  line : Nat
  deriving DecidableEq

namespace Placed

def stop (placed : Placed) : Nat :=
  placed.start + placed.piece.text.length

end Placed

/-- Places pieces one after the other, from an offset and a line on, and moves them onto a list of
placed pieces in reverse order. -/
def placeOnto (done : List Placed) (start line : Nat) : List Piece → List Placed
  | [] => done.reverse
  | piece :: rest =>
      let after := line + piece.text.count '\n'
      placeOnto (⟨piece, start, after⟩ :: done) (start + piece.text.length) after rest

def placeFrom (start line : Nat) (pieces : List Piece) : List Placed :=
  placeOnto [] start line pieces

def placedPieces (text : List Char) : List Placed :=
  placeFrom 0 1 (pieces text)

private theorem placeOnto_eq_append (done : List Placed) (start line : Nat)
    (pieces : List Piece) :
    placeOnto done start line pieces = done.reverse ++ placeOnto [] start line pieces := by
  induction pieces generalizing done start line with
  | nil => simp [placeOnto]
  | cons piece rest ih =>
      rw [placeOnto, placeOnto, ih (_ :: done), ih [_]]
      simp

@[simp]
theorem placeFrom_nil (start line : Nat) : placeFrom start line [] = [] :=
  rfl

theorem placeFrom_cons (start line : Nat) (piece : Piece) (rest : List Piece) :
    placeFrom start line (piece :: rest) =
      ⟨piece, start, line + piece.text.count '\n'⟩ ::
        placeFrom (start + piece.text.length) (line + piece.text.count '\n') rest := by
  rw [placeFrom, placeOnto, placeOnto_eq_append]
  rfl

theorem map_piece_placeFrom (start line : Nat) (pieces : List Piece) :
    (placeFrom start line pieces).map Placed.piece = pieces := by
  induction pieces generalizing start line with
  | nil => rfl
  | cons piece rest ih => rw [placeFrom_cons, List.map_cons, ih]

end Lox
