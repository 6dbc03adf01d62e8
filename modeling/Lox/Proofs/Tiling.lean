import Lox.Proofs.PieceJoin

/-!
# Tilings

Well-formed pieces of which each ends before the next are the pieces of the text that they make
together. An edit that keeps such a row of pieces intact is therefore an edit of the pieces of the
text, and no reading has to be followed through the edited text.
-/

set_option autoImplicit false

namespace Lox

/-- A row of pieces as it can stand in a text. -/
inductive Tiling : List Piece → Prop where
  | nil : Tiling []
  | cons {piece : Piece} {rest : List Piece} :
      piece.WellFormed → piece.EndsBefore (rest.flatMap Piece.text) → Tiling rest →
      Tiling (piece :: rest)

theorem tiling_pieces (text : List Char) : Tiling (pieces text) := by
  induction text using pieces_induction with
  | nil =>
      rw [pieces_nil]
      exact .nil
  | cons c rest piece following taken ih =>
      obtain ⟨formed, ends, _⟩ := Piece.first_eq_iff.mp taken
      rw [pieces_cons, taken]
      apply Tiling.cons formed _ ih
      rwa [flatMap_text_pieces]

/-- A piece that ends where it must is taken off the front. -/
theorem Piece.WellFormed.pieces_append {piece : Piece} {following : List Char}
    (formed : piece.WellFormed) (ends : piece.EndsBefore following) :
    pieces (piece.text ++ following) = piece :: pieces following := by
  obtain ⟨c, others, shape⟩ := List.exists_cons_of_ne_nil formed.text_ne_nil
  have front : piece.text ++ following = c :: (others ++ following) := by
    rw [shape, List.cons_append]
  rw [front, pieces_cons, Piece.first_of_wellFormed formed ends front]

namespace Tiling

theorem pieces_eq {tiles : List Piece} (tiling : Tiling tiles) :
    pieces (tiles.flatMap Piece.text) = tiles := by
  induction tiling with
  | nil => exact pieces_nil
  | cons formed ends _ ih => rw [List.flatMap_cons, formed.pieces_append ends, ih]

theorem boundary {before after : List Piece} {piece : Piece}
    (tiling : Tiling (before ++ piece :: after)) :
    piece.WellFormed ∧ piece.EndsBefore (after.flatMap Piece.text) := by
  induction before with
  | nil =>
      cases tiling with
      | cons formed ends _ => exact ⟨formed, ends⟩
  | cons first others ih =>
      cases tiling with
      | cons _ _ rest => exact ih rest

theorem eq_nil_of_text_eq_nil {tiles : List Piece} (tiling : Tiling tiles)
    (empty : tiles.flatMap Piece.text = []) : tiles = [] := by
  rw [← tiling.pieces_eq, empty, pieces_nil]

end Tiling

theorem Piece.WellFormed.pieces_text {piece : Piece} (formed : piece.WellFormed) :
    pieces piece.text = [piece] := by
  have alone : Tiling [piece] := .cons formed piece.endsBefore_nil .nil
  have read := alone.pieces_eq
  rwa [List.flatMap_singleton] at read

/-! ## Changing one piece -/

/-- A character that is no point hides what follows it from the pieces in front. -/
private theorem Piece.EndsBefore.congr_behind {piece : Piece} {c : Char} (notPoint : c ≠ '.')
    {before left right : List Char} (ends : piece.EndsBefore (before ++ c :: left)) :
    piece.EndsBefore (before ++ c :: right) := by
  cases before with
  | nil =>
      have fraction : startsFraction (c :: left) = startsFraction (c :: right) := by
        simp [startsFraction, notPoint]
      exact ends.congr rfl fraction
  | cons first rest =>
      apply ends.congr_cons
      cases rest with
      | nil => rfl
      | cons second others => rfl

/-- A piece may be changed into another one that begins with the same character, for the pieces in
front of it see no more of it than that. -/
theorem Tiling.replace {left right : List Piece} {piece other : Piece} {c : Char}
    {rest otherRest : List Char} (tiling : Tiling (left ++ piece :: right))
    (shape : piece.text = c :: rest) (otherShape : other.text = c :: otherRest)
    (notPoint : c ≠ '.') (formed : other.WellFormed)
    (ends : other.EndsBefore (right.flatMap Piece.text)) : Tiling (left ++ other :: right) := by
  induction left with
  | nil =>
      cases tiling with
      | cons _ _ tail => exact .cons formed ends tail
  | cons first others ih =>
      rw [List.cons_append] at tiling
      cases tiling with
      | cons firstFormed firstEnds tail =>
          apply Tiling.cons firstFormed _ (ih tail)
          rw [List.flatMap_append, List.flatMap_cons, shape, List.cons_append] at firstEnds
          rw [List.flatMap_append, List.flatMap_cons, otherShape, List.cons_append]
          exact firstEnds.congr_behind notPoint

end Lox
