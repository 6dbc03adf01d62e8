import Lox.Proofs.OpenString
import Lox.Proofs.Spans
import Mathlib.Data.List.Forall2

/-!
# Recovery behind stray characters

A stray character costs a source one error and nothing else: what stands around it is lexed as if a
space stood in its place.
-/

set_option autoImplicit false

namespace Lox

def strayOffset? (found : Spanned LexicalError) : Option Nat :=
  match found.item with
  | .unexpectedCharacter _ _ => some found.start
  | .unterminatedString _ _ => none

def strayOffsets (source : String) : List Nat :=
  (spannedErrors source).filterMap strayOffset?

/-- The source with one space in place of each character that lexing reports as unexpected. -/
def blankStrays (source : String) : String :=
  String.ofList ((strayOffsets source).foldl (fun text offset => text.set offset ' ') source.toList)

/-! ## Blanked pieces -/

namespace Piece

def blanked (piece : Piece) : Piece :=
  match piece.kind with
  | .stray => ⟨.space, [' ']⟩
  | _ => piece

theorem WellFormed.stray_or_blanked_eq {piece : Piece} (formed : piece.WellFormed) :
    (∃ c, piece = ⟨.stray, [c]⟩ ∧ Lead.ofChar c = .stray) ∨
      piece.kind ≠ .stray ∧ piece.blanked = piece := by
  cases formed with
  | @lexeme kind text lexeme =>
      cases kind with
      | stray => cases lexeme
      | token | space | comment | openString => exact .inr ⟨nofun, rfl⟩
  | stray role => exact .inl ⟨_, rfl, role⟩
  | openString _ => exact .inr ⟨nofun, rfl⟩

theorem WellFormed.blanked {piece : Piece} (formed : piece.WellFormed) :
    piece.blanked.WellFormed := by
  rcases formed.stray_or_blanked_eq with ⟨c, rfl, _⟩ | ⟨_, same⟩
  · exact .lexeme (.blank (.inl rfl))
  · rwa [same]

end Piece

/-- A stray character, of which there is no word, or no change at all. -/
def BlankedTo (c blank : Char) : Prop :=
  blank = c ∨ (Lead.ofChar c = .stray ∧ blank = ' ')

theorem isDigit_of_blankedTo {c blank : Char} (blanked : BlankedTo c blank) :
    isDigit c = isDigit blank := by
  rcases blanked with rfl | ⟨stray, rfl⟩
  · rfl
  · cases digit : isDigit c with
    | false => rfl
    | true =>
        rw [Lead.ofChar_eq_digit_iff.mpr digit] at stray
        cases stray

theorem forall₂_blankedTo_refl (text : List Char) : List.Forall₂ BlankedTo text text :=
  List.forall₂_same.mpr fun _ _ => .inl rfl

theorem forall₂_blankedTo {tiles : List Piece} (tiling : Tiling tiles) :
    List.Forall₂ BlankedTo (tiles.flatMap Piece.text)
      ((tiles.map Piece.blanked).flatMap Piece.text) := by
  induction tiling with
  | nil => exact .nil
  | @cons piece rest formed _ _ ih =>
      rw [List.map_cons, List.flatMap_cons, List.flatMap_cons]
      apply List.rel_append _ ih
      rcases formed.stray_or_blanked_eq with ⟨c, rfl, role⟩ | ⟨_, same⟩
      · exact .cons (.inr ⟨role, rfl⟩) .nil
      · rw [same]
        exact forall₂_blankedTo_refl _

/-- No piece ends earlier or later for a space that stands in place of a stray character. -/
theorem Piece.EndsBefore.of_blankedTo {piece : Piece} {left right : List Char}
    (ends : piece.EndsBefore left) (blanked : List.Forall₂ BlankedTo left right) :
    piece.EndsBefore right := by
  cases blanked with
  | nil => exact ends
  | @cons c blank rest blankRest head tail =>
      rcases head with rfl | ⟨stray, rfl⟩
      · have fraction : startsFraction (blank :: rest) = startsFraction (blank :: blankRest) := by
          rw [startsFraction_cons, startsFraction_cons]
          cases tail with
          | nil => rfl
          | cons second _ => simp [isDigit_of_blankedTo second]
        exact ends.congr rfl fraction
      · apply Piece.endsBefore_of_separator (.inl (by decide))
        · intro comment
          rw [EndsBefore, comment] at ends
          have feed : c = '\n' := by simpa using (startsOutside_cons _ _ _).mp ends
          exact (Lead.ne_of_stray stray).2 feed
        · intro isOpen
          rw [EndsBefore, isOpen] at ends
          cases ends

theorem Tiling.blanked {tiles : List Piece} (tiling : Tiling tiles) :
    Tiling (tiles.map Piece.blanked) := by
  induction tiling with
  | nil => exact .nil
  | @cons piece rest formed ends tail ih =>
      apply Tiling.cons formed.blanked _ ih
      rcases formed.stray_or_blanked_eq with ⟨c, rfl, _⟩ | ⟨_, same⟩
      · exact trivial
      · rw [same]
        exact ends.of_blankedTo (forall₂_blankedTo tail)

/-! ## Blanked texts -/

private def Placed.strayOffset? (placed : Placed) : Option Nat :=
  (placed.spanned? Placed.error?).bind Lox.strayOffset?

private theorem Placed.strayOffset?_of_stray (c : Char) (start line : Nat) :
    Placed.strayOffset? ⟨⟨.stray, [c]⟩, start, line⟩ = some start :=
  rfl

private theorem Placed.strayOffset?_of_ne {placed : Placed}
    (notStray : placed.piece.kind ≠ .stray) : placed.strayOffset? = none := by
  obtain ⟨⟨kind, text⟩, start, line⟩ := placed
  cases kind with
  | stray => exact absurd rfl notStray
  | token | space | comment | openString => rfl

private theorem foldl_set_strayOffsets {tiles : List Piece} (tiling : Tiling tiles)
    (before : List Char) (line : Nat) :
    ((placeFrom before.length line tiles).filterMap Placed.strayOffset?).foldl
        (fun text offset => text.set offset ' ') (before ++ tiles.flatMap Piece.text) =
      before ++ (tiles.map Piece.blanked).flatMap Piece.text := by
  induction tiling generalizing before line with
  | nil => rfl
  | @cons piece rest formed _ _ ih =>
      -- What is blanked already is moved in front, where no later offset reaches.
      have others := ih (before ++ piece.blanked.text) (line + piece.text.count '\n')
      rw [List.length_append, List.append_assoc, List.append_assoc] at others
      rw [placeFrom_cons, List.map_cons, List.flatMap_cons, List.flatMap_cons]
      rcases formed.stray_or_blanked_eq with ⟨c, rfl, _⟩ | ⟨notStray, same⟩
      · have set : (before ++ ([c] ++ rest.flatMap Piece.text)).set before.length ' ' =
            before ++ ([' '] ++ rest.flatMap Piece.text) := by
          rw [List.set_append_right _ _ (Nat.le_refl _), Nat.sub_self]
          rfl
        rw [List.filterMap_cons_some (Placed.strayOffset?_of_stray c _ _), List.foldl_cons, set]
        exact others
      · rw [same] at others ⊢
        rw [List.filterMap_cons_none (Placed.strayOffset?_of_ne notStray)]
        exact others

theorem toList_blankStrays (source : String) :
    (blankStrays source).toList =
      ((pieces source.toList).map Piece.blanked).flatMap Piece.text := by
  have blanks := foldl_set_strayOffsets (tiling_pieces source.toList) [] 1
  rw [flatMap_text_pieces] at blanks
  rw [blankStrays, String.toList_ofList, strayOffsets, spannedErrors, List.filterMap_filterMap]
  exact blanks

theorem pieces_blankStrays (source : String) :
    pieces (blankStrays source).toList = (pieces source.toList).map Piece.blanked := by
  rw [toList_blankStrays]
  exact (tiling_pieces source.toList).blanked.pieces_eq

/-! ## What is read -/

private theorem length_blanked {piece : Piece} (formed : piece.WellFormed) :
    piece.blanked.text.length = piece.text.length := by
  rcases formed.stray_or_blanked_eq with ⟨c, rfl, _⟩ | ⟨_, same⟩
  · rfl
  · rw [same]

private theorem count_blanked {piece : Piece} (formed : piece.WellFormed) :
    piece.blanked.text.count '\n' = piece.text.count '\n' := by
  rcases formed.stray_or_blanked_eq with ⟨c, rfl, role⟩ | ⟨_, same⟩
  · have notFeed : c ≠ '\n' := (Lead.ne_of_stray role).2
    rw [List.count_singleton, beq_false_of_ne notFeed]
    rfl
  · rw [same]

private theorem count_flatMap_blanked {tiles : List Piece} (tiling : Tiling tiles) :
    ((tiles.map Piece.blanked).flatMap Piece.text).count '\n' =
      (tiles.flatMap Piece.text).count '\n' := by
  induction tiling with
  | nil => rfl
  | cons formed _ _ ih =>
      rw [List.map_cons, List.flatMap_cons, List.flatMap_cons, List.count_append,
        List.count_append, count_blanked formed, ih]

private def Placed.blanked (placed : Placed) : Placed :=
  { placed with piece := placed.piece.blanked }

private theorem placeFrom_blanked {tiles : List Piece} (tiling : Tiling tiles)
    (start line : Nat) :
    placeFrom start line (tiles.map Piece.blanked) =
      (placeFrom start line tiles).map Placed.blanked := by
  induction tiling generalizing start line with
  | nil => rfl
  | cons formed _ _ ih =>
      rw [List.map_cons, placeFrom_cons, placeFrom_cons, List.map_cons, length_blanked formed,
        count_blanked formed, ih]
      rfl

private theorem token?_blanked (placed : Placed) : placed.blanked.token? = placed.token? := by
  obtain ⟨⟨kind, text⟩, start, line⟩ := placed
  cases kind with
  | token | space | comment | stray | openString => rfl

private theorem error?_blanked (placed : Placed) :
    placed.blanked.error? = placed.error?.filter LexicalError.isUnterminated := by
  obtain ⟨⟨kind, text⟩, start, line⟩ := placed
  cases kind with
  | token | space | comment | openString => rfl
  | stray => cases text <;> rfl

/-- A source has one open string at most, for it takes all that follows. -/
private theorem filter_isUnterminated {tiles : List Piece} (tiling : Tiling tiles)
    (start line : Nat) :
    ((placeFrom start line tiles).filterMap Placed.error?).filter LexicalError.isUnterminated =
      (((placeFrom start line tiles).filterMap Placed.error?).find?
        LexicalError.isUnterminated).toList := by
  induction tiling generalizing start line with
  | nil => rfl
  | @cons piece rest formed ends tail ih =>
      rw [placeFrom_cons]
      cases formed with
      | lexeme lexeme =>
          rw [List.filterMap_cons_none (lexeme.error?_eq_none _ _)]
          exact ih _ _
      | stray _ => exact ih _ _
      | openString _ =>
          obtain rfl : rest = [] := tail.eq_nil_of_text_eq_nil ends
          rfl

/-- With a space in place of each character that is reported as unexpected, a source has the same
tokens, and of its errors the open string alone is left, if there is one. -/
theorem lex_blankStrays (source : String) :
    lex (blankStrays source) =
      ⟨(lex source).tokens, ((lex source).errors.find? LexicalError.isUnterminated).toList⟩ := by
  have tiling := tiling_pieces source.toList
  have placed : placedPieces (blankStrays source).toList =
      (placedPieces source.toList).map Placed.blanked := by
    rw [placedPieces, pieces_blankStrays, placeFrom_blanked tiling]
    rfl
  have lines : lineCount (blankStrays source).toList = lineCount source.toList := by
    rw [lineCount, toList_blankStrays, count_flatMap_blanked tiling, flatMap_text_pieces]
    rfl
  have tokens : ((placedPieces source.toList).map Placed.blanked).filterMap Placed.token? =
      (placedPieces source.toList).filterMap Placed.token? := by
    rw [List.filterMap_map]
    exact congrFun (congrArg List.filterMap (funext token?_blanked)) _
  have errors : ((placedPieces source.toList).map Placed.blanked).filterMap Placed.error? =
      ((lex source).errors.find? LexicalError.isUnterminated).toList := by
    rw [List.filterMap_map, lex, placedPieces, ← filter_isUnterminated tiling,
      List.filter_filterMap]
    exact congrFun (congrArg List.filterMap (funext error?_blanked)) _
  rw [lex, placed, lines, tokens, errors]
  rfl

/-- Inside strings there are no stray characters. -/
example : blankStrays "1@\"é\"é\"@" = "1 \"é\" \"@" := by
  decide +kernel

end Lox
