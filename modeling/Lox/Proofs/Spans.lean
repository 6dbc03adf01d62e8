import Lox.Proofs.LexingSteps
import Lox.Proofs.Tiling

/-!
# Spans

Where the tokens and the errors of a source stand. Offsets count characters, and a span reaches
from the first character of what it belongs to up to the one behind the last.
-/

set_option autoImplicit false

namespace Lox

structure Spanned (Item : Type) where
  item : Item
  start : Nat
  stop : Nat
  deriving DecidableEq

def Placed.spanned? {Item : Type} (shown : Placed → Option Item) (placed : Placed) :
    Option (Spanned Item) :=
  (shown placed).map fun item => ⟨item, placed.start, placed.stop⟩

def spannedTokens (source : String) : List (Spanned Token) :=
  (placedPieces source.toList).filterMap (Placed.spanned? Placed.token?)

def spannedErrors (source : String) : List (Spanned LexicalError) :=
  (placedPieces source.toList).filterMap (Placed.spanned? Placed.error?)

theorem map_item_spanned? {Item : Type} (shown : Placed → Option Item)
    (placed : List Placed) :
    (placed.filterMap (Placed.spanned? shown)).map Spanned.item = placed.filterMap shown := by
  have shownItem : (fun found => (Placed.spanned? shown found).map Spanned.item) = shown := by
    funext found
    rw [Placed.spanned?, Option.map_map]
    exact Option.map_id'
  rw [List.map_filterMap, shownItem]

theorem map_item_spannedTokens (source : String) :
    (spannedTokens source).map Spanned.item = (lex source).tokens.dropLast := by
  rw [lex_eq, dropLast_tokensFrom]
  exact map_item_spanned? _ _

theorem map_item_spannedErrors (source : String) :
    (spannedErrors source).map Spanned.item = (lex source).errors :=
  map_item_spanned? _ _

theorem exists_placed_of_mem_spanned {Item : Type} {shown : Placed → Option Item}
    {placed : List Placed} {found : Spanned Item}
    (member : found ∈ placed.filterMap (Placed.spanned? shown)) :
    ∃ place ∈ placed, shown place = some found.item ∧
      place.start = found.start ∧ place.stop = found.stop := by
  obtain ⟨place, placeMember, spanned⟩ := List.mem_filterMap.mp member
  obtain ⟨item, shownItem, rfl⟩ := Option.map_eq_some_iff.mp spanned
  exact ⟨place, placeMember, shownItem, rfl, rfl⟩

/-! ## Pieces in their source -/

theorem boundary_of_pieces_eq {text : List Char} {before after : List Piece} {piece : Piece}
    (split : pieces text = before ++ piece :: after) :
    piece.WellFormed ∧ piece.EndsBefore (after.flatMap Piece.text) := by
  have tiling := tiling_pieces text
  rw [split] at tiling
  exact tiling.boundary

/-- A row of placed pieces may be cut at any of them: the pieces behind it are placed from its end
on. -/
theorem cut_of_placeFrom_eq {start line : Nat} {pieces : List Piece} {before after : List Placed}
    {placed : Placed} (split : placeFrom start line pieces = before ++ placed :: after) :
    pieces = before.map Placed.piece ++ placed.piece :: after.map Placed.piece ∧
      placeFrom start line (before.map Placed.piece) = before ∧
      placed.start = start + ((before.map Placed.piece).flatMap Piece.text).length ∧
      placed.line = line +
        ((before.map Placed.piece).flatMap Piece.text ++ placed.piece.text).count '\n' ∧
      placeFrom placed.stop placed.line (after.map Placed.piece) = after := by
  have shape : pieces = before.map Placed.piece ++ placed.piece :: after.map Placed.piece := by
    rw [← map_piece_placeFrom start line pieces, split, List.map_append, List.map_cons]
  have lengths : (placeFrom start line (before.map Placed.piece)).length = before.length := by
    have mapped := congrArg List.length (map_piece_placeFrom start line (before.map Placed.piece))
    rwa [List.length_map, List.length_map] at mapped
  rw [shape, placeFrom_append, placeFrom_cons] at split
  obtain ⟨front, behind⟩ := List.append_inj split lengths
  obtain ⟨same, back⟩ := List.cons.inj behind
  have stop := congrArg Placed.stop same
  have line := congrArg Placed.line same
  refine ⟨shape, front, (congrArg Placed.start same).symm, ?_, ?_⟩
  · rw [← line, List.count_append, Nat.add_assoc]
  · rw [← stop, ← line]
    exact back

private theorem exists_split_of_mem_placeFrom {start line : Nat} {pieces : List Piece}
    {placed : Placed} (member : placed ∈ placeFrom start line pieces) :
    ∃ before after, pieces = before ++ placed.piece :: after ∧
      placed.start = start + (before.flatMap Piece.text).length ∧
      placed.line = line + (before.flatMap Piece.text ++ placed.piece.text).count '\n' := by
  obtain ⟨before, after, split⟩ := List.append_of_mem member
  obtain ⟨shape, _, startShape, lineShape, _⟩ := cut_of_placeFrom_eq split
  exact ⟨_, _, shape, startShape, lineShape⟩

/-- A placed piece stands in its source at its offset, it is one that may end there, and its line
counts the line feeds before its end. -/
theorem exists_split_of_mem_placedPieces {text : List Char} {placed : Placed}
    (member : placed ∈ placedPieces text) :
    ∃ before after, text = before ++ placed.piece.text ++ after ∧
      placed.piece.WellFormed ∧ placed.piece.EndsBefore after ∧
      placed.start = before.length ∧ placed.line = lineCount (before ++ placed.piece.text) := by
  obtain ⟨before, after, split, startShape, lineShape⟩ := exists_split_of_mem_placeFrom member
  obtain ⟨formed, ends⟩ := boundary_of_pieces_eq split
  refine ⟨before.flatMap Piece.text, after.flatMap Piece.text, ?_, formed, ends, ?_, lineShape⟩
  · rw [← flatMap_text_pieces text, split]
    simp
  · rw [startShape, Nat.zero_add]

/-! ## The order of pieces -/

theorem le_of_mem_placeFrom {start line : Nat} {pieces : List Piece} {placed : Placed}
    (member : placed ∈ placeFrom start line pieces) :
    start ≤ placed.start ∧ line ≤ placed.line := by
  obtain ⟨_, _, _, startShape, lineShape⟩ := exists_split_of_mem_placeFrom member
  omega

theorem pairwise_placeFrom (start line : Nat) (pieces : List Piece) :
    (placeFrom start line pieces).Pairwise fun left right =>
      left.stop ≤ right.start ∧ left.line ≤ right.line := by
  induction pieces generalizing start line with
  | nil => exact .nil
  | cons piece rest ih =>
      rw [placeFrom_cons]
      exact .cons (fun _ later => le_of_mem_placeFrom later) (ih _ _)

theorem pairwise_spans {Item : Type} (shown : Placed → Option Item) (text : List Char) :
    ((placedPieces text).filterMap (Placed.spanned? shown)).Pairwise fun left right =>
      left.stop ≤ right.start := by
  rw [List.pairwise_filterMap]
  refine (pairwise_placeFrom 0 1 (pieces text)).imp ?_
  intro left right ordered leftFound leftSpanned rightFound rightSpanned
  obtain ⟨_, _, rfl⟩ := Option.map_eq_some_iff.mp leftSpanned
  obtain ⟨_, _, rfl⟩ := Option.map_eq_some_iff.mp rightSpanned
  exact ordered.1

end Lox
