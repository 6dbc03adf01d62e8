import Lox.Proofs.OpenString
import Lox.Proofs.PieceJoin

/-!
# Line breaks

Outside of strings a line feed ends whatever stands before it, so a source may be cut there and its
parts lexed apart. Only the line numbers of the second part have to be moved.
-/

set_option autoImplicit false

namespace Lox

/-! ## Pieces at the end of a line -/

theorem Piece.WellFormed.exists_comment {piece : Piece} (formed : piece.WellFormed)
    (comment : piece.kind = .comment) :
    ∃ body, '\n' ∉ body ∧ piece = ⟨.comment, '/' :: '/' :: body⟩ := by
  cases formed with
  | lexeme lexeme =>
      subst comment
      cases lexeme with
      | comment inside => exact ⟨_, inside, rfl⟩
  | stray | openString => cases comment

theorem Piece.WellFormed.count_of_comment {piece : Piece} (formed : piece.WellFormed)
    (comment : piece.kind = .comment) : piece.text.count '\n' = 0 := by
  obtain ⟨body, inside, rfl⟩ := formed.exists_comment comment
  simpa [List.count_eq_zero] using inside

theorem Piece.endsBefore_lineFeed {piece : Piece} (closed : piece.kind ≠ .openString)
    (rest : List Char) : piece.EndsBefore ('\n' :: rest) := by
  by_cases comment : piece.kind = .comment
  · rw [EndsBefore, comment]
    exact (startsOutside_cons _ _ _).mpr (by decide)
  · exact endsBefore_of_separator (.inl (by decide)) rest comment closed

theorem pieces_append_lineFeed {text : List Char} (closed : endsInString text = false)
    (after : List Char) :
    pieces (text ++ '\n' :: after) = pieces text ++ pieces ('\n' :: after) := by
  refine pieces_append ((startsOutside_cons _ _ _).mpr (by decide)) ?_
  intro last isLast
  exact Piece.endsBefore_lineFeed (kind_ne_openString closed (List.mem_of_getLast? isLast)) after

/-! ## Lexing across a line break -/

section Break

variable {before : List Char} (closed : endsInString before = false) (after : List Char)

include closed

private theorem placeFrom_break (start line : Nat) :
    placeFrom start line (pieces (before ++ '\n' :: after)) =
      placeFrom start line (pieces before) ++
        ⟨⟨.space, ['\n']⟩, start + before.length, line + lineCount before⟩ ::
          placeFrom (start + before.length + 1) (line + lineCount before) (pieces after) := by
  have feed : Piece.first '\n' after = (⟨.space, ['\n']⟩, after) := rfl
  have lines : line + before.count '\n' + 1 = line + lineCount before := by
    rw [lineCount, Nat.add_assoc, Nat.add_comm 1]
  rw [pieces_append_lineFeed closed, pieces_cons, feed, placeFrom_append,
    flatMap_text_pieces, placeFrom_cons]
  simp only [List.count_singleton_self, List.length_singleton, lines]

end Break

section LexBreak

variable {before : String} (closed : (lex before).leavesOpen = false) (after : String)

include closed

theorem tokens_append_lineFeed :
    (lex (before ++ "\n" ++ after)).tokens = (lex before).tokens.dropLast ++
      (lex after).tokens.map (Token.advance (lineCount before.toList)) := by
  rw [leavesOpen_lex] at closed
  have shape : (before ++ "\n" ++ after).toList = before.toList ++ '\n' :: after.toList := by
    simp
  have lines : 1 + (before.toList ++ '\n' :: after.toList).count '\n' =
      1 + lineCount before.toList + after.toList.count '\n' := by
    rw [List.count_append, List.count_cons_self, lineCount]
    omega
  simp only [lex_eq, shape]
  rw [← tokensFrom_advance after.toList 0 (before.toList.length + 1), dropLast_tokensFrom,
    tokensFrom, placeFrom_break closed, tokensFrom, List.filterMap_append, lines,
    List.append_assoc, Nat.zero_add]
  rfl

theorem errors_append_lineFeed :
    (lex (before ++ "\n" ++ after)).errors = (lex before).errors ++
      (lex after).errors.map (LexicalError.advance (lineCount before.toList)) := by
  rw [leavesOpen_lex] at closed
  have shape : (before ++ "\n" ++ after).toList = before.toList ++ '\n' :: after.toList := by
    simp
  simp only [lex_eq, shape]
  rw [← errorsFrom_advance after.toList 0 (before.toList.length + 1), errorsFrom,
    placeFrom_break closed, List.filterMap_append, Nat.zero_add]
  rfl

end LexBreak

/-- A source that leaves no string open may be lexed apart from the lines after it. The tokens and
errors of those lines are moved down by the lines before them and are otherwise the same. -/
theorem lex_append_lineFeed (before after : String) (closed : (lex before).leavesOpen = false) :
    (lex (before ++ "\n" ++ after)).tokens = (lex before).tokens.dropLast ++
        (lex after).tokens.map (Token.advance (lineCount before.toList)) ∧
      (lex (before ++ "\n" ++ after)).errors = (lex before).errors ++
        (lex after).errors.map (LexicalError.advance (lineCount before.toList)) :=
  ⟨tokens_append_lineFeed closed after, errors_append_lineFeed closed after⟩

/-- The point at the end of the first line does not reach the digit behind the break. -/
theorem lex_break_after_point :
    (lex "@ 1.").leavesOpen = false ∧
      (lex ("@ 1." ++ "\n" ++ "5 \"open")).tokens = (lex "@ 1.").tokens.dropLast ++
        (lex "5 \"open").tokens.map (Token.advance (lineCount "@ 1.".toList)) ∧
      (lex ("@ 1." ++ "\n" ++ "5 \"open")).errors = (lex "@ 1.").errors ++
        (lex "5 \"open").errors.map (LexicalError.advance (lineCount "@ 1.".toList)) := by
  have closed : (lex "@ 1.").leavesOpen = false := by decide +kernel
  exact ⟨closed, lex_append_lineFeed "@ 1." "5 \"open" closed⟩

end Lox
