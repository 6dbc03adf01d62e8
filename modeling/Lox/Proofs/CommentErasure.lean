import Lox.Proofs.LineBreak
import Lox.Proofs.Tiling
import Lox.Proofs.TokenText

/-!
# Erasing comments

A comment at the end of a line may be taken away without a trace. Only a slash in front of it must
be ruled out, which would pair up with the first slash of the comment.
-/

set_option autoImplicit false

namespace Lox

/-! ## Comments among pieces -/

def uncommented (text : List Char) : List Piece :=
  (pieces text).filter (·.kind != .comment)

theorem endsInString_eq_any_uncommented (text : List Char) :
    endsInString text = (uncommented text).any (·.kind == .openString) := by
  rw [endsInString, uncommented, List.any_filter]
  apply congrArg fun test => (pieces text).any test
  funext piece
  cases piece.kind <;> rfl

private theorem count_filter_uncommented {tiles : List Piece} (tiling : Tiling tiles) :
    ((tiles.filter (·.kind != .comment)).flatMap Piece.text).count '\n' =
      (tiles.flatMap Piece.text).count '\n' := by
  induction tiling with
  | nil => rfl
  | @cons piece rest formed _ _ ih =>
      by_cases comment : piece.kind = .comment
      · rw [List.filter_cons_of_neg (by simp [comment]), List.flatMap_cons, List.count_append,
          formed.count_of_comment comment, ih, Nat.zero_add]
      · rw [List.filter_cons_of_pos (by simp [comment]), List.flatMap_cons, List.flatMap_cons,
          List.count_append, List.count_append, ih]

/-- Comments show nothing and have no line feed, and offsets are not shown either. -/
private theorem filterMap_placeFrom_uncommented {Item : Type} {shown : Placed → Option Item}
    (silent : ∀ text start line, shown ⟨⟨.comment, text⟩, start, line⟩ = none)
    (unplaced : ∀ piece start otherStart line,
      shown ⟨piece, start, line⟩ = shown ⟨piece, otherStart, line⟩)
    {tiles : List Piece} (tiling : Tiling tiles) (start otherStart line : Nat) :
    (placeFrom start line tiles).filterMap shown =
      (placeFrom otherStart line (tiles.filter (·.kind != .comment))).filterMap shown := by
  induction tiling generalizing start otherStart line with
  | nil => rfl
  | @cons piece rest formed _ _ ih =>
      rw [placeFrom_cons]
      by_cases comment : piece.kind = .comment
      · have hidden : shown ⟨piece, start, line + piece.text.count '\n'⟩ = none := by
          obtain ⟨kind, text⟩ := piece
          subst comment
          exact silent _ _ _
        rw [List.filterMap_cons_none hidden, List.filter_cons_of_neg (by simp [comment]),
          formed.count_of_comment comment]
        exact ih _ _ _
      · rw [List.filter_cons_of_pos (by simp [comment]), placeFrom_cons, List.filterMap_cons,
          List.filterMap_cons, unplaced piece start otherStart,
          ih _ (otherStart + piece.text.length)]

theorem lex_eq_of_uncommented_eq {left right : String}
    (same : uncommented left.toList = uncommented right.toList) : lex left = lex right := by
  have shows : ∀ {Item : Type} {shown : Placed → Option Item},
      (∀ text start line, shown ⟨⟨.comment, text⟩, start, line⟩ = none) →
      (∀ piece start otherStart line,
        shown ⟨piece, start, line⟩ = shown ⟨piece, otherStart, line⟩) →
      (placedPieces left.toList).filterMap shown =
        (placedPieces right.toList).filterMap shown := by
    intro Item shown silent unplaced
    have leftShown := filterMap_placeFrom_uncommented silent unplaced
      (tiling_pieces left.toList) 0 0 1
    have rightShown := filterMap_placeFrom_uncommented silent unplaced
      (tiling_pieces right.toList) 0 0 1
    rw [placedPieces, placedPieces, leftShown, rightShown]
    exact congrArg (fun tiles => (placeFrom 0 1 tiles).filterMap shown) same
  have lines : lineCount left.toList = lineCount right.toList := by
    have leftCount := count_filter_uncommented (tiling_pieces left.toList)
    have rightCount := count_filter_uncommented (tiling_pieces right.toList)
    rw [flatMap_text_pieces] at leftCount rightCount
    rw [lineCount, lineCount, ← leftCount, ← rightCount, ← uncommented, ← uncommented, same]
  rw [lex, lex, lines, shows (fun _ _ _ => rfl) (fun _ _ _ _ => rfl),
    shows (fun _ _ _ => rfl) (fun _ _ _ _ => rfl)]

/-! ## A comment behind a text -/

/-- Slashes end every piece but a slash, a comment, which takes them, and an open string. -/
private theorem Piece.endsBefore_slash {piece : Piece} (formed : piece.WellFormed)
    (notSlash : piece.text ≠ ['/']) (notComment : piece.kind ≠ .comment)
    (notOpen : piece.kind ≠ .openString) (rest : List Char) : piece.EndsBefore ('/' :: rest) := by
  obtain ⟨kind, text⟩ := piece
  cases kind with
  | openString => exact absurd rfl notOpen
  | comment => exact absurd rfl notComment
  | space | stray => exact trivial
  | token kind =>
      cases kind
      case slash =>
        have spelled : (['/'], TokenKind.slash) ∈ spellings := by decide
        have token := TokenText.text_eq_iff_kind_eq ⟨.slash, text, formed.lexeme_of_token rfl⟩ spelled
        exact absurd (token.mpr rfl) notSlash
      case number => exact ⟨(startsOutside_cons _ _ _).mpr (by decide), .inr rfl⟩
      case bang | equal | less | greater | keyword | identifier =>
        exact (startsOutside_cons _ _ _).mpr (by decide)
      all_goals exact trivial

theorem uncommented_append_lines {before after : List Char}
    (closed : endsInString before = false) (behind : StartsOutside (· != '\n') after) :
    uncommented (before ++ after) = uncommented before ++ uncommented after := by
  rw [uncommented, uncommented, uncommented, ← List.filter_append]
  apply congrArg
  cases after with
  | nil => rw [List.append_nil, pieces_nil, List.append_nil]
  | cons next rest =>
      have feed : next = '\n' := by simpa using (startsOutside_cons _ _ _).mp behind
      subst feed
      exact pieces_append_lineFeed closed rest

section Behind

variable {before comment : List Char} (inside : '\n' ∉ comment)

include inside

/-- Behind another comment a comment is a part of it. -/
private theorem uncommented_behind_comment {left : List Piece} {last : Piece}
    (split : pieces before = left ++ [last]) (commented : last.kind = .comment) :
    uncommented (before ++ '/' :: '/' :: comment) = uncommented before := by
  have tiling := tiling_pieces before
  have tiled := flatMap_text_pieces before
  rw [split] at tiling tiled
  obtain ⟨body, bodyInside, rfl⟩ := tiling.boundary.1.exists_comment commented
  have longer : '\n' ∉ body ++ '/' :: '/' :: comment := by simp [bodyInside, inside]
  have extended := tiling.replace rfl rfl (by decide) (.lexeme (.comment longer))
    (startsOutside_nil _)
  have pieces_eq := extended.pieces_eq
  have shape : before ++ '/' :: '/' :: comment =
      left.flatMap Piece.text ++ '/' :: '/' :: (body ++ '/' :: '/' :: comment) := by
    rw [← tiled]
    simp
  rw [List.flatMap_append, List.flatMap_singleton, ← shape] at pieces_eq
  rw [uncommented, pieces_eq, uncommented, split, List.filter_append, List.filter_append]
  rfl

private theorem uncommented_behind_code (closed : endsInString before = false)
    (notSlash : before.getLast? ≠ some '/')
    (code : ∀ last ∈ (pieces before).getLast?, last.kind ≠ .comment) :
    uncommented (before ++ '/' :: '/' :: comment) = uncommented before := by
  have formed : Piece.WellFormed ⟨.comment, '/' :: '/' :: comment⟩ := .lexeme (.comment inside)
  have ends : ∀ last ∈ (pieces before).getLast?, last.EndsBefore ('/' :: '/' :: comment) := by
    intro last isLast
    obtain ⟨left, split⟩ := List.getLast?_eq_some_iff.mp isLast
    have tiling := tiling_pieces before
    have tiled := flatMap_text_pieces before
    rw [split] at tiling tiled
    apply Piece.endsBefore_slash tiling.boundary.1 _ (code last isLast)
      (kind_ne_openString closed (List.mem_of_getLast? isLast))
    intro slash
    rw [← tiled] at notSlash
    simp [slash] at notSlash
  have pointless : StartsOutside isDigit ('/' :: '/' :: comment) :=
    (startsOutside_cons _ _ _).mpr (by decide)
  rw [uncommented, pieces_append pointless ends, formed.pieces_text, List.filter_append, uncommented]
  exact List.append_nil _

theorem uncommented_append_comment (closed : endsInString before = false)
    (notSlash : before.getLast? ≠ some '/') :
    uncommented (before ++ '/' :: '/' :: comment) = uncommented before := by
  by_cases commented : ∃ last ∈ (pieces before).getLast?, last.kind = .comment
  · obtain ⟨last, isLast, comment⟩ := commented
    obtain ⟨left, split⟩ := List.getLast?_eq_some_iff.mp isLast
    exact uncommented_behind_comment inside split comment
  · apply uncommented_behind_code inside closed notSlash
    intro last isLast comment
    exact commented ⟨last, isLast, comment⟩

end Behind

/-- A comment up to the end of a line, or of the source, leaves no trace in the tokens and errors.
What is in front of it may itself end in a comment, but not in a string or a slash. -/
theorem lex_erase_comment {before comment after : String}
    (notSlash : before.toList.getLast? ≠ some '/') (closed : (lex before).leavesOpen = false)
    (inside : '\n' ∉ comment.toList) (behind : after = "" ∨ ∃ rest, after = "\n" ++ rest) :
    lex (before ++ "//" ++ comment ++ after) = lex (before ++ after) := by
  rw [leavesOpen_lex] at closed
  have lineEnd : StartsOutside (· != '\n') after.toList := by
    rcases behind with rfl | ⟨rest, rfl⟩
    · exact startsOutside_nil _
    · rw [String.toList_append]
      exact (startsOutside_cons _ _ _).mpr (by decide)
  -- Up to the break the two texts are the same but for comments, and what is behind it sees no more.
  have erased := uncommented_append_comment inside closed notSlash
  have commentedClosed : endsInString (before.toList ++ '/' :: '/' :: comment.toList) = false := by
    rw [endsInString_eq_any_uncommented, erased, ← endsInString_eq_any_uncommented, closed]
  have shape : (before ++ "//" ++ comment ++ after).toList =
      before.toList ++ '/' :: '/' :: comment.toList ++ after.toList := by simp
  apply lex_eq_of_uncommented_eq
  rw [shape, uncommented_append_lines commentedClosed lineEnd, erased, String.toList_append,
    uncommented_append_lines closed lineEnd]

/-- The comment in front takes in the second one, quotes in comments open nothing, and the number
behind the break is read on its own. -/
theorem lex_erase_comment_behind_comment :
    "1. // \"".toList.getLast? ≠ some '/' ∧ (lex "1. // \"").leavesOpen = false ∧
      '\n' ∉ "é \"//".toList ∧ ("\n5" = "" ∨ ∃ rest, "\n5" = "\n" ++ rest) ∧
      lex ("1. // \"" ++ "//" ++ "é \"//" ++ "\n5") = lex ("1. // \"" ++ "\n5") := by
  have notSlash : "1. // \"".toList.getLast? ≠ some '/' := by decide
  have closed : (lex "1. // \"").leavesOpen = false := by decide +kernel
  have inside : '\n' ∉ "é \"//".toList := by decide
  have behind : "\n5" = "" ∨ ∃ rest, "\n5" = "\n" ++ rest := .inr ⟨"5", rfl⟩
  exact ⟨notSlash, closed, inside, behind, lex_erase_comment notSlash closed inside behind⟩

end Lox
