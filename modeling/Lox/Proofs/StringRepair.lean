import Lox.Proofs.QuoteModes
import Lox.Proofs.Tiling

/-!
# Repairing an open string

What the quote that opens a string contributes when nothing closes it, and what a quote at the very
end of the source makes of it.
-/

set_option autoImplicit false

namespace Lox

section Opening

variable {before : List Char} (opens : (Mode.after before).Opens)

include opens

private theorem pieces_append_quote (rest : List Char) :
    pieces (before ++ '"' :: rest) = pieces before ++ pieces ('"' :: rest) := by
  refine pieces_append ((startsOutside_cons _ _ _).mpr (by decide)) ?_
  intro last isLast
  rw [Mode.after_eq_of_getLast? isLast] at opens
  refine Piece.endsBefore_of_separator (.inr rfl) rest ?_ ?_
  · intro comment
    rw [comment] at opens
    exact absurd opens (by decide)
  · intro isOpen
    rw [isOpen] at opens
    exact absurd opens (by decide)

private theorem placedPieces_append_quote {rest : List Char} {kind : PieceKind}
    (single : pieces ('"' :: rest) = [⟨kind, '"' :: rest⟩]) :
    placedPieces (before ++ '"' :: rest) = placedPieces before ++
      [⟨⟨kind, '"' :: rest⟩, before.length, lineCount (before ++ '"' :: rest)⟩] := by
  rw [placedPieces, pieces_append_quote opens, single, placeFrom_append, flatMap_text_pieces,
    placeFrom_cons, placeFrom_nil, Nat.zero_add, Nat.add_assoc, ← List.count_append]
  rfl

end Opening

private theorem no_unterminated_before {before : List Char}
    (opens : (Mode.after before).Opens) :
    ∀ error ∈ (placedPieces before).filterMap Placed.error?, error.isUnterminated = false := by
  have closed : endsInString before = false := by
    cases ends : endsInString before with
    | false => rfl
    | true =>
        rw [(Mode.after_eq_string_iff before).mpr ends] at opens
        exact absurd opens (by decide)
  have none := any_errorsFrom_isUnterminated before 0 1
  rw [closed] at none
  exact fun error member => by simpa using List.any_eq_false.mp none error member

/-- The quote between two parts of a source opens a string there that nothing closes. -/
structure OpensString (source : String) (before body : List Char) : Prop where
  split : source.toList = before ++ '"' :: body
  opens : (Mode.after before).Opens
  inside : '"' ∉ body

/-- Without a closing quote the string is the last error. With one it is the last token but the end
of the source. -/
structure ClosedByQuote (source : String) (body : List Char) (tokens : List Token)
    (errors : List LexicalError) (token : Token) : Prop where
  unclosed : lex source =
    ⟨tokens ++ [Token.endOfSource (lineCount source.toList)],
      errors ++ [.unterminatedString (String.ofList ('"' :: body)) (lineCount source.toList)]⟩
  closed : lex (source ++ "\"") =
    ⟨tokens ++ [token, Token.endOfSource (lineCount source.toList)], errors⟩
  others : ∀ error ∈ errors, error.isUnterminated = false
  kind : token.kind = .string
  lexeme : token.lexeme = String.ofList ('"' :: body) ++ "\""
  literal : token.literal = some (.string (String.ofList body))
  line : token.line = lineCount source.toList

theorem OpensString.closedByQuote {source : String} {before body : List Char}
    (opened : OpensString source before body) :
    ClosedByQuote source body ((placedPieces before).filterMap Placed.token?)
      ((placedPieces before).filterMap Placed.error?)
      ⟨.string, String.ofList ('"' :: (body ++ ['"'])), lineCount source.toList⟩ := by
  obtain ⟨split, opens, inside⟩ := opened
  have closing : (source ++ "\"").toList = before ++ '"' :: (body ++ ['"']) := by
    rw [String.toList_append, split]
    simp
  have lines : lineCount (before ++ '"' :: (body ++ ['"'])) = lineCount source.toList := by
    rw [split]
    simp [lineCount]
  have unclosedFormed : Piece.WellFormed ⟨.openString, '"' :: body⟩ := .openString inside
  have closedFormed : Piece.WellFormed ⟨.token .string, '"' :: (body ++ ['"'])⟩ :=
    .lexeme (.string inside)
  constructor
  case unclosed =>
    rw [lex, split, placedPieces_append_quote opens unclosedFormed.pieces_text]
    simp [Placed.token?, Placed.error?]
  case closed =>
    rw [lex, closing, placedPieces_append_quote opens closedFormed.pieces_text, lines]
    simp [Placed.token?, Placed.error?]
  case others => exact no_unterminated_before opens
  case kind => rfl
  case lexeme =>
    change String.ofList (('"' :: body) ++ ['"']) = _
    rw [String.ofList_append]
  case literal => simp [Token.literal]
  case line => rfl

/-- A source leaves a string open exactly if it ends in the mode of strings. Then the quote that
opened it begins the last error, the only one of its kind, and a quote put behind the source turns
this error into a token and changes nothing else. -/
theorem leavesOpen_iff_and_repair (source : String) :
    ((lex source).leavesOpen = true ↔ Mode.after source.toList = .string) ∧
      (Mode.after source.toList = .string →
        ∃ before body tokens errors token,
          OpensString source before body ∧ ClosedByQuote source body tokens errors token) := by
  constructor
  · rw [leavesOpen_lex, Mode.after_eq_string_iff]
  · intro inString
    obtain ⟨before, body, split, opens, inside⟩ := Mode.exists_opening inString
    have opened : OpensString source before body := ⟨split, opens, inside⟩
    exact ⟨before, body, _, _, _, opened, opened.closedByQuote⟩

/-- A quote in a comment opens nothing, and slashes and line feeds behind the last quote are text. -/
theorem repair_behind_comment :
    Mode.after "// \"\n\"/\" / @\"a//\nb".toList = .string ∧
      ∃ before body tokens errors token,
        OpensString "// \"\n\"/\" / @\"a//\nb" before body ∧
          ClosedByQuote "// \"\n\"/\" / @\"a//\nb" body tokens errors token := by
  have inString : Mode.after "// \"\n\"/\" / @\"a//\nb".toList = .string := by decide
  exact ⟨inString, (leavesOpen_iff_and_repair _).2 inString⟩

end Lox
