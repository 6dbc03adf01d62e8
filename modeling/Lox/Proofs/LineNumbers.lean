import Lox.Proofs.Spans

/-!
# Line numbers

The lines of tokens and errors, told by the line feeds of the source in front of them. A token has
the line of its last character and an error that of the character at which it is noticed.
-/

set_option autoImplicit false

namespace Lox

private theorem lineCount_le_append (before after : List Char) :
    lineCount before ≤ lineCount (before ++ after) := by
  rw [lineCount, lineCount, List.count_append]
  omega

theorem lineCount_take_le (text : List Char) (stop : Nat) :
    lineCount (text.take stop) ≤ lineCount text := by
  have bound := lineCount_le_append (text.take stop) (text.drop stop)
  rwa [List.take_append_drop] at bound

theorem exact_of_mem_placedPieces {text : List Char} {placed : Placed}
    (member : placed ∈ placedPieces text) :
    placed.piece.text = (text.take placed.stop).drop placed.start ∧
      placed.line = lineCount (text.take placed.stop) := by
  obtain ⟨before, after, rfl, _, _, startShape, lineShape⟩ :=
    exists_split_of_mem_placedPieces member
  have stopShape : placed.stop = (before ++ placed.piece.text).length := by
    rw [Placed.stop, startShape, List.length_append]
  have taken : (before ++ placed.piece.text ++ after).take placed.stop =
      before ++ placed.piece.text := by
    rw [stopShape, List.take_left]
  refine ⟨?_, ?_⟩
  · rw [taken, startShape, List.drop_left]
  · rw [taken, lineShape]

/-! ## Tokens -/

private theorem shape_of_token? {placed : Placed} {token : Token}
    (shown : placed.token? = some token) :
    token.lexeme = String.ofList placed.piece.text ∧ token.line = placed.line := by
  obtain ⟨_, shape⟩ := Placed.token?_eq_some_iff.mp shown
  rw [shape]
  exact ⟨rfl, rfl⟩

theorem exact_of_mem_spannedTokens {source : String} {found : Spanned Token}
    (member : found ∈ spannedTokens source) :
    found.item.lexeme.toList = (source.toList.take found.stop).drop found.start ∧
      found.item.line = lineCount (source.toList.take found.stop) := by
  obtain ⟨placed, placedMember, shown, startShape, stopShape⟩ :=
    exists_placed_of_mem_spanned member
  obtain ⟨lexeme, line⟩ := shape_of_token? shown
  obtain ⟨covered, placedLine⟩ := exact_of_mem_placedPieces placedMember
  rw [lexeme, line, String.toList_ofList, ← startShape, ← stopShape]
  exact ⟨covered, placedLine⟩

/-! ## Errors -/

/-- What an error that begins at an offset of a text says about the text. A stray character has
the line on which it stands, and a string that is never closed the last line of all. -/
def LexicalError.ExactAt (text : List Char) (start : Nat) : LexicalError → Prop
  | .unexpectedCharacter character line =>
      text[start]? = some character ∧ line = lineCount (text.take start)
  | .unterminatedString string line =>
      string.toList = text.drop start ∧ line = lineCount text

private theorem line_of_error? {placed : Placed} {error : LexicalError}
    (shown : placed.error? = some error) : error.line = placed.line := by
  obtain ⟨⟨kind, text⟩, start, line⟩ := placed
  cases kind with
  | token kind => cases shown
  | space => cases shown
  | comment => cases shown
  | stray =>
      obtain ⟨character, _, rfl⟩ := Option.map_eq_some_iff.mp shown
      rfl
  | openString =>
      cases shown
      rfl

theorem exactAt_of_mem_spannedErrors {source : String} {found : Spanned LexicalError}
    (member : found ∈ spannedErrors source) : found.item.ExactAt source.toList found.start := by
  obtain ⟨error, errorStart, _⟩ := found
  obtain ⟨⟨piece, start, line⟩, placedMember, shown, startShape, _⟩ :=
    exists_placed_of_mem_spanned member
  obtain ⟨before, after, split, formed, ends, placedStart, placedLine⟩ :=
    exists_split_of_mem_placedPieces placedMember
  dsimp only at shown startShape split formed ends placedStart placedLine ⊢
  rw [← startShape, placedStart, split]
  cases formed with
  | lexeme lexeme => exact nomatch (lexeme.error?_eq_none _ _).symm.trans shown
  | @stray c role =>
      cases shown
      have notFeed : c ≠ '\n' := (Lead.ne_of_stray role).2
      refine ⟨by simp, ?_⟩
      simp [placedLine, lineCount, notFeed]
  | openString _ =>
      cases shown
      obtain rfl : after = [] := ends
      refine ⟨by simp, ?_⟩
      rw [placedLine, List.append_nil]

/-! ## The order of lines -/

private theorem pairwise_lines {Item : Type} {shown : Placed → Option Item} {line : Item → Nat}
    (agrees : ∀ placed item, shown placed = some item → line item = placed.line)
    (text : List Char) :
    (((placedPieces text).filterMap shown).map line).Pairwise (· ≤ ·) := by
  rw [List.pairwise_map, List.pairwise_filterMap]
  refine (pairwise_placeFrom 0 1 (pieces text)).imp ?_
  intro left right ordered leftItem leftShown rightItem rightShown
  rw [agrees left leftItem leftShown, agrees right rightItem rightShown]
  exact ordered.2

private theorem line_le_lineCount {Item : Type} {shown : Placed → Option Item} {line : Item → Nat}
    (agrees : ∀ placed item, shown placed = some item → line item = placed.line)
    {text : List Char} {item : Item} (member : item ∈ (placedPieces text).filterMap shown) :
    line item ≤ lineCount text := by
  obtain ⟨placed, placedMember, shownItem⟩ := List.mem_filterMap.mp member
  rw [agrees placed item shownItem, (exact_of_mem_placedPieces placedMember).2]
  exact lineCount_take_le text placed.stop

theorem tokens_line_le {source : String} {token : Token} (member : token ∈ (lex source).tokens) :
    token.line ≤ lineCount source.toList := by
  rcases List.mem_append.mp member with read | last
  · exact line_le_lineCount (fun _ _ shown => (shape_of_token? shown).2) read
  · rw [List.mem_singleton.mp last]
    exact Nat.le_refl _

theorem pairwise_tokens_line (source : String) :
    ((lex source).tokens.map Token.line).Pairwise (· ≤ ·) := by
  have read : (((placedPieces source.toList).filterMap Placed.token?).map Token.line).Pairwise
      (· ≤ ·) := pairwise_lines (fun _ _ shown => (shape_of_token? shown).2) _
  rw [lex, List.map_append, List.pairwise_append]
  refine ⟨read, List.pairwise_singleton _ _, ?_⟩
  intro line member last lastMember
  obtain ⟨token, tokenMember, rfl⟩ := List.mem_map.mp member
  rw [List.mem_singleton.mp lastMember]
  exact tokens_line_le (List.mem_append_left _ tokenMember)

/-- A token has the line of its end and a stray character that of its start; the end of the source
and a string that is never closed have the last line. So lines never decrease, and none lies behind
the last. -/
theorem lex_lines_exact (source : String) :
    (spannedTokens source).map Spanned.item = (lex source).tokens.dropLast ∧
      (spannedTokens source).Pairwise (fun left right => left.stop ≤ right.start) ∧
      (∀ found ∈ spannedTokens source,
        found.item.lexeme.toList = (source.toList.take found.stop).drop found.start ∧
          found.item.line = lineCount (source.toList.take found.stop)) ∧
      (lex source).tokens.getLast? = some (Token.endOfSource (lineCount source.toList)) ∧
      (spannedErrors source).map Spanned.item = (lex source).errors ∧
      (spannedErrors source).Pairwise (fun left right => left.stop ≤ right.start) ∧
      (∀ found ∈ spannedErrors source, found.item.ExactAt source.toList found.start) ∧
      ((lex source).tokens.map Token.line).Pairwise (· ≤ ·) ∧
      ((lex source).errors.map LexicalError.line).Pairwise (· ≤ ·) ∧
      (∀ token ∈ (lex source).tokens, token.line ≤ lineCount source.toList) ∧
      ∀ error ∈ (lex source).errors, error.line ≤ lineCount source.toList := by
  refine ⟨map_item_spannedTokens source, ?_, fun _ => exact_of_mem_spannedTokens, ?_,
    map_item_spannedErrors source, ?_, fun _ => exactAt_of_mem_spannedErrors,
    pairwise_tokens_line source, ?_, fun _ => tokens_line_le, ?_⟩
  · exact pairwise_spans Placed.token? source.toList
  · rw [lex, List.getLast?_concat]
  · exact pairwise_spans Placed.error? source.toList
  · exact pairwise_lines (fun _ _ => line_of_error?) source.toList
  · exact fun _ => line_le_lineCount (fun _ _ => line_of_error?)

end Lox
