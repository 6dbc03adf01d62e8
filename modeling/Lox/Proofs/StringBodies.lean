import Lox.Proofs.Spans
import Mathlib.Data.List.Forall2

/-!
# String bodies

What stands between the quotes of a string means nothing to what stands around it. Another body
leaves all that is in front of the string as it was, and behind the string it changes the line
numbers alone, by as many line feeds as it has more or fewer.
-/

set_option autoImplicit false

namespace Lox

/-! ## Moved tokens and errors -/

/-- The same token some lines further down, or up if the number is negative. -/
structure Token.Moved (lines : Int) (token moved : Token) : Prop where
  kind : moved.kind = token.kind
  lexeme : moved.lexeme = token.lexeme
  literal : moved.literal = token.literal
  line : (moved.line : Int) = token.line + lines

inductive LexicalError.Moved (lines : Int) : LexicalError → LexicalError → Prop where
  | unexpectedCharacter {character : Char} {line moved : Nat} :
      (moved : Int) = line + lines →
      Moved lines (.unexpectedCharacter character line) (.unexpectedCharacter character moved)
  | unterminatedString {text : String} {line moved : Nat} :
      (moved : Int) = line + lines →
      Moved lines (.unterminatedString text line) (.unterminatedString text moved)

section Moved

variable {lines : Int} {line movedLine : Nat} (moved : (movedLine : Int) = line + lines)

include moved

private theorem Token.moved_of_line (kind : TokenKind) (lexeme : String) :
    Token.Moved lines ⟨kind, lexeme, line⟩ ⟨kind, lexeme, movedLine⟩ where
  kind := rfl
  lexeme := rfl
  literal := rfl
  line := moved

private theorem token?_moved (piece : Piece) (start movedStart : Nat) :
    Option.Rel (Token.Moved lines) (Placed.token? ⟨piece, start, line⟩)
      (Placed.token? ⟨piece, movedStart, movedLine⟩) := by
  obtain ⟨kind, text⟩ := piece
  cases kind with
  | token kind => exact .some (Token.moved_of_line moved kind _)
  | space | comment | stray | openString => exact .none

private theorem error?_moved (piece : Piece) (start movedStart : Nat) :
    Option.Rel (LexicalError.Moved lines) (Placed.error? ⟨piece, start, line⟩)
      (Placed.error? ⟨piece, movedStart, movedLine⟩) := by
  obtain ⟨kind, text⟩ := piece
  cases kind with
  | token | space | comment => exact .none
  | stray =>
      cases text with
      | nil => exact .none
      | cons c rest => exact .some (.unexpectedCharacter moved)
  | openString => exact .some (.unterminatedString moved)

/-- Pieces that are placed some lines further down show the same, moved by these lines. -/
private theorem forall₂_filterMap_placeFrom {Item : Type} {shown : Placed → Option Item}
    {Moved : Item → Item → Prop}
    (moves : ∀ {line movedLine : Nat}, (movedLine : Int) = line + lines →
      ∀ piece start movedStart,
        Option.Rel Moved (shown ⟨piece, start, line⟩) (shown ⟨piece, movedStart, movedLine⟩))
    (tiles : List Piece) (start movedStart : Nat) :
    List.Forall₂ Moved ((placeFrom start line tiles).filterMap shown)
      ((placeFrom movedStart movedLine tiles).filterMap shown) := by
  induction tiles generalizing start movedStart line movedLine with
  | nil => exact .nil
  | cons piece rest ih =>
      have movedBehind : ((movedLine + piece.text.count '\n' : Nat) : Int) =
          (line + piece.text.count '\n' : Nat) + lines := by omega
      have head := moves movedBehind piece start movedStart
      have tail := ih movedBehind (start + piece.text.length) (movedStart + piece.text.length)
      rw [placeFrom_cons, placeFrom_cons, List.filterMap_cons, List.filterMap_cons]
      generalize shown ⟨piece, start, line + piece.text.count '\n'⟩ = first at head ⊢
      generalize shown ⟨piece, movedStart, movedLine + piece.text.count '\n'⟩ = second at head ⊢
      cases head with
      | none => exact tail
      | some related => exact .cons related tail

end Moved

/-! ## Another body -/

def Token.body (token : Token) : List Char :=
  token.lexeme.toList.tail.dropLast

def Token.linesGained (token : Token) (body : String) : Int :=
  body.toList.count '\n' - token.body.count '\n'

/-- The string that a token becomes with another body, on the line of its new end. -/
structure Token.TakesBody (token : Token) (body : String) (taken : Token) : Prop where
  kind : taken.kind = .string
  lexeme : taken.lexeme = "\"" ++ body ++ "\""
  literal : taken.literal = some (.string body)
  line : (taken.line : Int) = token.line + token.linesGained body

def replaceBody (source : String) (string : Spanned Token) (body : String) : String :=
  String.ofList (source.toList.take (string.start + 1) ++ body.toList ++
    source.toList.drop (string.stop - 1))

/-- What another body of a string changes in the lexing of a source: the string itself, and the
lines of what stands behind it. The tokens before and after the string are given. -/
structure BodyReplaced (source : String) (before : List (Spanned Token)) (string : Spanned Token)
    (after : List (Spanned Token)) (body : String) (replaced : Lexing) : Prop where
  tokens : ∃ taken moved,
    replaced.tokens = before.map Spanned.item ++ taken :: moved ∧
      string.item.TakesBody body taken ∧
      List.Forall₂ (Token.Moved (string.item.linesGained body))
        (after.map Spanned.item ++ [Token.endOfSource (lineCount source.toList)]) moved
  errors : ∃ earlier later moved,
    spannedErrors source = earlier ++ later ∧
      (∀ found ∈ earlier, found.stop ≤ string.start) ∧
      (∀ found ∈ later, string.stop ≤ found.start) ∧
      replaced.errors = earlier.map Spanned.item ++ moved ∧
      List.Forall₂ (LexicalError.Moved (string.item.linesGained body))
        (later.map Spanned.item) moved

structure StringAt (source : String) (left : List Placed) (string : Spanned Token)
    (body : List Char) (right : List Placed) : Prop where
  placed : placedPieces source.toList = left ++
    ⟨⟨.token .string, '"' :: (body ++ ['"'])⟩, string.start, string.item.line⟩ :: right
  item : string.item = ⟨.string, String.ofList ('"' :: (body ++ ['"'])), string.item.line⟩
  stop : string.stop = string.start + (body.length + 2)

private theorem exists_stringAt {source : String} {before after : List (Spanned Token)}
    {string : Spanned Token} (split : spannedTokens source = before ++ string :: after)
    (isString : string.item.kind = .string) :
    ∃ left body right, StringAt source left string body right ∧
      left.filterMap (Placed.spanned? Placed.token?) = before ∧
      right.filterMap (Placed.spanned? Placed.token?) = after := by
  obtain ⟨left, rest, halves, rfl, shown⟩ := List.filterMap_eq_append_iff.mp split
  obtain ⟨silent, ⟨piece, start, line⟩, right, rfl, silentShown, foundShown, rfl⟩ :=
    List.filterMap_eq_cons_iff.mp shown
  obtain ⟨token, isToken, rfl⟩ := Option.map_eq_some_iff.mp foundShown
  obtain ⟨kind, shape⟩ := Placed.token?_eq_some_iff.mp isToken
  have member : ⟨piece, start, line⟩ ∈ placedPieces source.toList := by simp [halves]
  obtain ⟨_, _, _, formed, _⟩ := exists_split_of_mem_placedPieces member
  rw [isString] at kind
  obtain ⟨body, _, text⟩ := (formed.lexeme_of_token kind).exists_body
  obtain ⟨pieceKind, pieceText⟩ := piece
  dsimp only at kind text shape isString
  subst kind text
  rw [isString] at shape
  subst shape
  refine ⟨left ++ silent, body, right, ⟨?_, rfl, ?_⟩, ?_, rfl⟩
  · rw [halves, List.append_assoc]
  · simp [Placed.stop]
  · rw [List.filterMap_append, List.filterMap_eq_nil_iff.mpr silentShown, List.append_nil]

namespace StringAt

variable {source : String} {left right : List Placed} {string : Spanned Token} {old : List Char}

theorem cut (stringAt : StringAt source left string old right) :
    pieces source.toList = left.map Placed.piece ++
        ⟨.token .string, '"' :: (old ++ ['"'])⟩ :: right.map Placed.piece ∧
      placeFrom 0 1 (left.map Placed.piece) = left ∧
      string.start = ((left.map Placed.piece).flatMap Piece.text).length ∧
      string.item.line =
        1 + ((left.map Placed.piece).flatMap Piece.text).count '\n' + old.count '\n' ∧
      placeFrom string.stop string.item.line (right.map Placed.piece) = right := by
  obtain ⟨shape, front, start, line, back⟩ := cut_of_placeFrom_eq stringAt.placed
  refine ⟨shape, front, ?_, ?_, ?_⟩
  · simpa using start
  · simpa [Nat.add_assoc] using line
  · simpa [Placed.stop, stringAt.stop] using back

theorem body_eq (stringAt : StringAt source left string old right) : string.item.body = old := by
  rw [stringAt.item]
  simp [Token.body]

theorem toList_eq (stringAt : StringAt source left string old right) :
    source.toList = (left.map Placed.piece).flatMap Piece.text ++
      '"' :: (old ++ '"' :: (right.map Placed.piece).flatMap Piece.text) := by
  have tiled := flatMap_text_pieces source.toList
  rw [stringAt.cut.1] at tiled
  rw [← tiled]
  simp

theorem toList_replaceBody (stringAt : StringAt source left string old right) (body : String) :
    (replaceBody source string body).toList = (left.map Placed.piece).flatMap Piece.text ++
      '"' :: (body.toList ++ '"' :: (right.map Placed.piece).flatMap Piece.text) := by
  obtain ⟨_, _, start, _, _⟩ := stringAt.cut
  have whole := stringAt.toList_eq
  generalize (left.map Placed.piece).flatMap Piece.text = front at *
  generalize (right.map Placed.piece).flatMap Piece.text = back at *
  have opening : source.toList.take (string.start + 1) = front ++ ['"'] := by
    have cutBehind : source.toList = (front ++ ['"']) ++ (old ++ '"' :: back) := by simp [whole]
    rw [cutBehind]
    exact List.take_left' (by simp [start])
  have closing : source.toList.drop (string.stop - 1) = '"' :: back := by
    have cutBefore : source.toList = (front ++ '"' :: old) ++ '"' :: back := by simp [whole]
    rw [cutBefore]
    exact List.drop_left' (by simp [start, stringAt.stop])
  rw [replaceBody, String.toList_ofList, opening, closing]
  simp

theorem apart (stringAt : StringAt source left string old right) :
    (∀ placed ∈ left, placed.stop ≤ string.start) ∧
      ∀ placed ∈ right, string.stop ≤ placed.start := by
  have ordered := pairwise_placeFrom 0 1 (pieces source.toList)
  rw [← placedPieces, stringAt.placed, List.pairwise_append, List.pairwise_cons] at ordered
  obtain ⟨_, ⟨behind, _⟩, before⟩ := ordered
  constructor
  · intro placed member
    exact (before placed member _ List.mem_cons_self).1
  · intro placed member
    rw [stringAt.stop]
    simpa [Placed.stop] using (behind placed member).1

theorem pieces_replaceBody (stringAt : StringAt source left string old right) {body : String}
    (inside : '"' ∉ body.toList) :
    pieces (replaceBody source string body).toList = left.map Placed.piece ++
      ⟨.token .string, '"' :: (body.toList ++ ['"'])⟩ :: right.map Placed.piece := by
  have tiling := tiling_pieces source.toList
  rw [stringAt.cut.1] at tiling
  have replaced := tiling.replace rfl rfl (by decide) (.lexeme (.string inside)) trivial
  rw [stringAt.toList_replaceBody, ← replaced.pieces_eq]
  simp

theorem placedPieces_replaceBody (stringAt : StringAt source left string old right)
    {body : String} (inside : '"' ∉ body.toList) :
    ∃ stop line, placedPieces (replaceBody source string body).toList = left ++
        ⟨⟨.token .string, '"' :: (body.toList ++ ['"'])⟩, string.start, line⟩ ::
          placeFrom stop line (right.map Placed.piece) ∧
      (line : Int) = string.item.line + string.item.linesGained body := by
  obtain ⟨_, front, start, stringLine, _⟩ := stringAt.cut
  have gained : ('"' :: (body.toList ++ ['"'])).count '\n' = body.toList.count '\n' := by simp
  refine ⟨string.start + ('"' :: (body.toList ++ ['"'])).length,
    1 + ((left.map Placed.piece).flatMap Piece.text).count '\n' + body.toList.count '\n', ?_, ?_⟩
  · rw [placedPieces, stringAt.pieces_replaceBody inside, placeFrom_append, placeFrom_cons, front,
      Nat.zero_add, ← start, gained]
  · rw [Token.linesGained, stringAt.body_eq, stringLine]
    omega

theorem lineCount_replaceBody (stringAt : StringAt source left string old right)
    (body : String) :
    (lineCount (replaceBody source string body).toList : Int) =
      lineCount source.toList + string.item.linesGained body := by
  rw [lineCount, lineCount, stringAt.toList_replaceBody, stringAt.toList_eq, Token.linesGained,
    stringAt.body_eq]
  simp
  omega

theorem tokens_replaceBody (stringAt : StringAt source left string old right) {body : String}
    (inside : '"' ∉ body.toList) :
    ∃ taken moved,
      (lex (replaceBody source string body)).tokens =
          left.filterMap Placed.token? ++ taken :: moved ∧
        string.item.TakesBody body taken ∧
        List.Forall₂ (Token.Moved (string.item.linesGained body))
          (right.filterMap Placed.token? ++ [Token.endOfSource (lineCount source.toList)])
          moved := by
  obtain ⟨_, _, _, _, back⟩ := stringAt.cut
  obtain ⟨stop, line, placed, moved⟩ := stringAt.placedPieces_replaceBody inside
  have movedTokens := forall₂_filterMap_placeFrom moved token?_moved (right.map Placed.piece)
    string.stop stop
  have last := Token.moved_of_line (stringAt.lineCount_replaceBody body) .eof ""
  rw [back] at movedTokens
  refine ⟨⟨.string, String.ofList ('"' :: (body.toList ++ ['"'])), line⟩,
    (placeFrom stop line (right.map Placed.piece)).filterMap Placed.token? ++
      [Token.endOfSource (lineCount (replaceBody source string body).toList)],
    ?_, ⟨rfl, ?_, ?_, moved⟩, List.rel_append movedTokens (.cons last .nil)⟩
  · rw [lex, placed, List.filterMap_append, List.append_assoc]
    rfl
  · apply String.toList_inj.mp
    simp
  · simp [Token.literal]

theorem errors_replaceBody (stringAt : StringAt source left string old right) {body : String}
    (inside : '"' ∉ body.toList) :
    ∃ moved,
      (lex (replaceBody source string body)).errors = left.filterMap Placed.error? ++ moved ∧
        List.Forall₂ (LexicalError.Moved (string.item.linesGained body))
          (right.filterMap Placed.error?) moved := by
  obtain ⟨_, _, _, _, back⟩ := stringAt.cut
  obtain ⟨stop, line, placed, moved⟩ := stringAt.placedPieces_replaceBody inside
  have movedErrors := forall₂_filterMap_placeFrom moved error?_moved (right.map Placed.piece)
    string.stop stop
  rw [back] at movedErrors
  refine ⟨(placeFrom stop line (right.map Placed.piece)).filterMap Placed.error?, ?_, movedErrors⟩
  rw [lex, placed]
  exact List.filterMap_append

end StringAt

/-- Another body of a string, without a quote, leaves the tokens and errors of a source as they are,
but for the string itself and for the lines from its end on. -/
theorem lex_replaceBody {source : String} {before after : List (Spanned Token)}
    {string : Spanned Token} (split : spannedTokens source = before ++ string :: after)
    (isString : string.item.kind = .string) {body : String} (inside : '"' ∉ body.toList) :
    BodyReplaced source before string after body (lex (replaceBody source string body)) := by
  obtain ⟨left, old, right, stringAt, rfl, rfl⟩ := exists_stringAt split isString
  constructor
  case tokens =>
    rw [map_item_spanned?, map_item_spanned?]
    exact stringAt.tokens_replaceBody inside
  case errors =>
    obtain ⟨moved, errors, movedErrors⟩ := stringAt.errors_replaceBody inside
    refine ⟨left.filterMap (Placed.spanned? Placed.error?),
      right.filterMap (Placed.spanned? Placed.error?), moved, ?_, ?_, ?_, ?_, ?_⟩
    · rw [spannedErrors, stringAt.placed, List.filterMap_append]
      rfl
    · intro found member
      obtain ⟨place, placeMember, _, _, stopShape⟩ := exists_placed_of_mem_spanned member
      rw [← stopShape]
      exact stringAt.apart.1 place placeMember
    · intro found member
      obtain ⟨place, placeMember, _, startShape, _⟩ := exists_placed_of_mem_spanned member
      rw [← startShape]
      exact stringAt.apart.2 place placeMember
    · rwa [map_item_spanned?]
    · rwa [map_item_spanned?]

/-- Slashes and a backslash in the body are text, and the line feed that is gone moves up all that
is behind the string. -/
theorem lex_replaceBody_of_lines :
    spannedTokens "x@\"a\nb\"é\"c\"\n\"" =
        [⟨⟨.identifier, "x", 1⟩, 0, 1⟩] ++ ⟨⟨.string, "\"a\nb\"", 2⟩, 2, 7⟩ ::
          [⟨⟨.string, "\"c\"", 2⟩, 8, 11⟩] ∧
      TokenKind.string = .string ∧ '"' ∉ "//\\".toList ∧
      BodyReplaced "x@\"a\nb\"é\"c\"\n\"" [⟨⟨.identifier, "x", 1⟩, 0, 1⟩]
        ⟨⟨.string, "\"a\nb\"", 2⟩, 2, 7⟩ [⟨⟨.string, "\"c\"", 2⟩, 8, 11⟩] "//\\"
        (lex (replaceBody "x@\"a\nb\"é\"c\"\n\"" ⟨⟨.string, "\"a\nb\"", 2⟩, 2, 7⟩ "//\\")) := by
  have split : spannedTokens "x@\"a\nb\"é\"c\"\n\"" =
      [⟨⟨.identifier, "x", 1⟩, 0, 1⟩] ++ ⟨⟨.string, "\"a\nb\"", 2⟩, 2, 7⟩ ::
        [⟨⟨.string, "\"c\"", 2⟩, 8, 11⟩] := by decide +kernel
  have inside : '"' ∉ "//\\".toList := by decide
  exact ⟨split, rfl, inside, lex_replaceBody split rfl inside⟩

end Lox
