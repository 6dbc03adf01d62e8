import Lox.Proofs.Layout
import Lox.Proofs.Spans

/-!
# Reading layouts back

A layout reads back as the texts that it was made of exactly if none of them is pasted to the next.
A pasted text can never be made good by what follows: the token that begins with it is longer, and
a comment takes slashes that no token then has.
-/

set_option autoImplicit false

namespace Lox

/-! ## The tokens of a text, without their places -/

def Piece.word? (piece : Piece) : Option (TokenKind × List Char) :=
  match piece.kind with
  | .token kind => some (kind, piece.text)
  | _ => none

def words (text : List Char) : List (TokenKind × List Char) :=
  (pieces text).filterMap Piece.word?

theorem Piece.word?_eq_some_iff {piece : Piece} {word : TokenKind × List Char} :
    piece.word? = some word ↔ piece = ⟨.token word.1, word.2⟩ := by
  obtain ⟨kind, text⟩ := piece
  obtain ⟨wordKind, wordText⟩ := word
  cases kind <;> simp [word?]

private theorem token?_eq_map_word? (placed : Placed) :
    placed.token? = placed.piece.word?.map fun word =>
      ⟨word.1, String.ofList word.2, placed.line⟩ := by
  obtain ⟨⟨kind, text⟩, start, line⟩ := placed
  cases kind <;> rfl

/-- What tokens show of themselves, apart from their lines, follows from kinds and texts. -/
theorem map_tokens_eq_map_words {View : Type} {view : Token → View}
    (lineless : ∀ kind lexeme line, view ⟨kind, lexeme, line⟩ = view ⟨kind, lexeme, 0⟩)
    (source : String) :
    (lex source).tokens.dropLast.map view =
      (words source.toList).map fun word => view ⟨word.1, String.ofList word.2, 0⟩ := by
  have shown : (fun placed : Placed => placed.token?.map view) =
      (fun piece : Piece => piece.word?.map fun word =>
        view ⟨word.1, String.ofList word.2, 0⟩) ∘ Placed.piece := by
    funext placed
    rw [token?_eq_map_word?, Option.map_map, Function.comp_apply]
    refine congrFun (congrArg Option.map ?_) _
    funext word
    exact lineless _ _ _
  rw [lex_eq, dropLast_tokensFrom, List.map_filterMap, shown, ← List.filterMap_map,
    map_piece_placeFrom, words, List.map_filterMap]

private theorem wellFormed_of_mem_pieces {text : List Char} {piece : Piece}
    (member : piece ∈ pieces text) : piece.WellFormed := by
  obtain ⟨before, after, split⟩ := List.append_of_mem member
  exact (boundary_of_pieces_eq split).1

private theorem error?_eq_none_iff {placed : Placed} (formed : placed.piece.WellFormed) :
    placed.error? = none ↔
      placed.piece.kind = .comment ∨ placed.piece.kind = .space ∨
        ∃ kind, placed.piece.kind = .token kind := by
  obtain ⟨piece, start, line⟩ := placed
  cases formed with
  | @lexeme kind text lexeme => cases lexeme <;> simp [Placed.error?]
  | stray => simp [Placed.error?]
  | openString => simp [Placed.error?]

theorem errors_eq_nil_iff (source : String) :
    (lex source).errors = [] ↔ ∀ piece ∈ pieces source.toList,
      piece.kind = .comment ∨ piece.kind = .space ∨ ∃ kind, piece.kind = .token kind := by
  have placed : (placedPieces source.toList).map Placed.piece = pieces source.toList :=
    map_piece_placeFrom _ _ _
  have formed : ∀ found ∈ placedPieces source.toList, found.piece.WellFormed := by
    intro found member
    have pieceMember : found.piece ∈ pieces source.toList := by
      rw [← placed]
      exact List.mem_map_of_mem member
    exact wellFormed_of_mem_pieces pieceMember
  rw [lex, List.filterMap_eq_nil_iff, ← placed, List.forall_mem_map]
  exact forall₂_congr fun found member => error?_eq_none_iff (formed found member)

/-! ## Slashes -/

private theorem count_flatMap_text (pieces : List Piece) (c : Char) :
    (pieces.flatMap Piece.text).count c =
      ((pieces.filterMap Piece.word?).map Prod.snd).flatten.count c +
        ((pieces.filter fun piece => piece.word?.isNone).flatMap Piece.text).count c := by
  induction pieces with
  | nil => rfl
  | cons piece rest ih =>
      cases shown : piece.word? with
      | none =>
          have kept : (piece :: rest).filter (·.word?.isNone) =
              piece :: rest.filter (·.word?.isNone) := List.filter_cons_of_pos (by simp [shown])
          rw [List.filterMap_cons_none shown, kept, List.flatMap_cons, List.flatMap_cons,
            List.count_append, List.count_append, ih]
          omega
      | some word =>
          have left : (piece :: rest).filter (·.word?.isNone) = rest.filter (·.word?.isNone) :=
            List.filter_cons_of_neg (by simp [shown])
          have text : piece.text = word.2 := by rw [Piece.word?_eq_some_iff.mp shown]
          rw [List.filterMap_cons_some shown, left, List.flatMap_cons, List.map_cons,
            List.flatten_cons, List.count_append, List.count_append, ih, text, Nat.add_assoc]

/-- If all slashes of a text stand in its tokens, it has no comment. -/
theorem kind_ne_comment_of_count {text : List Char}
    (counts : ((words text).map Prod.snd).flatten.count '/' = text.count '/') :
    ∀ piece ∈ pieces text, piece.kind ≠ .comment := by
  intro piece member comment
  -- The pieces that are no tokens have no slash left to them.
  have split := count_flatMap_text (pieces text) '/'
  rw [flatMap_text_pieces, ← words, counts, Nat.left_eq_add] at split
  refine List.count_eq_zero.mp split (List.mem_flatMap.mpr ⟨piece, ?_, ?_⟩)
  · refine List.mem_filter.mpr ⟨member, ?_⟩
    rw [Piece.word?, comment]
    rfl
  · cases wellFormed_of_mem_pieces member with
    | lexeme lexeme =>
        obtain rfl := comment
        cases lexeme with
        | comment => exact List.mem_cons_self
    | stray => nomatch comment
    | openString => nomatch comment

private theorem count_slash_blanks (blanks : Blanks) : blanks.text.count '/' = 0 := by
  refine List.count_eq_zero.mpr fun member => ?_
  rcases blanks.blank '/' member with same | same | same | same <;> exact absurd same (by decide)

private theorem count_slash_written (spaced : List Spaced) :
    (written spaced).count '/' = (spaced.map (·.token.text)).flatten.count '/' := by
  induction spaced with
  | nil => rfl
  | cons first rest ih =>
      rw [written_cons, List.count_append, List.count_append, count_slash_blanks, ih,
        List.map_cons, List.flatten_cons, List.count_append, Nat.zero_add]

/-! ## From tokens to layouts -/

private theorem filterMap_word?_blanks (blanks : Blanks) :
    (blanks.text.map fun c => (⟨.space, [c]⟩ : Piece)).filterMap Piece.word? = [] := by
  rw [List.filterMap_map]
  exact List.filterMap_eq_nil_iff.mpr fun _ _ => rfl

private theorem words_blanks (blanks : Blanks) (rest : List Char) :
    words (blanks.text ++ rest) = words rest := by
  rw [words, pieces_blanks, List.filterMap_append, filterMap_word?_blanks, List.nil_append, words]

private theorem first_lead_kind_ne_space (token : TokenText) {rest following : List Char}
    {piece : Piece} (taken : Piece.first token.lead rest = (piece, following)) :
    piece.kind ≠ .space := by
  intro space
  obtain ⟨formed, _, parts⟩ := Piece.first_eq_iff.mp taken
  cases formed with
  | lexeme lexeme =>
      obtain rfl := space
      cases lexeme with
      | @blank c blank =>
          have same : c = token.lead := (List.cons.inj parts).1
          have notBlank := token.isBlank_lead
          rw [← same, isBlank_iff.mpr blank] at notBlank
          cases notBlank
  | stray => nomatch space
  | openString => nomatch space

/-- Tokens and blanks alone can only read back as the texts of a layout if each text is read to its
end and no further. -/
theorem not_pasted_of_words {spaced : List Spaced}
    (plain : ∀ piece ∈ pieces (written spaced),
      piece.kind = .space ∨ ∃ kind, piece.kind = .token kind)
    (texts : (words (written spaced)).map Prod.snd = spaced.map (·.token.text)) :
    ¬ Pasted spaced := by
  induction spaced with
  | nil => nofun
  | cons first rest ih =>
      have shape : written (first :: rest) = first.token.lead ::
          (first.token.text.tail ++ (first.gap.text ++ written rest)) := by
        rw [written_cons, ← List.cons_append, ← first.token.text_eq_cons]
      cases taken : Piece.first first.token.lead
          (first.token.text.tail ++ (first.gap.text ++ written rest)) with
      | mk piece following =>
          obtain ⟨formed, ends, parts⟩ := Piece.first_eq_iff.mp taken
          rw [shape, pieces_cons, taken] at plain
          -- What is taken is a token, so its text is the first one read back: that of the layout.
          obtain ⟨kind, isToken⟩ := (plain piece List.mem_cons_self).resolve_left
            (first_lead_kind_ne_space first.token taken)
          obtain ⟨_, text⟩ := piece
          obtain rfl := isToken
          rw [shape, words, pieces_cons, taken] at texts
          obtain ⟨sameText, others⟩ := List.cons.inj texts
          obtain rfl : text = first.token.text := sameText
          obtain rfl : following = first.gap.text ++ written rest := by
            rw [← shape, written_cons] at parts
            exact List.append_cancel_left parts
          obtain rfl : kind = first.token.kind := by
            cases formed with
            | lexeme lexeme => exact PieceKind.token.inj (lexeme.kind_unique first.token.lexeme)
          have restPlain : ∀ piece ∈ pieces (written rest),
              piece.kind = .space ∨ ∃ kind, piece.kind = .token kind := by
            intro piece member
            refine plain piece (List.mem_cons_of_mem _ ?_)
            rw [pieces_blanks]
            exact List.mem_append_right _ member
          have restTexts : (words (written rest)).map Prod.snd = rest.map (·.token.text) := by
            rw [← words_blanks first.gap]
            exact others
          have apart : ¬ PastesFront first rest := (first.endsBefore_iff rest).mp ends
          intro pasted
          cases pasted with
          | front pastes => exact apart pastes
          | later pastes => exact ih restPlain restTexts pastes

/-! ## From layouts to tokens -/

section Apart

variable {spaced : List Spaced} (apart : ¬ Pasted spaced)

include apart

private theorem words_written :
    words (written spaced) = spaced.map fun next => (next.token.kind, next.token.text) := by
  have single : ∀ next : Spaced,
      next.pieces.filterMap Piece.word? = [(next.token.kind, next.token.text)] := by
    intro next
    exact congrArg (List.cons _) (filterMap_word?_blanks next.gap)
  rw [words, pieces_written apart, List.filterMap_flatMap, List.map_eq_flatMap, funext single]

private theorem texts_written :
    (words (written spaced)).map Prod.snd = spaced.map (·.token.text) := by
  rw [words_written apart, List.map_map]
  rfl

private theorem plain_written (lead : Blanks) :
    ∀ piece ∈ pieces (lead.text ++ written spaced),
      piece.kind = .space ∨ ∃ kind, piece.kind = .token kind := by
  intro piece member
  rw [pieces_blanks, pieces_written apart] at member
  rcases List.mem_append.mp member with blank | later
  · obtain ⟨_, _, rfl⟩ := List.mem_map.mp blank
    exact .inl rfl
  · obtain ⟨next, _, inside⟩ := List.mem_flatMap.mp later
    rcases List.mem_cons.mp inside with rfl | blank
    · exact .inr ⟨_, rfl⟩
    · obtain ⟨_, _, rfl⟩ := List.mem_map.mp blank
      exact .inl rfl

end Apart

/-! ## Reading back -/

def layout (lead : Blanks) (spaced : List Spaced) : String :=
  String.ofList (lead.text ++ written spaced)

def Token.contents (token : Token) : TokenKind × String × Option Literal :=
  (token.kind, token.lexeme, token.literal)

def contentsOf (source : String) : List (TokenKind × String × Option Literal) :=
  (lex source).tokens.dropLast.map Token.contents

theorem TokenText.contentsOf_eq (token : TokenText) :
    contentsOf (String.ofList token.text) =
      [Token.contents ⟨token.kind, String.ofList token.text, 0⟩] := by
  have formed : Piece.WellFormed ⟨.token token.kind, token.text⟩ := .lexeme token.lexeme
  have single : pieces token.text = [⟨.token token.kind, token.text⟩] := formed.pieces_text
  rw [contentsOf, map_tokens_eq_map_words (fun _ _ _ => rfl), String.toList_ofList, words, single]
  rfl

section ReadsBack

variable {lead : Blanks} {spaced : List Spaced}

private theorem lexemes_eq_iff (lead : Blanks) (spaced : List Spaced) :
    (lex (layout lead spaced)).tokens.dropLast.map Token.lexeme =
        spaced.map (fun next => String.ofList next.token.text) ↔
      (words (written spaced)).map Prod.snd = spaced.map (·.token.text) := by
  have injective : ∀ left right, String.ofList left = String.ofList right → left = right :=
    fun _ _ => String.ofList_inj.mp
  have lexemes : (lex (layout lead spaced)).tokens.dropLast.map Token.lexeme =
      ((words (written spaced)).map Prod.snd).map String.ofList := by
    rw [map_tokens_eq_map_words (fun _ _ _ => rfl), layout, String.toList_ofList, words_blanks,
      List.map_map]
    rfl
  have texts : spaced.map (fun next => String.ofList next.token.text) =
      (spaced.map (·.token.text)).map String.ofList := by
    rw [List.map_map]
    rfl
  rw [lexemes, texts, List.map_inj_right injective]

private theorem lexemes_of_contents
    (contents : contentsOf (layout lead spaced) =
      spaced.flatMap fun next => contentsOf (String.ofList next.token.text)) :
    (lex (layout lead spaced)).tokens.dropLast.map Token.lexeme =
      spaced.map fun next => String.ofList next.token.text := by
  have lexemes : (lex (layout lead spaced)).tokens.dropLast.map Token.lexeme =
      (contentsOf (layout lead spaced)).map fun content => content.2.1 := by
    rw [contentsOf, List.map_map]
    rfl
  rw [lexemes, contents, List.map_flatMap, List.map_eq_flatMap]
  simp only [TokenText.contentsOf_eq, List.map_singleton, Token.contents]

theorem contentsOf_layout (apart : ¬ Pasted spaced) :
    contentsOf (layout lead spaced) =
      spaced.flatMap fun next => contentsOf (String.ofList next.token.text) := by
  rw [contentsOf, map_tokens_eq_map_words (fun _ _ _ => rfl), layout, String.toList_ofList,
    words_blanks, words_written apart, List.map_map, List.map_eq_flatMap]
  refine congrArg (List.flatMap · spaced) (funext fun next => ?_)
  rw [TokenText.contentsOf_eq]
  rfl

theorem errors_layout (apart : ¬ Pasted spaced) : (lex (layout lead spaced)).errors = [] := by
  rw [errors_eq_nil_iff, layout, String.toList_ofList]
  exact fun piece member => .inr (plain_written apart lead piece member)

/-- Without errors, texts that read back have not been pasted. Comments are excluded because the
texts that read back already hold all slashes. -/
theorem not_pasted_of_texts (noErrors : (lex (layout lead spaced)).errors = [])
    (texts : (words (written spaced)).map Prod.snd = spaced.map (·.token.text)) :
    ¬ Pasted spaced := by
  have counts : ((words (written spaced)).map Prod.snd).flatten.count '/' =
      (written spaced).count '/' := by
    rw [texts, count_slash_written]
  have noComment := kind_ne_comment_of_count counts
  rw [errors_eq_nil_iff, layout, String.toList_ofList, pieces_blanks] at noErrors
  refine not_pasted_of_words (fun piece member => ?_) texts
  exact (noErrors piece (List.mem_append_right _ member)).resolve_left (noComment piece member)

end ReadsBack

/-- A layout reads back, without errors, as the texts that it was made of if and only if none of
them is pasted to what follows; and then every text has the kind and the literal that it has on its
own. -/
theorem lex_layout_iff (lead : Blanks) (spaced : List Spaced) :
    ((lex (layout lead spaced)).errors = [] ∧
        (lex (layout lead spaced)).tokens.map Token.lexeme =
          spaced.map (fun next => String.ofList next.token.text) ++ [""] ↔
      ¬ Pasted spaced) ∧
    ((lex (layout lead spaced)).errors = [] ∧
        contentsOf (layout lead spaced) =
          spaced.flatMap (fun next => contentsOf (String.ofList next.token.text)) ↔
      ¬ Pasted spaced) := by
  constructor
  · have all : (lex (layout lead spaced)).tokens.map Token.lexeme =
        (lex (layout lead spaced)).tokens.dropLast.map Token.lexeme ++ [""] := by
      rw [tokens_eq_dropLast, List.dropLast_concat, List.map_append]
      rfl
    rw [all, List.append_left_inj, lexemes_eq_iff]
    constructor
    · exact fun ⟨noErrors, texts⟩ => not_pasted_of_texts noErrors texts
    · exact fun apart => ⟨errors_layout apart, texts_written apart⟩
  · constructor
    · intro ⟨noErrors, contents⟩
      have texts := (lexemes_eq_iff lead spaced).mp (lexemes_of_contents contents)
      exact not_pasted_of_texts noErrors texts
    · exact fun apart => ⟨errors_layout apart, contentsOf_layout apart⟩

end Lox
