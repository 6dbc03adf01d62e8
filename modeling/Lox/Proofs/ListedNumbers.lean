import Lox.Proofs.LayoutLexing
import Lox.Proofs.NumberTexts

/-!
# Reading listed numbers

The text by which a number is listed is itself a source. In plain form it is read as the one number
that it shows. In scientific form it falls apart at the exponent, whose letter begins an identifier,
and infinity is an identifier throughout.
-/

set_option autoImplicit false

namespace Lox

/-- A source that is read as one number with a given value, and as nothing else. -/
def ReadsAs (source : String) (value : Binary64) : Prop :=
  ∃ number, lex source = ⟨[number, Token.endOfSource 1], []⟩ ∧
    number.kind = .number ∧ number.literal = some (.number value)

def Binary64.InPlainRange (value : Binary64) : Prop :=
  value.isFinite = true ∧
    (value.toRat = 0 ∨ (1 / 10 ^ 4 ≤ value.toRat ∧ value.toRat < 10 ^ 16))

/-! ## Plain form -/

theorem PlainForm.writes {text : List Char} {exact : ℚ} (plain : PlainForm text exact) :
    Writes text exact := by
  cases plain with
  | intro whole fraction _ _ => exact .decimal whole fraction

theorem PlainForm.lexeme {text : List Char} {exact : ℚ} (plain : PlainForm text exact) :
    Lexeme (.token .number) text := by
  cases plain with
  | intro whole fraction _ _ => exact .decimal whole.1 whole.2 fraction.1 fraction.2

theorem lex_of_number {text : List Char} (lexeme : Lexeme (.token .number) text) :
    lex (String.ofList text) =
      ⟨[⟨.number, String.ofList text, 1⟩, Token.endOfSource 1], []⟩ := by
  have alone : pieces text = [⟨.token .number, text⟩] :=
    (Piece.WellFormed.lexeme lexeme).pieces_text
  have noFeed : text.count '\n' = 0 :=
    List.count_eq_zero.mpr (lexeme.blank_not_mem (.inr (.inr (.inr rfl))) nofun)
  rw [lex, String.toList_ofList, placedPieces, alone, placeFrom_cons, lineCount, noFeed]
  rfl

theorem PlainForm.readsAs {text : List Char} {exact : ℚ} {value : Binary64}
    (plain : PlainForm text exact) (rounds : Binary64.Rounds exact value) :
    ReadsAs (String.ofList text) value := by
  refine ⟨_, lex_of_number plain.lexeme, rfl, ?_⟩
  rw [Token.literal, String.toList_ofList, plain.writes.rounds_iff.mp rounds]

/-! ## Scientific form -/

/-- Only `else` begins with the letter of an exponent, and no digit follows there. -/
theorem ofWord_exponent {digits : List Char} (all : ∀ c ∈ digits, IsDigit c) :
    TokenKind.ofWord ('e' :: digits) = .identifier := by
  apply TokenKind.ofWord_of_unreserved
  intro word reserved
  have letters : ∀ word ∈ Keyword.all, word.spelling.head? = some 'e' →
      word.spelling.tail.all isDigit = false := by
    decide
  have notDigits := letters word word.mem_all
  rw [mem_reservedWords_iff.mp reserved] at notDigits
  have onlyDigits : digits.all isDigit = true :=
    List.all_eq_true.mpr (all_isDigit all)
  exact nomatch (notDigits rfl).symm.trans onlyDigits

theorem wellFormed_exponent {digits : List Char} (all : ∀ c ∈ digits, IsDigit c) :
    Piece.WellFormed ⟨.token .identifier, 'e' :: digits⟩ := by
  have word := lexeme_ofWord (isLetter_iff.mp (by decide : isLetter 'e' = true))
    fun c member => .inr (all c member)
  rw [ofWord_exponent all] at word
  exact .lexeme word

/-- The letter of an exponent takes in its digits, but not its sign. -/
theorem ExponentForm.exists_tiling {power : List Char} {exponent : ℤ}
    (form : ExponentForm power exponent) :
    ∃ name tiles, Tiling (⟨.token .identifier, name⟩ :: tiles) ∧
      name ++ tiles.flatMap Piece.text = 'e' :: power ∧
      ∀ tile ∈ tiles, ∃ kind, tile.kind = .token kind := by
  cases form with
  | natural digits _ =>
      exact ⟨'e' :: power, [], .cons (wellFormed_exponent digits.2) (Piece.endsBefore_nil _) .nil,
        List.append_nil _, nofun⟩
  | @negative digits allDigits _ =>
      have number : Piece.WellFormed ⟨.token .number, digits⟩ :=
        .lexeme (.integer allDigits.1 allDigits.2)
      have sign : Piece.WellFormed ⟨.token .minus, ['-']⟩ := .lexeme (.mark (by decide))
      have letterEnds : Piece.EndsBefore ⟨.token .identifier, ['e']⟩ ('-' :: (digits ++ [])) :=
        (startsOutside_cons _ _ _).mpr (by decide)
      have tiling : Tiling [⟨.token .minus, ['-']⟩, ⟨.token .number, digits⟩] :=
        .cons sign trivial (.cons number (Piece.endsBefore_nil _) .nil)
      refine ⟨['e'], [⟨.token .minus, ['-']⟩, ⟨.token .number, digits⟩],
        .cons (wellFormed_exponent nofun) letterEnds tiling, ?_, ?_⟩
      · simp
      · simp

theorem ScientificForm.exists_mantissa {text : List Char} {exact : ℚ}
    (form : ScientificForm text exact) :
    ∃ mantissa power exponent, text = mantissa ++ 'e' :: power ∧
      Lexeme (.token .number) mantissa ∧ ExponentForm power exponent := by
  cases form with
  | @digit first power _ digit _ exponentForm =>
      refine ⟨[first], power, _, rfl, .integer (List.cons_ne_nil _ _) ?_, exponentForm⟩
      exact fun c member => List.mem_singleton.mp member ▸ digit
  | @fraction first fraction power _ digit _ digits _ exponentForm =>
      refine ⟨[first] ++ '.' :: fraction, power, _, by simp, ?_, exponentForm⟩
      refine .decimal (List.cons_ne_nil _ _) ?_ digits.1 digits.2
      exact fun c member => List.mem_singleton.mp member ▸ digit

theorem ScientificForm.pieces_text {text : List Char} {exact : ℚ}
    (form : ScientificForm text exact) :
    (∀ piece ∈ pieces text, ∃ kind, piece.kind = .token kind) ∧
      ∃ name, ⟨.token .identifier, name⟩ ∈ pieces text := by
  obtain ⟨mantissa, power, _, rfl, number, exponentForm⟩ := form.exists_mantissa
  obtain ⟨name, tiles, tiling, shape, tokens⟩ := exponentForm.exists_tiling
  have whole : Tiling (⟨.token .number, mantissa⟩ :: ⟨.token .identifier, name⟩ :: tiles) := by
    refine .cons (.lexeme number) ?_ tiling
    rw [List.flatMap_cons, shape]
    exact ⟨(startsOutside_cons _ _ _).mpr (by decide), .inr rfl⟩
  have read := whole.pieces_eq
  rw [List.flatMap_cons, List.flatMap_cons, shape] at read
  rw [read]
  constructor
  · intro piece member
    rcases List.mem_cons.mp member with rfl | member
    · exact ⟨_, rfl⟩
    · rcases List.mem_cons.mp member with rfl | member
      · exact ⟨_, rfl⟩
      · exact tokens piece member
  · exact ⟨name, by simp⟩

def HasIdentifier (source : String) : Prop :=
  (lex source).errors = [] ∧ ∃ token ∈ (lex source).tokens, token.kind = .identifier

theorem ReadsAs.not_hasIdentifier {source : String} {value : Binary64}
    (reads : ReadsAs source value) : ¬ HasIdentifier source := by
  obtain ⟨number, read, kind, _⟩ := reads
  rintro ⟨_, token, member, identifier⟩
  rw [read] at member
  rcases List.mem_cons.mp member with rfl | member
  · exact nomatch kind.symm.trans identifier
  · rw [List.mem_singleton.mp member] at identifier
    cases identifier

theorem exists_token_of_piece {source : String} {kind : TokenKind} {text : List Char}
    (member : ⟨.token kind, text⟩ ∈ pieces source.toList) :
    ∃ token ∈ (lex source).tokens, token.kind = kind := by
  rw [← map_piece_placeFrom 0 1 (pieces source.toList)] at member
  obtain ⟨placed, placedMember, shape⟩ := List.mem_map.mp member
  refine ⟨⟨kind, String.ofList text, placed.line⟩, List.mem_append_left _ ?_, rfl⟩
  refine List.mem_filterMap.mpr ⟨placed, placedMember, ?_⟩
  rw [Placed.token?, shape]

theorem ScientificForm.hasIdentifier {text : List Char} {exact : ℚ}
    (form : ScientificForm text exact) : HasIdentifier (String.ofList text) := by
  obtain ⟨tokens, name, member⟩ := form.pieces_text
  rw [← String.toList_ofList (l := text)] at member tokens
  refine ⟨(errors_eq_nil_iff _).mpr fun piece inside => .inr (.inr (tokens piece inside)), ?_⟩
  exact exists_token_of_piece member

/-! ## Numbers -/

theorem hasIdentifier_infinity : HasIdentifier "inf" := by
  have read : lex "inf" = ⟨[⟨.identifier, "inf", 1⟩, Token.endOfSource 1], []⟩ := by decide +kernel
  rw [HasIdentifier, read]
  exact ⟨rfl, _, List.mem_cons_self, rfl⟩

theorem Binary64.readsAs_or_hasIdentifier (value : Binary64) :
    (value.InPlainRange ∧ ReadsAs (String.ofList value.text) value) ∨
      (¬ value.InPlainRange ∧ HasIdentifier (String.ofList value.text)) := by
  cases finite : value.isFinite with
  | false =>
      refine .inr ⟨fun range => ?_, ?_⟩
      · exact absurd (finite.symm.trans range.1) (by decide)
      · have text : value.text = ['i', 'n', 'f'] := by
          rw [Binary64.text, finite]
          rfl
        rw [text]
        exact hasIdentifier_infinity
  | true =>
      obtain ⟨exact, _, shortest, plain, form⟩ := text_shortest finite
      by_cases range : value.toRat = 0 ∨ (1 / 10 ^ 4 ≤ value.toRat ∧ value.toRat < 10 ^ 16)
      · exact .inl ⟨⟨finite, range⟩, (plain.mpr range).readsAs shortest.rounds⟩
      · have scientific := form.resolve_left (mt plain.mp range)
        exact .inr ⟨fun inRange => range inRange.2, scientific.hasIdentifier⟩

/-- The text by which a number is listed is read as one number, and one with the same bits, exactly
if the number is zero or from `10 ^ -4` up to but not including `10 ^ 16`. Of any other number,
infinity among them, the text is read without an error but has an identifier in it. -/
theorem listed_number_reads_back_iff {token : Token} (number : token.kind = .number) :
    ∃ value text, token.literal = some (.number value) ∧
      token.listing = "NUMBER " ++ token.lexeme ++ " " ++ text ∧
      (ReadsAs text value ↔ value.InPlainRange) ∧
      (¬ value.InPlainRange → HasIdentifier text) := by
  obtain ⟨value, literal⟩ : ∃ value, token.literal = some (.number value) := by
    rw [Token.literal, number]
    exact ⟨_, rfl⟩
  refine ⟨value, String.ofList value.text, literal, token.listing_of_number literal, ?_⟩
  rcases value.readsAs_or_hasIdentifier with ⟨range, reads⟩ | ⟨outside, identifier⟩
  · exact ⟨iff_of_true reads range, fun outside => absurd range outside⟩
  · refine ⟨iff_of_false (fun reads => reads.not_hasIdentifier identifier) outside, ?_⟩
    exact fun _ => identifier

/-- A small value is listed in scientific form, which is not read back as a number. -/
theorem listed_number_of_small_value :
    (Token.mk .number "0.00001" 1).listing = "NUMBER " ++ "0.00001" ++ " " ++ "1e-5" ∧
      HasIdentifier "1e-5" ∧ ¬ ∃ value, ReadsAs "1e-5" value := by
  have listing :
      (Token.mk .number "0.00001" 1).listing = "NUMBER " ++ "0.00001" ++ " " ++ "1e-5" := by
    decide +kernel
  have literal : (Token.mk .number "0.00001" 1).literal =
      some (.number ⟨0x3EE4F8B588E368F1, by decide⟩) := by
    decide +kernel
  have small : Binary64.isPlain ⟨0x3EE4F8B588E368F1, by decide⟩ = false := by decide +kernel
  obtain ⟨value, text, decoded, shown, -, falls⟩ :=
    @listed_number_reads_back_iff ⟨.number, "0.00001", 1⟩ rfl
  obtain rfl : ⟨0x3EE4F8B588E368F1, by decide⟩ = value := by
    simpa using literal.symm.trans decoded
  have characters := congrArg String.toList (listing.symm.trans shown)
  simp only [String.toList_append] at characters
  obtain rfl : "1e-5" = text := String.toList_inj.mp (List.append_cancel_left characters)
  have identifier := falls fun range =>
    absurd (Binary64.isPlain_iff.mpr range.2) (by rw [small]; decide)
  refine ⟨listing, identifier, ?_⟩
  rintro ⟨_, reads⟩
  exact reads.not_hasIdentifier identifier

end Lox
