import Lox.Proofs.LexingSteps
import Lox.Proofs.LongestMatch

/-!
# Lexing as a relation

Lexing by the grammar alone: at every point the longest word of any class is taken, and what begins
no word is an error. `lex` gives a result that satisfies the relation, and there is no other.
-/

set_option autoImplicit false

namespace Lox

/-- What a token of a kind and a text stands for. Only strings and numbers stand for anything; the
digits of a number count as one numeral, of which those after the point are decimal places. -/
inductive Denotes : TokenKind → List Char → Option Literal → Prop where
  | string {body : List Char} :
      '"' ∉ body → Denotes .string ('"' :: (body ++ ['"'])) (some (.string (String.ofList body)))
  | integer {digits : List Char} :
      (∀ c ∈ digits, IsDigit c) →
      Denotes .number digits
        (some (.number (Numeral.mk (Nat.ofDigitChars 10 digits 0) 0).toBinary64))
  | decimal {whole fraction : List Char} :
      (∀ c ∈ whole, IsDigit c) → (∀ c ∈ fraction, IsDigit c) →
      Denotes .number (whole ++ '.' :: fraction)
        (some (.number
          (Numeral.mk (Nat.ofDigitChars 10 (whole ++ fraction) 0) fraction.length).toBinary64))
  | nothing {kind : TokenKind} {text : List Char} :
      kind ≠ .string → kind ≠ .number → Denotes kind text none

/-- The tokens and errors of a text whose first character stands on a given line. -/
inductive Lexes : Nat → List Char → List Token → List LexicalError → Prop where
  | done {line : Nat} : Lexes line [] [Token.endOfSource line] []
  | token {line : Nat} {word rest : List Char} {token : Token} {tokens : List Token}
      {errors : List LexicalError} :
      LongestLexeme (.token token.kind) word rest →
      token.lexeme = String.ofList word →
      Denotes token.kind word token.literal →
      token.line = line + word.count '\n' →
      Lexes (line + word.count '\n') rest tokens errors →
      Lexes line (word ++ rest) (token :: tokens) errors
  | skip {line : Nat} {kind : PieceKind} {word rest : List Char} {tokens : List Token}
      {errors : List LexicalError} :
      LongestLexeme kind word rest → kind = .space ∨ kind = .comment →
      Lexes (line + word.count '\n') rest tokens errors →
      Lexes line (word ++ rest) tokens errors
  | unterminated {line : Nat} {rest : List Char} :
      BeginsNoLexeme ('"' :: rest) →
      Lexes line ('"' :: rest) [Token.endOfSource (line + rest.count '\n')]
        [.unterminatedString (String.ofList ('"' :: rest)) (line + rest.count '\n')]
  | unexpected {line : Nat} {c : Char} {rest : List Char} {tokens : List Token}
      {errors : List LexicalError} :
      BeginsNoLexeme (c :: rest) → c ≠ '"' → Lexes line rest tokens errors →
      Lexes line (c :: rest) tokens (.unexpectedCharacter c line :: errors)

/-! ## Literals -/

theorem Numeral.ofLexeme_integer {digits : List Char} (all : ∀ c ∈ digits, IsDigit c) :
    ofLexeme digits = ⟨Nat.ofDigitChars 10 digits 0, 0⟩ := by
  have taken := takeWhile_append_of_startsOutside (all_isDigit all) (startsOutside_nil isDigit)
  have dropped := dropWhile_append_of_startsOutside (all_isDigit all) (startsOutside_nil isDigit)
  rw [List.append_nil] at taken dropped
  simp [ofLexeme, taken, dropped]

theorem Numeral.ofLexeme_decimal {whole : List Char} (all : ∀ c ∈ whole, IsDigit c)
    (fraction : List Char) :
    ofLexeme (whole ++ '.' :: fraction) =
      ⟨Nat.ofDigitChars 10 (whole ++ fraction) 0, fraction.length⟩ := by
  have point : StartsOutside isDigit ('.' :: fraction) :=
    (startsOutside_cons _ _ _).mpr (by decide)
  simp [ofLexeme, takeWhile_append_of_startsOutside (all_isDigit all) point,
    dropWhile_append_of_startsOutside (all_isDigit all) point]

theorem Token.literal_eq_none {token : Token} (notString : token.kind ≠ .string)
    (notNumber : token.kind ≠ .number) : token.literal = none := by
  unfold literal
  split
  · next kind => exact absurd kind notString
  · next kind => exact absurd kind notNumber
  · rfl

private theorem denotes_of_plain {kind : TokenKind} {text : List Char} {line : Nat}
    (plain : kind ≠ .string ∧ kind ≠ .number) :
    Denotes kind text (Token.mk kind (String.ofList text) line).literal := by
  rw [Token.literal_eq_none plain.1 plain.2]
  exact .nothing plain.1 plain.2

theorem marks_plain :
    ∀ entry ∈ marks, entry.2 ≠ .string ∧ entry.2 ≠ .number := by
  decide

theorem operators_plain :
    ∀ entry ∈ operators, entry.2 ≠ .string ∧ entry.2 ≠ .number := by
  decide

theorem ofWord_plain (text : List Char) :
    TokenKind.ofWord text ≠ .string ∧ TokenKind.ofWord text ≠ .number := by
  rw [TokenKind.ofWord]
  cases Keyword.ofSpelling? text <;> simp

theorem Lexeme.denotes {kind : TokenKind} {text : List Char}
    (lexeme : Lexeme (.token kind) text) (line : Nat) :
    Denotes kind text (Token.mk kind (String.ofList text) line).literal := by
  cases lexeme with
  | mark member => exact denotes_of_plain (marks_plain _ member)
  | operator member => exact denotes_of_plain (operators_plain _ member)
  | integer _ all =>
      rw [Token.literal, String.toList_ofList, Numeral.ofLexeme_integer all]
      exact .integer all
  | @decimal whole fraction _ wholeAll _ fractionAll =>
      rw [Token.literal, String.toList_ofList, Numeral.ofLexeme_decimal wholeAll]
      exact .decimal wholeAll fractionAll
  | keyword _ _ _ => exact denotes_of_plain ⟨by simp, by simp⟩
  | identifier _ _ _ => exact denotes_of_plain ⟨by simp, by simp⟩
  | string inside =>
      rw [Token.literal, String.toList_ofList, List.tail_cons, List.dropLast_concat]
      exact .string inside

/-! ## The relation and the function -/

private theorem lexes_of_lexeme {start line : Nat} {kind : PieceKind} {c : Char}
    {word rest following : List Char} (taken : Piece.first c rest = (⟨kind, word⟩, following))
    (lexeme : Lexeme kind word)
    (lexes : ∀ start line, Lexes line following (tokensFrom start line following)
      (errorsFrom start line following)) :
    Lexes line (c :: rest) (tokensFrom start line (c :: rest))
      (errorsFrom start line (c :: rest)) := by
  have longest : LongestLexeme kind word following := Piece.longest_of_first taken lexeme
  have parts : word ++ following = c :: rest := Piece.append_of_first taken
  rw [tokensFrom_cons start line taken, errorsFrom_cons start line taken, ← parts]
  cases kind with
  | token kind =>
      change Lexes line (word ++ following)
        (⟨kind, String.ofList word, line + word.count '\n'⟩ :: tokensFrom _ _ following)
        (errorsFrom _ _ following)
      exact .token longest rfl (lexeme.denotes _) rfl (lexes _ _)
  | space => exact .skip longest (.inl rfl) (lexes _ _)
  | comment => exact .skip longest (.inr rfl) (lexes _ _)
  | stray => nomatch lexeme
  | openString => nomatch lexeme

theorem lexes_tokensFrom (text : List Char) (start line : Nat) :
    Lexes line text (tokensFrom start line text) (errorsFrom start line text) := by
  induction text using pieces_induction generalizing start line with
  | nil =>
      rw [tokensFrom_nil, errorsFrom_nil]
      exact .done
  | cons c rest piece following taken ih =>
      obtain ⟨formed, ends, parts⟩ := Piece.first_eq_iff.mp taken
      cases formed with
      | lexeme lexeme => exact lexes_of_lexeme taken lexeme ih
      | @stray leading role =>
          obtain ⟨rfl, rfl⟩ := List.cons.inj parts
          have unclassed : ¬ Lexeme .stray [leading] := by
            intro lexeme
            cases lexeme
          have none := Piece.beginsNoLexeme_of_first taken unclassed
          obtain ⟨notQuote, notFeed⟩ := Lead.ne_of_stray role
          rw [tokensFrom_cons start line taken, errorsFrom_cons start line taken]
          simpa [Placed.token?, Placed.error?, notFeed] using
            Lexes.unexpected none notQuote (ih (start + 1) line)
      | @openString body inside =>
          obtain rfl : following = [] := ends
          rw [List.append_nil] at parts
          obtain ⟨rfl, rfl⟩ := List.cons.inj parts
          have unclassed : ¬ Lexeme .openString ('"' :: body) := by
            intro lexeme
            cases lexeme
          have none := Piece.beginsNoLexeme_of_first taken unclassed
          have unterminated : Lexes line _ _ _ := .unterminated none
          rw [tokensFrom_cons start line taken, errorsFrom_cons start line taken]
          simpa [Placed.token?, Placed.error?, tokensFrom_nil, errorsFrom_nil] using
            unterminated

/-! ## Uniqueness -/

private theorem Lexeme.exists_cons {kind : PieceKind} {word : List Char}
    (lexeme : Lexeme kind word) (rest : List Char) :
    ∃ c tail, word ++ rest = c :: tail := by
  obtain ⟨c, tail, rfl⟩ := List.exists_cons_of_ne_nil lexeme.ne_nil
  exact ⟨c, tail ++ rest, rfl⟩

/-- The relation leaves no choice: there is one list of tokens and one of errors. -/
theorem Lexes.unique {line : Nat} {text : List Char} {tokens : List Token}
    {errors : List LexicalError} (lexes : Lexes line text tokens errors) (start : Nat) :
    tokens = tokensFrom start line text ∧ errors = errorsFrom start line text := by
  induction lexes generalizing start with
  | done => exact ⟨(tokensFrom_nil _ _).symm, (errorsFrom_nil _ _).symm⟩
  | @token line word rest token tokens errors longest lexeme _ tokenLine _ ih =>
      obtain ⟨c, tail, shape⟩ := longest.lexeme.exists_cons rest
      have taken := Piece.first_of_longest longest shape
      obtain ⟨sameTokens, sameErrors⟩ := ih (start + word.length)
      rw [shape, tokensFrom_cons start line taken, errorsFrom_cons start line taken,
        sameTokens, sameErrors]
      have same : token = ⟨token.kind, String.ofList word, line + word.count '\n'⟩ := by
        rw [← lexeme, ← tokenLine]
      rw [same]
      exact ⟨rfl, rfl⟩
  | @skip line kind word rest tokens errors longest silent _ ih =>
      obtain ⟨c, tail, shape⟩ := longest.lexeme.exists_cons rest
      have taken := Piece.first_of_longest longest shape
      obtain ⟨sameTokens, sameErrors⟩ := ih (start + word.length)
      rw [shape, tokensFrom_cons start line taken, errorsFrom_cons start line taken,
        sameTokens, sameErrors]
      rcases silent with rfl | rfl
      · exact ⟨rfl, rfl⟩
      · exact ⟨rfl, rfl⟩
  | @unterminated line rest none =>
      have taken := Piece.first_of_beginsNoLexeme none
      rw [if_pos rfl] at taken
      rw [tokensFrom_cons start line taken, errorsFrom_cons start line taken,
        tokensFrom_nil, errorsFrom_nil]
      simp [Placed.token?, Placed.error?]
  | @unexpected line c rest tokens errors none notQuote _ ih =>
      have taken := Piece.first_of_beginsNoLexeme none
      rw [if_neg notQuote] at taken
      -- A line feed would be a word, and would have been counted.
      have notFeed : c ≠ '\n' := by
        intro feed
        subst feed
        exact none .space ['\n'] (.blank (.inr (.inr (.inr rfl)))) ⟨rest, rfl⟩
      obtain ⟨sameTokens, sameErrors⟩ := ih (start + 1)
      rw [tokensFrom_cons start line taken, errorsFrom_cons start line taken,
        sameTokens, sameErrors]
      simp [Placed.token?, Placed.error?, notFeed]

/-- Lexing is leftmost-longest matching by the grammar, and that determines it. -/
theorem lex_eq_iff_lexes (source : String) (lexing : Lexing) :
    lex source = lexing ↔ Lexes 1 source.toList lexing.tokens lexing.errors := by
  constructor
  · intro same
    subst same
    exact lexes_tokensFrom source.toList 0 1
  · intro lexes
    obtain ⟨sameTokens, sameErrors⟩ := lexes.unique 0
    rw [lex_eq, ← sameTokens, ← sameErrors]

end Lox
