import Lox.Proofs.DecimalNotation
import Lox.Proofs.LexingRelation
import Lox.Proofs.ListingDecoding
import Lox.Proofs.Rounding

/-!
# Decoding numbers

A number token stands for the value that its digits are correctly rounded to, however many there are.
-/

set_option autoImplicit false

namespace Lox

theorem Lexeme.exists_writes {text : List Char} (lexeme : Lexeme (.token .number) text) :
    ∃ exact, Writes text exact := by
  cases lexeme with
  | mark member => simp [marks] at member
  | operator member => simp [operators] at member
  | integer nonempty all => exact ⟨_, .integer ⟨nonempty, all⟩⟩
  | decimal wholeNonempty wholeAll fractionNonempty fractionAll =>
      exact ⟨_, .decimal ⟨wholeNonempty, wholeAll⟩ ⟨fractionNonempty, fractionAll⟩⟩

theorem Writes.ofLexeme {text : List Char} {exact : ℚ} (writes : Writes text exact) :
    ((Numeral.ofLexeme text).coefficient : ℚ) / (10 ^ (Numeral.ofLexeme text).places : Nat) =
      exact := by
  cases writes with
  | integer digits => simp [Numeral.ofLexeme_integer digits.2, digitsValue]
  | @decimal whole fraction wholeDigits _ =>
      rw [Numeral.ofLexeme_decimal wholeDigits.2, decimalValue_eq, Nat.cast_pow, Nat.cast_ofNat]
      rfl

theorem Writes.rounds_iff {text : List Char} {exact : ℚ} (writes : Writes text exact)
    {value : Binary64} :
    Binary64.Rounds exact value ↔ (Numeral.ofLexeme text).toBinary64 = value := by
  rw [← writes.ofLexeme, Binary64.rounds_iff_ofRatio_eq (by positivity)]
  rfl

/-- A number token has one literal: the value that its digits, read as an exact rational, are
correctly rounded to. The bits of the literal are those of a number or of infinity, without a sign. -/
theorem number_literal_iff_rounds {source : String} {token : Token}
    (member : token ∈ (lex source).tokens) (number : token.kind = .number) :
    (∃ exact, Writes token.lexeme.toList exact) ∧
      (∀ exact value, Writes token.lexeme.toList exact →
        (token.literal = some (.number value) ↔ Binary64.Rounds exact value)) ∧
      ∃ value : Binary64, token.literal = some (.number value) ∧
        value.bits ≤ 0x7FF0000000000000 ∧ value.bits < 2 ^ 63 := by
  have literal : token.literal = some (.number (Numeral.ofLexeme token.lexeme.toList).toBinary64) := by
    rw [Token.literal, number]
  refine ⟨?_, ?_, ?_⟩
  · rcases spelled_of_mem_tokens member with last | lexeme
    · rw [number] at last
      cases last.1
    · rw [number] at lexeme
      exact lexeme.exists_writes
  · intro exact value writes
    rw [writes.rounds_iff, literal, Option.some.injEq, Literal.number.injEq]
  · have atMost := (Numeral.ofLexeme token.lexeme.toList).toBinary64.bits_le
    exact ⟨_, literal, atMost, atMost.trans_lt (by decide)⟩

/-- `2 ^ 53 + 1` is halfway between two values and goes to the even one. -/
theorem number_literal_of_tie :
    Token.mk .number "9007199254740993" 1 ∈ (lex "9007199254740993").tokens ∧
      Writes "9007199254740993".toList (2 ^ 53 + 1) ∧
      Binary64.Rounds (2 ^ 53 + 1) ⟨0x4340000000000000, by decide⟩ := by
  have member : Token.mk .number "9007199254740993" 1 ∈ (lex "9007199254740993").tokens := by
    decide +kernel
  have writes : Writes "9007199254740993".toList (2 ^ 53 + 1) := by
    have tests : "9007199254740993".toList.all isDigit = true := by decide +kernel
    have digits : Digits "9007199254740993".toList :=
      ⟨by decide, fun c inside => isDigit_iff.mp (List.all_eq_true.mp tests c inside)⟩
    have value : digitsValue "9007199254740993".toList = 2 ^ 53 + 1 := by decide +kernel
    have writes := Writes.integer digits
    rw [value] at writes
    exact_mod_cast writes
  have literal : (Token.mk .number "9007199254740993" 1).literal =
      some (.number ⟨0x4340000000000000, by decide⟩) := by
    decide +kernel
  exact ⟨member, writes, ((number_literal_iff_rounds member rfl).2.1 _ _ writes).mp literal⟩

end Lox
