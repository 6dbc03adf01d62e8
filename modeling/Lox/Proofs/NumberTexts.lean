import Lox.Proofs.DecimalTexts
import Lox.Proofs.LexingRelation
import Lox.Proofs.NumberDecoding
import Lox.Proofs.ShortestDecimal

/-!
# Texts of numbers

A number is listed by its shortest decimal, in plain form if it is neither small nor large.
-/

set_option autoImplicit false

namespace Lox

namespace Binary64

variable {value : Binary64}

theorem toRat_eq_zero_iff : value.toRat = 0 ↔ value.units = 0 := by
  have scale : (2 : ℚ) ^ 1074 ≠ 0 := pow_ne_zero _ two_ne_zero
  rw [toRat_eq_units, div_eq_zero_iff, or_iff_left scale, Nat.cast_eq_zero]

private theorem small_ratio_iff {units one : Nat} (positive : 0 < one) :
    (1 / 10 ^ 4 : ℚ) ≤ units / one ↔ one ≤ 10000 * units := by
  rw [div_le_div_iff₀ (by norm_num) (by exact_mod_cast positive), one_mul, mul_comm]
  norm_num
  exact_mod_cast Iff.rfl

private theorem large_ratio_iff {units one : Nat} (positive : 0 < one) :
    (units / one : ℚ) < 10 ^ 16 ↔ units < 10000000000000000 * one := by
  rw [div_lt_iff₀ (by exact_mod_cast positive)]
  norm_num
  exact_mod_cast Iff.rfl

theorem isPlain_iff :
    value.isPlain = true ↔
      value.toRat = 0 ∨ (1 / 10 ^ 4 ≤ value.toRat ∧ value.toRat < 10 ^ 16) := by
  have positive : 0 < unitsPerOne := by
    have scale : (0 : ℚ) < unitsPerOne := cast_unitsPerOne ▸ pow_pos two_pos _
    exact_mod_cast scale
  rw [toRat_eq_zero_iff, toRat_eq_units, ← cast_unitsPerOne, small_ratio_iff positive,
    large_ratio_iff positive, isPlain, Bool.or_eq_true, Bool.and_eq_true, beq_iff_eq,
    decide_eq_true_iff, decide_eq_true_iff]

theorem isShortest_zero (zero : value.toRat = 0) : IsShortest value 0 0 := by
  have rounds := value.rounds_toRat
  rw [zero] at rounds
  refine ⟨rounds, ⟨⟨0, 0⟩, by decide, by simp [Decimal.value]⟩, ?_, ?_⟩
  · intro fewer less
    exact absurd less (Nat.not_lt_zero fewer)
  · intro other _ _
    rw [zero, sub_self, abs_zero]
    exact abs_nonneg _

theorem text_shortest (finite : value.isFinite = true) :
    ∃ (exact : ℚ) (digits : Nat), IsShortest value exact digits ∧
      (PlainForm value.text exact ↔
        value.toRat = 0 ∨ (1 / 10 ^ 4 ≤ value.toRat ∧ value.toRat < 10 ^ 16)) ∧
      (PlainForm value.text exact ∨ ScientificForm value.text exact) := by
  rw [← isPlain_iff]
  -- Zero has no significant digit, so that its text is not a matter of the search.
  by_cases zero : value.units = 0
  · have text : value.text = ['0', '.', '0'] := by
      rw [Binary64.text, if_pos finite, if_pos zero]
    have plain : value.isPlain = true := isPlain_iff.mpr (.inl (toRat_eq_zero_iff.mpr zero))
    have form : PlainForm ['0', '.', '0'] (decimalValue ['0'] ['0']) :=
      .intro digits_zero digits_zero (.inl rfl) (.inl rfl)
    have nothing : decimalValue ['0'] ['0'] = 0 := by
      have digit : digitsValue ['0'] = 0 := by decide
      rw [decimalValue, digit]
      norm_num
    rw [nothing] at form
    rw [text]
    exact ⟨0, 0, isShortest_zero (toRat_eq_zero_iff.mpr zero), iff_of_true form plain, .inl form⟩
  · have positive : 0 < value.toRat := by
      rw [toRat_eq_units]
      exact div_pos (by exact_mod_cast Nat.pos_of_ne_zero zero) (pow_pos two_pos _)
    obtain ⟨digits, shortest⟩ := exists_isShortest positive finite
    have coefficient : 0 < value.shortest.coefficient := by
      refine Nat.pos_of_ne_zero fun none => ?_
      have rounds := shortest.rounds
      rw [Decimal.value, none, Nat.cast_zero, zero_mul] at rounds
      exact not_rounds_zero positive rounds
    refine ⟨_, digits, shortest, ?_⟩
    by_cases plain : value.isPlain = true
    · have text : value.text = value.shortest.plain := by
        rw [Binary64.text, if_pos finite, if_neg zero, if_pos plain]
      have form := Decimal.plainForm coefficient
      rw [text]
      exact ⟨iff_of_true form plain, .inl form⟩
    · have text : value.text = value.shortest.scientific := by
        rw [Binary64.text, if_pos finite, if_neg zero, if_neg plain]
      have form := Decimal.scientificForm coefficient
      rw [text]
      exact ⟨iff_of_false (fun other => other.not_scientific form) plain, .inr form⟩

end Binary64

theorem Token.listing_of_number {token : Token} {value : Binary64}
    (number : token.literal = some (.number value)) :
    token.listing = "NUMBER " ++ token.lexeme ++ " " ++ String.ofList value.text := by
  have kind : token.kind = .number := by
    unfold Token.literal at number
    split at number
    · cases number
    · next kind => exact kind
    · cases number
  rw [Token.listing, number, kind]
  rfl

/-- A finite number is listed by a text that reads back to it. No decimal with fewer digits does
that, and none with as many digits that does it is nearer. -/
theorem number_listing_shortest {token : Token} {value : Binary64}
    (number : token.literal = some (.number value)) (finite : value.isFinite = true) :
    ∃ (text : List Char) (exact : ℚ) (digits : Nat),
      token.listing = "NUMBER " ++ token.lexeme ++ " " ++ String.ofList text ∧
        Binary64.IsShortest value exact digits ∧
        (PlainForm text exact ↔
          value.toRat = 0 ∨ (1 / 10 ^ 4 ≤ value.toRat ∧ value.toRat < 10 ^ 16)) ∧
        (PlainForm text exact ∨ ScientificForm text exact) := by
  obtain ⟨exact, digits, shortest, plain, form⟩ := Binary64.text_shortest finite
  exact ⟨value.text, exact, digits, token.listing_of_number number, shortest, plain, form⟩

/-- Seventeen digits are read back that no shorter decimal can stand for. -/
theorem number_listing_of_seventeen_digits :
    (Token.mk .number "0.30000000000000004" 1).listing =
        "NUMBER " ++ "0.30000000000000004" ++ " " ++ "0.30000000000000004" ∧
      ∃ exact digits, Binary64.IsShortest ⟨0x3FD3333333333334, by decide⟩ exact digits ∧
        PlainForm "0.30000000000000004".toList exact := by
  have listing : (Token.mk .number "0.30000000000000004" 1).listing =
      "NUMBER " ++ "0.30000000000000004" ++ " " ++ "0.30000000000000004" := by
    decide +kernel
  have number : (Token.mk .number "0.30000000000000004" 1).literal =
      some (.number ⟨0x3FD3333333333334, by decide⟩) := by
    decide +kernel
  have plain : Binary64.isPlain ⟨0x3FD3333333333334, by decide⟩ = true := by decide +kernel
  obtain ⟨text, exact, digits, shown, shortest, form, -⟩ := number_listing_shortest number (by decide)
  have characters := congrArg String.toList (listing.symm.trans shown)
  simp only [String.toList_append, String.toList_ofList] at characters
  obtain rfl : "0.30000000000000004".toList = text := List.append_cancel_left characters
  exact ⟨listing, exact, digits, shortest, form.mpr (Binary64.isPlain_iff.mp plain)⟩

end Lox
