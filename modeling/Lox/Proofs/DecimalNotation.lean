import Lox.Number.Decimal
import Lox.Proofs.Grammar
import Mathlib.Data.Rat.Defs
import Mathlib.Tactic.Ring

/-!
# Decimal notation

How numbers are written with digits, and which rational a text denotes: with digits and at most one
point as in a source, in plain form, and in scientific form.
-/

set_option autoImplicit false

namespace Lox

def Digits (text : List Char) : Prop :=
  text ≠ [] ∧ ∀ c ∈ text, IsDigit c

def digitsValue (digits : List Char) : Nat :=
  Nat.ofDigitChars 10 digits 0

def decimalValue (whole fraction : List Char) : ℚ :=
  digitsValue whole + digitsValue fraction / 10 ^ fraction.length

/-- The numbers of a source: leading and trailing zeros may stand anywhere. -/
inductive Writes : List Char → ℚ → Prop where
  | integer {digits : List Char} : Digits digits → Writes digits (digitsValue digits)
  | decimal {whole fraction : List Char} :
      Digits whole → Digits fraction →
      Writes (whole ++ '.' :: fraction) (decimalValue whole fraction)

/-- Plain form. There is no zero in front but a single one before the point, and none at the end but
a single one after the point. -/
inductive PlainForm : List Char → ℚ → Prop where
  | intro {whole fraction : List Char} :
      Digits whole → Digits fraction →
      whole = ['0'] ∨ whole.head? ≠ some '0' →
      fraction = ['0'] ∨ fraction.getLast? ≠ some '0' →
      PlainForm (whole ++ '.' :: fraction) (decimalValue whole fraction)

/-- A whole number without leading zeros, and with a sign only if it is negative. -/
inductive ExponentForm : List Char → ℤ → Prop where
  | natural {digits : List Char} :
      Digits digits → digits = ['0'] ∨ digits.head? ≠ some '0' →
      ExponentForm digits (digitsValue digits)
  | negative {digits : List Char} :
      Digits digits → digits.head? ≠ some '0' →
      ExponentForm ('-' :: digits) (-digitsValue digits)

/-- Scientific form. There is one digit before the point, which is not zero, and no point without a
digit after it. -/
inductive ScientificForm : List Char → ℚ → Prop where
  | digit {first : Char} {power : List Char} {exponent : ℤ} :
      IsDigit first → first ≠ '0' → ExponentForm power exponent →
      ScientificForm (first :: 'e' :: power) (digitsValue [first] * 10 ^ exponent)
  | fraction {first : Char} {fraction power : List Char} {exponent : ℤ} :
      IsDigit first → first ≠ '0' → Digits fraction → fraction.getLast? ≠ some '0' →
      ExponentForm power exponent →
      ScientificForm (first :: '.' :: (fraction ++ 'e' :: power))
        (decimalValue [first] fraction * 10 ^ exponent)

/-! ## Values -/

def Decimal.value (number : Decimal) : ℚ :=
  number.coefficient * 10 ^ number.exponent

theorem digitsValue_append (front back : List Char) :
    digitsValue (front ++ back) = digitsValue front * 10 ^ back.length + digitsValue back := by
  rw [digitsValue, Nat.ofDigitChars_append, Nat.ofDigitChars_eq_ofDigitChars_zero, Nat.mul_comm]
  rfl

theorem digitsValue_replicate_zero (count : Nat) : digitsValue (List.replicate count '0') = 0 := by
  rw [digitsValue, Nat.ofDigitChars_replicate_zero, Nat.mul_zero]

theorem digitsValue_toDigits (number : Nat) : digitsValue (Nat.toDigits 10 number) = number :=
  Nat.ofDigitChars_ten_toDigits

theorem decimalValue_eq (whole fraction : List Char) :
    decimalValue whole fraction = digitsValue (whole ++ fraction) / 10 ^ fraction.length := by
  have scale : (10 : ℚ) ^ fraction.length ≠ 0 := pow_ne_zero _ (by norm_num)
  rw [decimalValue, digitsValue_append, Nat.cast_add, Nat.cast_mul, Nat.cast_pow, Nat.cast_ofNat,
    add_div, mul_div_cancel_right₀ _ scale]

theorem decimalValue_eq_zpow (whole fraction : List Char) :
    decimalValue whole fraction =
      digitsValue (whole ++ fraction) * 10 ^ (-(fraction.length : ℤ)) := by
  rw [decimalValue_eq, zpow_neg, zpow_natCast, div_eq_mul_inv]

/-! ## Forms apart -/

theorem PlainForm.not_scientific {text : List Char} {exact other : ℚ}
    (plain : PlainForm text exact) : ¬ ScientificForm text other := by
  intro scientific
  have letter : 'e' ∈ text := by
    cases scientific with
    | digit => simp
    | fraction => simp
  cases plain with
  | @intro whole fraction wholeDigits fractionDigits _ _ =>
    have outside : ¬ IsDigit 'e' := mt isDigit_iff.mpr (by decide)
    rcases List.mem_append.mp letter with inWhole | after
    · exact outside (wholeDigits.2 _ inWhole)
    · rcases List.mem_cons.mp after with point | inFraction
      · exact absurd point (by decide)
      · exact outside (fractionDigits.2 _ inFraction)

end Lox
