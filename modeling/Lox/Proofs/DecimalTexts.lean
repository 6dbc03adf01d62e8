import Lox.Proofs.DecimalNotation
import Mathlib.Algebra.Order.Field.Basic
import Mathlib.Algebra.Order.Field.Rat
import Mathlib.Data.List.Basic
import Mathlib.Data.List.TakeWhile
import Mathlib.Tactic.NormNum

/-!
# Texts of decimals

The two texts of a decimal are in plain and in scientific form, and denote its value.
-/

set_option autoImplicit false

namespace Lox

/-! ## Digits of whole numbers -/

theorem digits_toDigits (number : Nat) : Digits (Nat.toDigits 10 number) :=
  ⟨Nat.toDigits_ne_nil, fun _ member =>
    isDigit_iff.mp (Nat.isDigit_of_mem_toDigits (by decide) (by decide) member)⟩

theorem head?_toDigits {number : Nat} (positive : 0 < number) :
    (Nat.toDigits 10 number).head? ≠ some '0' := by
  induction number using Nat.strongRecOn with
  | ind number ih =>
    rw [Nat.toDigits_eq_if (by decide)]
    split
    · next small =>
      intro zero
      rw [List.head?_cons, Option.some.injEq, Nat.digitChar_eq_zero] at zero
      omega
    · next large =>
      rw [List.head?_append_of_ne_nil _ Nat.toDigits_ne_nil]
      exact ih (number / 10) (by omega) (by omega)

theorem exponentForm_exponentText (exponent : ℤ) :
    ExponentForm (Decimal.exponentText exponent) exponent := by
  have digits := digits_toDigits exponent.natAbs
  have value := digitsValue_toDigits exponent.natAbs
  unfold Decimal.exponentText
  split
  · next negative =>
    have form := ExponentForm.negative digits (head?_toDigits (by omega))
    rw [value] at form
    rwa [show -(exponent.natAbs : ℤ) = exponent by omega] at form
  · next natural =>
    have canonical : Nat.toDigits 10 exponent.natAbs = ['0'] ∨
        (Nat.toDigits 10 exponent.natAbs).head? ≠ some '0' := by
      rcases Nat.eq_zero_or_pos exponent.natAbs with zero | positive
      · exact .inl (zero ▸ rfl)
      · exact .inr (head?_toDigits positive)
    have form := ExponentForm.natural digits canonical
    rw [value] at form
    rwa [show (exponent.natAbs : ℤ) = exponent by omega] at form

/-! ## Forms of digits -/

/-- Digits without a zero at either end. -/
structure SignificantDigits (digits : List Char) : Prop where
  all : Digits digits
  head : digits.head? ≠ some '0'
  last : digits.getLast? ≠ some '0'

theorem digits_zero : Digits ['0'] :=
  ⟨List.cons_ne_nil _ _, fun _ member => List.mem_singleton.mp member ▸ isDigit_iff.mp rfl⟩

theorem digits_replicate_append {digits : List Char} (allDigits : Digits digits) (zeros : Nat) :
    Digits (List.replicate zeros '0' ++ digits) ∧ Digits (digits ++ List.replicate zeros '0') := by
  have zero (c : Char) (member : c ∈ List.replicate zeros '0') : IsDigit c :=
    digits_zero.2 c (List.mem_singleton.mpr (List.eq_of_mem_replicate member))
  constructor
  · refine ⟨fun empty => allDigits.1 (List.append_eq_nil_iff.mp empty).2, fun c member => ?_⟩
    exact (List.mem_append.mp member).elim (zero c) (allDigits.2 c)
  · refine ⟨fun empty => allDigits.1 (List.append_eq_nil_iff.mp empty).1, fun c member => ?_⟩
    exact (List.mem_append.mp member).elim (allDigits.2 c) (zero c)

namespace SignificantDigits

variable {digits : List Char} (significant : SignificantDigits digits)
include significant

theorem plainForm_below_one (zeros : Nat) :
    PlainForm ('0' :: '.' :: (List.replicate zeros '0' ++ digits))
      (digitsValue digits * 10 ^ (-(zeros : ℤ) - digits.length)) := by
  have fraction := (digits_replicate_append significant.all zeros).1
  have ending : (List.replicate zeros '0' ++ digits).getLast? ≠ some '0' := by
    rw [List.getLast?_append_of_ne_nil _ significant.all.1]
    exact significant.last
  have form := PlainForm.intro digits_zero fraction (.inl rfl) (.inr ending)
  have value : digitsValue (['0'] ++ (List.replicate zeros '0' ++ digits)) = digitsValue digits := by
    have nothing : digitsValue ['0'] = 0 := by decide
    rw [digitsValue_append, digitsValue_append, digitsValue_replicate_zero, nothing]
    simp
  rw [decimalValue_eq_zpow, value, List.length_append, List.length_replicate] at form
  rwa [show -((zeros + digits.length : Nat) : ℤ) = -(zeros : ℤ) - digits.length by omega] at form

theorem plainForm_among {place : Nat} (positive : 0 < place) (inside : place < digits.length) :
    PlainForm (digits.take place ++ '.' :: digits.drop place)
      (digitsValue digits * 10 ^ ((place : ℤ) - digits.length)) := by
  have whole : Digits (digits.take place) :=
    ⟨by simpa using ⟨positive.ne', significant.all.1⟩,
      fun c member => significant.all.2 c (List.mem_of_mem_take member)⟩
  have fraction : Digits (digits.drop place) :=
    ⟨by simpa using inside, fun c member => significant.all.2 c (List.mem_of_mem_drop member)⟩
  have beginning : (digits.take place).head? ≠ some '0' := by
    rw [List.head?_take, if_neg positive.ne']
    exact significant.head
  have ending : (digits.drop place).getLast? ≠ some '0' := by
    rw [List.getLast?_drop, if_neg (Nat.not_le.mpr inside)]
    exact significant.last
  have form := PlainForm.intro whole fraction (.inr beginning) (.inr ending)
  rw [decimalValue_eq_zpow, List.take_append_drop, List.length_drop] at form
  rwa [show -((digits.length - place : Nat) : ℤ) = (place : ℤ) - digits.length by omega] at form

theorem plainForm_whole (zeros : Nat) :
    PlainForm (digits ++ List.replicate zeros '0' ++ ['.', '0'])
      (digitsValue digits * 10 ^ (zeros : ℤ)) := by
  have whole := (digits_replicate_append significant.all zeros).2
  have beginning : (digits ++ List.replicate zeros '0').head? ≠ some '0' := by
    rw [List.head?_append_of_ne_nil _ significant.all.1]
    exact significant.head
  have form := PlainForm.intro whole digits_zero (.inr beginning) (.inl rfl)
  have value : decimalValue (digits ++ List.replicate zeros '0') ['0'] =
      digitsValue digits * 10 ^ (zeros : ℤ) := by
    have nothing : digitsValue ['0'] = 0 := by decide
    rw [decimalValue, digitsValue_append, digitsValue_replicate_zero, List.length_replicate,
      zpow_natCast, nothing]
    simp
  rwa [value] at form

end SignificantDigits

namespace Decimal

/-! ## Digits of decimals -/

theorem exists_zeros (number : Decimal) :
    ∃ zeros, Nat.toDigits 10 number.coefficient = number.digits ++ List.replicate zeros '0' := by
  have parts := List.takeWhile_append_dropWhile (p := (· == '0'))
    (l := (Nat.toDigits 10 number.coefficient).reverse)
  have zeros : (Nat.toDigits 10 number.coefficient).reverse.takeWhile (· == '0') =
      List.replicate ((Nat.toDigits 10 number.coefficient).reverse.takeWhile (· == '0')).length
        '0' := by
    refine List.eq_replicate_of_mem fun c member => ?_
    have zero := List.mem_takeWhile_imp (p := (· == '0')) member
    exact beq_iff_eq.mp zero
  generalize (Nat.toDigits 10 number.coefficient).reverse.takeWhile (· == '0') = taken at *
  refine ⟨taken.length, ?_⟩
  rw [digits, ← List.reverse_replicate, ← zeros, ← List.reverse_append, parts, List.reverse_reverse]

theorem getLast?_digits (number : Decimal) : number.digits.getLast? ≠ some '0' := by
  intro last
  rw [digits, List.getLast?_reverse] at last
  have stop := List.head?_dropWhile_not (· == '0') (Nat.toDigits 10 number.coefficient).reverse
  rw [last] at stop
  simp at stop

theorem significantDigits {number : Decimal} (positive : 0 < number.coefficient) :
    SignificantDigits number.digits := by
  obtain ⟨zeros, split⟩ := number.exists_zeros
  have nonempty : number.digits ≠ [] := by
    intro empty
    have value := digitsValue_toDigits number.coefficient
    rw [split, empty, List.nil_append, digitsValue_replicate_zero] at value
    omega
  refine ⟨⟨nonempty, fun c member => ?_⟩, ?_, number.getLast?_digits⟩
  · exact (digits_toDigits number.coefficient).2 c (split ▸ List.mem_append_left _ member)
  · have first := head?_toDigits positive
    rwa [split, List.head?_append_of_ne_nil _ nonempty] at first

theorem value_eq (number : Decimal) :
    number.value =
      digitsValue number.digits * 10 ^ (number.point - (number.digits.length : ℤ)) := by
  obtain ⟨zeros, split⟩ := number.exists_zeros
  have coefficient := digitsValue_toDigits number.coefficient
  rw [split, digitsValue_append, digitsValue_replicate_zero, List.length_replicate] at coefficient
  rw [point, split, List.length_append, List.length_replicate, value, ← coefficient]
  have shift : ((number.digits.length + zeros : Nat) : ℤ) + number.exponent -
      (number.digits.length : ℤ) = zeros + number.exponent := by
    push_cast
    ring
  rw [shift, zpow_add₀ (by norm_num), zpow_natCast]
  push_cast
  ring

/-! ## The two forms -/

theorem plainForm {number : Decimal} (positive : 0 < number.coefficient) :
    PlainForm number.plain number.value := by
  have significant := significantDigits positive
  rw [value_eq]
  unfold plain
  generalize number.digits = digits at *
  generalize number.point = point
  dsimp only
  split
  · next below =>
    have form := significant.plainForm_below_one (-point).toNat
    rwa [Int.toNat_of_nonneg (by omega), neg_neg] at form
  · next above =>
    split
    · next inside =>
      have form := significant.plainForm_among (by omega) inside
      rwa [Int.toNat_of_nonneg (by omega)] at form
    · next outside =>
      have form := significant.plainForm_whole (point.toNat - digits.length)
      rwa [show ((point.toNat - digits.length : Nat) : ℤ) = point - digits.length by omega] at form

theorem scientificForm {number : Decimal} (positive : 0 < number.coefficient) :
    ScientificForm number.scientific number.value := by
  have significant := significantDigits positive
  rw [value_eq]
  unfold scientific
  generalize number.digits = digits at *
  generalize number.point = point
  have power := exponentForm_exponentText (point - 1)
  match digits with
  | [] => exact absurd rfl significant.all.1
  | [digit] =>
      have nonzero : digit ≠ '0' := fun zero => significant.head (congrArg some zero)
      exact .digit (significant.all.2 digit (.head _)) nonzero power
  | first :: second :: rest =>
      have nonzero : first ≠ '0' := fun zero => significant.head (congrArg some zero)
      have fraction : Digits (second :: rest) :=
        ⟨List.cons_ne_nil _ _, fun c member => significant.all.2 c (.tail _ member)⟩
      have form := ScientificForm.fraction (significant.all.2 first (.head _)) nonzero fraction
        significant.last power
      rw [decimalValue_eq_zpow, mul_assoc, ← zpow_add₀ (by norm_num)] at form
      rwa [show -((second :: rest).length : ℤ) + (point - 1) =
        point - (first :: second :: rest).length by simp; omega] at form

end Decimal

end Lox
