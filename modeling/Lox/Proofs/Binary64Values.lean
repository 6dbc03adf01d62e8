import Lox.Number.Binary64
import Mathlib.Data.Rat.Defs
import Mathlib.Order.Monotone.Basic
import Mathlib.Tactic.FieldSimp
import Mathlib.Tactic.Linarith
import Mathlib.Tactic.NormNum
import Mathlib.Tactic.Ring

/-!
# Values of bit patterns

What a bit pattern stands for by the format: fraction and exponent, without the hidden bit where the
exponent is zero. Values grow with their patterns, and the step from one to the next is a power of
two units.
-/

set_option autoImplicit false

namespace Lox.Binary64

def exponentField (value : Binary64) : Nat :=
  value.bits / 2 ^ 52

def fractionField (value : Binary64) : Nat :=
  value.bits % 2 ^ 52

def significand (value : Binary64) : Nat :=
  if value.exponentField = 0 then value.fractionField else 2 ^ 52 + value.fractionField

/-- The number that a pattern stands for. It means nothing for infinity. -/
def toRat (value : Binary64) : ℚ :=
  if value.exponentField = 0 then value.fractionField * 2 ^ (-1074 : ℤ)
  else (2 ^ 52 + value.fractionField) * 2 ^ ((value.exponentField : ℤ) - 1075)

/-! ## Units -/

def spacing (bits : Nat) : Nat :=
  2 ^ (bits / binade - 1)

def unitsOf (bits : Nat) : Nat :=
  (bits - (bits / binade - 1) * binade) * 2 ^ (bits / binade - 1)

theorem units_eq_unitsOf (value : Binary64) : value.units = unitsOf value.bits :=
  rfl

theorem binade_eq : binade = 2 ^ 52 := by
  norm_num [binade]

/-- A pattern may be told as a multiple of a spacing, of which one too many is the next binade. -/
theorem unitsOf_eq {shift multiple : Nat} (atMost : multiple ≤ 2 ^ 53)
    (atLeast : shift = 0 ∨ 2 ^ 52 ≤ multiple) :
    unitsOf (shift * binade + multiple) = multiple * 2 ^ shift := by
  rcases Nat.lt_or_eq_of_le atMost with less | rfl
  · have same : (shift * binade + multiple) / binade - 1 = shift := by
      rw [binade_eq]
      omega
    rw [unitsOf, same, Nat.add_sub_cancel_left]
  · have next : (shift * binade + 2 ^ 53) / binade - 1 = shift + 1 := by
      rw [binade_eq]
      omega
    have half : shift * binade + 2 ^ 53 - (shift + 1) * binade = 2 ^ 52 := by
      rw [binade_eq]
      omega
    rw [unitsOf, next, half, Nat.pow_succ]
    ring

/-- Every pattern is a multiple of its spacing, and of no smaller one unless it is subnormal. -/
theorem exists_multiple (bits : Nat) :
    ∃ multiple < 2 ^ 53, (bits / binade - 1 = 0 ∨ 2 ^ 52 ≤ multiple) ∧
      bits = (bits / binade - 1) * binade + multiple := by
  refine ⟨bits - (bits / binade - 1) * binade, ?_, ?_, ?_⟩
  all_goals rw [binade_eq]; omega

theorem unitsOf_succ (bits : Nat) : unitsOf (bits + 1) = unitsOf bits + spacing bits := by
  obtain ⟨multiple, less, atLeast, split⟩ := exists_multiple bits
  have here := unitsOf_eq (Nat.le_of_lt less) atLeast
  have next := unitsOf_eq (Nat.succ_le_of_lt less) (atLeast.imp_right Nat.le_succ_of_le)
  rw [Nat.succ_eq_add_one, ← Nat.add_assoc, ← split] at next
  rw [← split] at here
  rw [next, here, spacing, Nat.succ_mul]

theorem exists_multiple_unitsOf (bits : Nat) :
    ∃ multiple < 2 ^ 53, unitsOf bits = multiple * spacing bits := by
  obtain ⟨multiple, less, atLeast, split⟩ := exists_multiple bits
  have units := unitsOf_eq (Nat.le_of_lt less) atLeast
  rw [← split] at units
  exact ⟨multiple, less, units⟩

theorem le_spacing {shift multiple : Nat} (atLeast : shift = 0 ∨ 2 ^ 52 ≤ multiple) :
    2 ^ shift ≤ spacing (shift * binade + multiple) := by
  refine Nat.pow_le_pow_right two_pos ?_
  rw [binade_eq]
  omega

theorem unitsOf_strictMono : StrictMono unitsOf :=
  strictMono_nat_of_lt_succ fun bits => by
    rw [unitsOf_succ]
    exact Nat.lt_add_of_pos_right (Nat.two_pow_pos _)

theorem toRat_eq_units (value : Binary64) : value.toRat = value.units / 2 ^ 1074 := by
  have fields : value.bits = 2 ^ 52 * value.exponentField + value.fractionField :=
    (Nat.div_add_mod value.bits (2 ^ 52)).symm
  have small : value.fractionField < 2 ^ 52 := Nat.mod_lt _ (Nat.two_pow_pos _)
  rw [toRat, units_eq_unitsOf]
  by_cases zero : value.exponentField = 0
  · have units : unitsOf (0 * binade + value.fractionField) = value.fractionField * 2 ^ 0 :=
      unitsOf_eq (by omega) (.inl rfl)
    rw [show 0 * binade + value.fractionField = value.bits by omega] at units
    rw [if_pos zero, units, pow_zero, mul_one, zpow_neg, ← div_eq_mul_inv]
    norm_cast
  · obtain ⟨shift, exponent⟩ := Nat.exists_eq_succ_of_ne_zero zero
    have units : unitsOf (shift * binade + (2 ^ 52 + value.fractionField)) =
        (2 ^ 52 + value.fractionField) * 2 ^ shift := unitsOf_eq (by omega) (.inr (by omega))
    rw [show shift * binade + (2 ^ 52 + value.fractionField) = value.bits by
      rw [binade_eq]
      omega] at units
    have scale : ((shift.succ : ℕ) : ℤ) - 1075 = (shift : ℤ) - (1074 : ℕ) := by
      push_cast
      ring
    rw [if_neg zero, units, exponent, scale, zpow_sub₀ two_ne_zero, zpow_natCast, zpow_natCast,
      ← mul_div_assoc]
    push_cast
    rfl

end Lox.Binary64
