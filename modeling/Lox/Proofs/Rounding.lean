import Lox.Proofs.Binary64Values
import Mathlib.Algebra.Order.Field.Basic
import Mathlib.Algebra.Order.Field.Rat
import Mathlib.Algebra.Order.Floor.Semifield
import Mathlib.Data.Rat.Floor

/-!
# Correct rounding

A rational is rounded to the nearest value, to the one with the even significand of two equally near
ones, and to infinity from half a spacing above the largest finite value on. That determines the
value, and `Binary64.ofRatio` gives it.
-/

set_option autoImplicit false

namespace Lox

/-! ## Whole numbers -/

private theorem div_eq_add {numerator denominator : Nat} (positive : 0 < denominator) :
    (numerator / denominator : ℚ) =
      (numerator / denominator : Nat) + (numerator % denominator : Nat) / (denominator : ℚ) := by
  have nonzero : (denominator : ℚ) ≠ 0 := by exact_mod_cast positive.ne'
  have parts : (numerator : ℚ) =
      denominator * (numerator / denominator : Nat) + (numerator % denominator : Nat) := by
    exact_mod_cast (Nat.div_add_mod numerator denominator).symm
  rw [div_eq_iff nonzero, add_mul, div_mul_cancel₀ _ nonzero, parts]
  ring

/-- Rounding moves a quotient by at most a half, and by a half only to an even number. -/
theorem roundDiv_near (numerator : Nat) {denominator : Nat} (positive : 0 < denominator) :
    |(roundDiv numerator denominator : ℚ) - numerator / denominator| ≤ 1 / 2 ∧
      (|(roundDiv numerator denominator : ℚ) - numerator / denominator| = 1 / 2 →
        Even (roundDiv numerator denominator)) := by
  have bound : 0 < (denominator : ℚ) := by exact_mod_cast positive
  have part : 0 ≤ ((numerator % denominator : Nat) : ℚ) / denominator := by positivity
  have whole : ((numerator % denominator : Nat) : ℚ) / denominator < 1 := by
    rw [div_lt_one bound]
    exact_mod_cast Nat.mod_lt numerator positive
  have half (compare : 2 * (numerator % denominator) < denominator) :
      ((numerator % denominator : Nat) : ℚ) / denominator < 1 / 2 := by
    rw [div_lt_div_iff₀ bound two_pos, one_mul, mul_comm]
    exact_mod_cast compare
  have tie (compare : 2 * (numerator % denominator) = denominator) :
      ((numerator % denominator : Nat) : ℚ) / denominator = 1 / 2 := by
    rw [div_eq_div_iff bound.ne' two_ne_zero, one_mul, mul_comm]
    exact_mod_cast compare
  have beyond (compare : denominator < 2 * (numerator % denominator)) :
      1 / 2 < ((numerator % denominator : Nat) : ℚ) / denominator := by
    rw [div_lt_div_iff₀ two_pos bound, one_mul, mul_comm]
    exact_mod_cast compare
  have below : |((numerator / denominator : Nat) : ℚ) - numerator / denominator| =
      ((numerator % denominator : Nat) : ℚ) / denominator := by
    rw [div_eq_add positive, sub_add_cancel_left, abs_neg, abs_of_nonneg part]
  have above : |((numerator / denominator + 1 : Nat) : ℚ) - numerator / denominator| =
      1 - ((numerator % denominator : Nat) : ℚ) / denominator := by
    rw [div_eq_add positive, Nat.cast_succ, add_sub_add_left_eq_sub, abs_of_pos (by linarith)]
  -- All is said of the part behind the point; what is rounded to is at that distance, or at the rest.
  unfold roundDiv
  dsimp only
  split
  · next down =>
    rw [below]
    rcases down with less | ⟨same, even⟩
    · exact ⟨(half less).le, fun equal => absurd equal (half less).ne⟩
    · exact ⟨(tie same).le, fun _ => Nat.even_iff.mpr even⟩
  · next up =>
    rw [above]
    rcases Nat.lt_or_eq_of_le (Nat.not_lt.mp fun less => up (.inl less)) with more | same
    · have more := beyond more
      exact ⟨by linarith, fun equal => by linarith⟩
    · have odd : numerator / denominator % 2 ≠ 0 := fun even => up (.inr ⟨same.symm, even⟩)
      have same := tie same.symm
      exact ⟨by linarith, fun _ => Nat.even_iff.mpr (by omega)⟩

/-- An even number is reached from half a step below it on: the odd number before it loses the
tie. -/
private theorem even_le_iff_of_near {quotient : ℚ} {multiple limit : Nat} (even : Even limit)
    (near : |multiple - quotient| ≤ 1 / 2) (tie : |multiple - quotient| = 1 / 2 → Even multiple) :
    limit ≤ multiple ↔ limit - 1 / 2 ≤ quotient := by
  obtain ⟨above, below⟩ := abs_le.mp near
  constructor
  · intro reached
    have reached : (limit : ℚ) ≤ multiple := by exact_mod_cast reached
    linarith
  · intro large
    refine Nat.le_of_not_lt fun less => ?_
    have missed : (multiple : ℚ) + 1 ≤ limit := by exact_mod_cast less
    have half : |(multiple : ℚ) - quotient| = 1 / 2 := by
      rw [abs_of_nonpos (by linarith)]
      linarith
    have last : limit = multiple + 1 := by
      have cast : (limit : ℚ) = multiple + 1 := by linarith
      exact_mod_cast cast
    rw [last, Nat.even_add_one] at even
    exact even (tie half)

private theorem abs_mul_sub {step : ℚ} (positive : 0 < step) (multiple exact : ℚ) :
    |multiple * step - exact| = |multiple - exact / step| * step := by
  rw [← abs_of_pos positive, ← abs_mul, sub_mul, abs_of_pos positive,
    div_mul_cancel₀ _ positive.ne']

/-- A multiple of a step that is within half a step is nearest among all multiples, and a second one
is as near only if both are half a step away. -/
private theorem near_multiple {exact step : ℚ} (positive : 0 < step) {multiple : Nat}
    (near : |multiple - exact / step| ≤ 1 / 2) (other : Nat) :
    |multiple * step - exact| ≤ |other * step - exact| ∧
      (other ≠ multiple → |other * step - exact| = |multiple * step - exact| →
        |multiple - exact / step| = 1 / 2) := by
  rw [abs_mul_sub positive, abs_mul_sub positive]
  rcases eq_or_ne other multiple with rfl | different
  · exact ⟨le_rfl, fun absurdity => absurd rfl absurdity⟩
  · have apart : (1 : ℚ) ≤ |(other : ℚ) - multiple| := by
      have whole : (1 : ℤ) ≤ |(other : ℤ) - multiple| :=
        Int.one_le_abs (sub_ne_zero.mpr (by exact_mod_cast different))
      exact_mod_cast whole
    have triangle := abs_sub_le (other : ℚ) (exact / step) multiple
    rw [abs_sub_comm (exact / step)] at triangle
    have far : 1 / 2 ≤ |other - exact / step| := by linarith
    refine ⟨mul_le_mul_of_nonneg_right (near.trans far) positive.le, fun _ equal => ?_⟩
    have same := mul_right_cancel₀ positive.ne' equal
    exact le_antisymm near (same ▸ far)

namespace Binary64

/-- A value is the correctly rounded form of an exact number. -/
structure Rounds (exact : ℚ) (value : Binary64) : Prop where
  overflow : value = infinity ↔ 2 ^ 1024 - 2 ^ 970 ≤ exact
  nearest : value.isFinite = true → ∀ other : Binary64, other.isFinite = true →
    |value.toRat - exact| ≤ |other.toRat - exact|
  even : value.isFinite = true → ∀ other : Binary64, other.isFinite = true → other ≠ value →
    |other.toRat - exact| = |value.toRat - exact| → Even value.significand

/-! ## Distances in units -/

theorem isFinite_iff {value : Binary64} : value.isFinite = true ↔ value.bits < infinityBits := by
  rw [isFinite, bne_iff_ne]
  exact ⟨fun other => lt_of_le_of_ne value.bits_le other, fun less => less.ne⟩

theorem eq_infinity_iff {value : Binary64} : value = infinity ↔ value.bits = infinityBits := by
  obtain ⟨bits, bits_le⟩ := value
  exact Binary64.mk.injEq _ _ _ _ ▸ Iff.rfl

theorem eq_of_bits_eq {value other : Binary64} (same : value.bits = other.bits) :
    value = other := by
  obtain ⟨bits, bits_le⟩ := value
  obtain rfl : bits = other.bits := same
  rfl

theorem eq_of_units_eq {value other : Binary64} (same : value.units = other.units) :
    value = other :=
  eq_of_bits_eq (unitsOf_strictMono.injective same)

theorem even_significand_iff {value : Binary64} : Even value.significand ↔ Even value.bits := by
  rw [significand, exponentField, fractionField, Nat.even_iff, Nat.even_iff]
  split <;> omega

theorem abs_toRat_sub (value : Binary64) (exact : ℚ) :
    |value.toRat - exact| = |value.units - exact * 2 ^ 1074| / 2 ^ 1074 := by
  have positive : (0 : ℚ) < 2 ^ 1074 := by positivity
  rw [toRat_eq_units, ← abs_of_pos positive, ← abs_div, abs_of_pos positive, sub_div,
    mul_div_cancel_right₀ _ positive.ne']

theorem abs_toRat_sub_le_iff {value other : Binary64} {exact : ℚ} :
    |value.toRat - exact| ≤ |other.toRat - exact| ↔
      |value.units - exact * 2 ^ 1074| ≤ |other.units - exact * 2 ^ 1074| := by
  rw [abs_toRat_sub, abs_toRat_sub, div_le_div_iff_of_pos_right (by positivity)]

theorem abs_toRat_sub_eq_iff {value other : Binary64} {exact : ℚ} :
    |other.toRat - exact| = |value.toRat - exact| ↔
      |other.units - exact * 2 ^ 1074| = |value.units - exact * 2 ^ 1074| := by
  rw [abs_toRat_sub, abs_toRat_sub, div_left_inj' (by positivity)]

/-! ## Rounding to a spacing -/

/-- A number of units is rounded to a multiple of the spacing around it. -/
structure Lands (units : ℚ) (shift multiple : Nat) : Prop where
  below : units < 2 ^ (53 + shift)
  above : shift = 0 ∨ 2 ^ (52 + shift) ≤ units
  near : |multiple - units / 2 ^ shift| ≤ 1 / 2
  tie : |multiple - units / 2 ^ shift| = 1 / 2 → Even multiple

section Lands

variable {units : ℚ} {shift multiple : Nat} (lands : Lands units shift multiple)
include lands

theorem Lands.multiple_le : multiple ≤ 2 ^ 53 := by
  have less : units / 2 ^ shift < 2 ^ 53 := by
    rw [div_lt_iff₀ (by positivity), ← pow_add]
    exact lands.below
  have close := (abs_le.mp lands.near).2
  have bound : (multiple : ℚ) < (2 ^ 53 + 1 : Nat) := by
    push_cast
    linarith
  exact Nat.lt_succ_iff.mp (by exact_mod_cast bound)

theorem Lands.le_multiple : shift = 0 ∨ 2 ^ 52 ≤ multiple := by
  refine lands.above.imp_right fun above => ?_
  have more : 2 ^ 52 ≤ units / 2 ^ shift := by
    rw [le_div_iff₀ (by positivity), ← pow_add]
    exact above
  have close := (abs_le.mp lands.near).1
  have bound : ((2 ^ 52 : Nat) : ℚ) < (multiple + 1 : Nat) := by
    push_cast
    linarith
  exact Nat.lt_succ_iff.mp (by exact_mod_cast bound)

/-- Finite values are multiples of the spacing, or smaller than the number that is rounded by more
than what it is moved. -/
theorem Lands.near_or_far (other : Binary64) :
    (∃ count : Nat, other.units = count * 2 ^ shift) ∨
      |multiple * 2 ^ shift - units| < |other.units - units| := by
  obtain ⟨count, less, value⟩ := exists_multiple_unitsOf other.bits
  rw [← units_eq_unitsOf, spacing] at value
  rcases Nat.lt_or_ge (other.bits / binade - 1) shift with finer | coarser
  · right
    have above := lands.above.resolve_left (Nat.ne_zero_of_lt finer)
    have small : (other.units : ℚ) < 2 ^ (52 + shift) := by
      have bound : count * 2 ^ (other.bits / binade - 1) < 2 ^ 53 * 2 ^ (shift - 1) :=
        Nat.mul_lt_mul_of_lt_of_le less
          (Nat.pow_le_pow_right two_pos (Nat.le_sub_one_of_lt finer)) (by positivity)
      rw [← Nat.pow_add, show 53 + (shift - 1) = 52 + shift by omega, ← value] at bound
      exact_mod_cast bound
    have least := (near_multiple (by positivity) lands.near (2 ^ 52)).1
    rw [Nat.cast_pow, Nat.cast_ofNat, ← pow_add] at least
    calc |multiple * 2 ^ shift - units|
        ≤ |2 ^ (52 + shift) - units| := least
      _ = units - 2 ^ (52 + shift) := by rw [abs_sub_comm, abs_of_nonneg (by linarith)]
      _ < units - other.units := by linarith
      _ = |other.units - units| := by rw [abs_sub_comm, abs_of_pos (by linarith)]
  · left
    refine ⟨count * 2 ^ (other.bits / binade - 1 - shift), ?_⟩
    rw [value, Nat.mul_assoc, ← Nat.pow_add, Nat.sub_add_cancel coarser]

/-- The carry into infinity happens half a spacing above the largest finite value. -/
theorem Lands.infinityBits_le_iff :
    infinityBits ≤ shift * binade + multiple ↔ 2 ^ 2098 - 2 ^ 2044 ≤ units := by
  have atMost := lands.multiple_le
  have atLeast := lands.le_multiple
  have infinity_eq : infinityBits = 2047 * 2 ^ 52 := by norm_num [infinityBits]
  rw [infinity_eq, binade_eq]
  have positive : (0 : ℚ) < 2 ^ 2044 := pow_pos two_pos _
  have top : (2 : ℚ) ^ 2098 = 2 ^ 54 * 2 ^ 2044 := by rw [← pow_add]
  have last : (2 : ℚ) ^ 2045 = 2 * 2 ^ 2044 := by rw [← pow_succ']
  rw [top]
  rcases Nat.lt_trichotomy shift 2045 with finite | rfl | large
  · have less : units < 2 ^ 53 * 2 ^ 2044 := by
      rw [← pow_add]
      exact lands.below.trans_le (pow_le_pow_right₀ one_le_two (by omega))
    refine iff_of_false (by omega) (not_le.mpr ?_)
    generalize (2 : ℚ) ^ 2044 = half at *
    linarith only [less, positive]
  -- The last spacing: a significand of `2 ^ 53` carries, and it is even, so that the tie goes there.
  · have near := lands.near
    have tie := lands.tie
    have scaled : units = units / 2 ^ 2045 * (2 * 2 ^ 2044) := by
      rw [← last, div_mul_cancel₀ _ (pow_ne_zero _ two_ne_zero)]
    rw [scaled]
    generalize units / 2 ^ 2045 = quotient at *
    have threshold : 2 ^ 54 * 2 ^ 2044 - 2 ^ 2044 ≤ quotient * (2 * 2 ^ 2044) ↔
        2 ^ 53 - 1 / 2 ≤ quotient := by
      generalize (2 : ℚ) ^ 2044 = half at *
      rw [show 2 ^ 54 * half - half = (2 ^ 53 - 1 / 2) * (2 * half) by ring,
        mul_le_mul_iff_of_pos_right (mul_pos two_pos positive)]
    have carried := even_le_iff_of_near (by decide : Even (2 ^ 53)) near tie
    rw [Nat.cast_pow, Nat.cast_ofNat] at carried
    rw [threshold, ← carried]
    omega
  · have more : 2 ^ 54 * 2 ^ 2044 ≤ units := by
      rw [← pow_add]
      exact (pow_le_pow_right₀ one_le_two (by omega)).trans (lands.above.resolve_left (by omega))
    refine iff_of_true (by omega) ?_
    generalize (2 : ℚ) ^ 2044 = half at *
    linarith only [more, positive]

end Lands

section Rounds

variable {exact : ℚ} {shift multiple : Nat} {value : Binary64}

theorem Lands.units_eq {units : ℚ} (lands : Lands units shift multiple)
    (carried : value.bits = min (shift * binade + multiple) infinityBits)
    (finite : value.isFinite = true) :
    (value.units : ℚ) = multiple * 2 ^ shift ∧ value.bits = shift * binade + multiple := by
  have less := isFinite_iff.mp finite
  have bits : value.bits = shift * binade + multiple := by omega
  refine ⟨?_, bits⟩
  rw [units_eq_unitsOf, bits, unitsOf_eq lands.multiple_le lands.le_multiple]
  push_cast
  rfl

theorem Lands.rounds (lands : Lands (exact * 2 ^ 1074) shift multiple)
    (carried : value.bits = min (shift * binade + multiple) infinityBits) :
    Rounds exact value := by
  refine ⟨?_, ?_, ?_⟩
  · have threshold : 2 ^ 1024 - 2 ^ 970 ≤ exact ↔
        2 ^ 2098 - 2 ^ 2044 ≤ exact * 2 ^ 1074 := by
      have scaled : (2 : ℚ) ^ 2098 - 2 ^ 2044 = (2 ^ 1024 - 2 ^ 970) * 2 ^ 1074 := by
        rw [sub_mul, ← pow_add, ← pow_add]
      rw [scaled, mul_le_mul_iff_of_pos_right (by positivity)]
    rw [threshold, ← lands.infinityBits_le_iff, eq_infinity_iff, carried]
    exact min_eq_right_iff
  · intro finite other _
    obtain ⟨units, _⟩ := lands.units_eq carried finite
    rw [abs_toRat_sub_le_iff, units]
    rcases lands.near_or_far other with ⟨count, multiple_other⟩ | far
    · rw [multiple_other]
      push_cast
      exact (near_multiple (by positivity) lands.near count).1
    · exact far.le
  · intro finite other _ different equal
    obtain ⟨units, bits⟩ := lands.units_eq carried finite
    rw [abs_toRat_sub_eq_iff, units] at equal
    rcases lands.near_or_far other with ⟨count, multiple_other⟩ | far
    · have odd : count ≠ multiple := by
        rintro rfl
        refine different (eq_of_units_eq ?_)
        rw [multiple_other]
        exact_mod_cast units.symm
      rw [multiple_other] at equal
      push_cast at equal
      have tie := (near_multiple (by positivity) lands.near count).2 odd equal
      have even := lands.tie tie
      rw [even_significand_iff, bits, binade_eq, Nat.even_add]
      exact iff_of_true ((Nat.even_pow.mpr ⟨even_two, by decide⟩).mul_left shift) even
    · exact absurd equal far.ne'

end Rounds

/-! ## Rounding a ratio -/

/-- The finest spacing that leaves at most 53 bits is the one to round to. -/
theorem lands_div (numerator : Nat) {denominator : Nat} (positive : 0 < denominator) :
    Lands (numerator / denominator) ((numerator / denominator).log2 - 52)
      (roundDiv numerator (denominator * 2 ^ ((numerator / denominator).log2 - 52))) := by
  have near (shift : Nat) := roundDiv_near numerator
    (Nat.mul_pos positive (Nat.two_pow_pos shift))
  simp only [Nat.cast_mul, Nat.cast_pow, Nat.cast_ofNat, ← div_div] at near
  have quotient : ⌊(numerator / denominator : ℚ)⌋₊ = numerator / denominator :=
    Nat.floor_div_eq_div numerator denominator
  have atLeast : ((numerator / denominator : Nat) : ℚ) ≤ numerator / denominator :=
    quotient ▸ Nat.floor_le (by positivity)
  have less : (numerator / denominator : ℚ) < (numerator / denominator : Nat) + 1 :=
    quotient ▸ Nat.lt_floor_add_one _
  generalize numerator / denominator = whole at *
  refine ⟨?_, ?_, (near _).1, (near _).2⟩
  · have bound : whole + 1 ≤ 2 ^ (53 + (whole.log2 - 52)) :=
      Nat.lt_log2_self.trans_le (Nat.pow_le_pow_right two_pos (by omega))
    exact less.trans_le (by exact_mod_cast bound)
  · rcases Nat.eq_zero_or_pos (whole.log2 - 52) with zero | coarse
    · exact .inl zero
    · have bound : 2 ^ (52 + (whole.log2 - 52)) ≤ whole := by
        rw [Nat.add_sub_cancel' (by omega)]
        exact Nat.log2_self_le fun zero => by simp [zero] at coarse
      exact .inr (le_trans (by exact_mod_cast bound) atLeast)

theorem cast_unitsPerOne : (unitsPerOne : ℚ) = 2 ^ 1074 := by
  unfold unitsPerOne
  generalize 1074 = exponent
  rw [Nat.pow_eq, Nat.cast_pow, Nat.cast_ofNat]

theorem rounds_ofRatio (numerator : Nat) {denominator : Nat} (positive : 0 < denominator) :
    Rounds (numerator / denominator) (ofRatio numerator denominator) := by
  have lands := lands_div (numerator * unitsPerOne) positive
  rw [Nat.cast_mul, cast_unitsPerOne, mul_div_right_comm] at lands
  exact lands.rounds rfl

theorem exists_lands {exact : ℚ} (nonneg : 0 ≤ exact) :
    ∃ shift multiple, Lands (exact * 2 ^ 1074) shift multiple := by
  have scaled : 0 ≤ exact * 2 ^ 1074 := mul_nonneg nonneg (by positivity)
  generalize exact * 2 ^ 1074 = units at *
  have ratio : units = (units.num.toNat : ℚ) / units.den := by
    rw [← Int.cast_natCast units.num.toNat, Int.toNat_of_nonneg (Rat.num_nonneg.mpr scaled),
      Rat.num_div_den]
  rw [ratio]
  exact ⟨_, _, lands_div _ units.den_pos⟩

/-! ## The rounded value is determined -/

theorem toRat_lt_iff {value other : Binary64} :
    value.toRat < other.toRat ↔ value.bits < other.bits := by
  rw [toRat_eq_units, toRat_eq_units, div_lt_div_iff_of_pos_right (by positivity), Nat.cast_lt,
    units_eq_unitsOf, units_eq_unitsOf, unitsOf_strictMono.lt_iff_lt]

theorem high_nearer_iff {low high exact : ℚ} (less : low < high) :
    |high - exact| ≤ |low - exact| ↔ low + high ≤ 2 * exact := by
  rw [← sq_le_sq]
  constructor <;> intro compare <;> nlinarith

theorem low_nearer_iff {low high exact : ℚ} (less : low < high) :
    |low - exact| ≤ |high - exact| ↔ 2 * exact ≤ low + high := by
  rw [← sq_le_sq]
  constructor <;> intro compare <;> nlinarith

section Rounds

variable {exact : ℚ} {value other : Binary64}

theorem Rounds.isFinite_iff (rounds : Rounds exact value) :
    value.isFinite = true ↔ exact < 2 ^ 1024 - 2 ^ 970 := by
  rw [← not_le, ← rounds.overflow, isFinite, bne_iff_ne, ne_eq, eq_infinity_iff]

/-- Two values cannot be equally near: both would be even, and a third one would be between them. -/
private theorem Rounds.not_lt (rounds : Rounds exact value) (too : Rounds exact other) :
    ¬ value.bits < other.bits := by
  intro less
  have valueFinite := Binary64.isFinite_iff.mpr (less.trans_le other.bits_le)
  have otherFinite := too.isFinite_iff.mpr (rounds.isFinite_iff.mp valueFinite)
  have different : value ≠ other := fun same => less.ne (congrArg bits same)
  have equal := le_antisymm (rounds.nearest valueFinite other otherFinite)
    (too.nearest otherFinite value valueFinite)
  have even := even_significand_iff.mp
    (rounds.even valueFinite other otherFinite different.symm equal.symm)
  have evenToo := even_significand_iff.mp
    (too.even otherFinite value valueFinite different equal)
  have apart : value.bits + 1 < other.bits := by
    rw [Nat.even_iff] at even evenToo
    omega
  have between := rounds.nearest valueFinite ⟨value.bits + 1, apart.le.trans other.bits_le⟩
    (Binary64.isFinite_iff.mpr (apart.trans_le other.bits_le))
  rw [low_nearer_iff (toRat_lt_iff.mpr (Nat.lt_succ_self _))] at between
  have middle := (high_nearer_iff (toRat_lt_iff.mpr less)).mp equal.ge
  have last : (⟨value.bits + 1, apart.le.trans other.bits_le⟩ : Binary64).toRat < other.toRat :=
    toRat_lt_iff.mpr apart
  linarith

theorem Rounds.eq (rounds : Rounds exact value) (too : Rounds exact other) : value = other :=
  eq_of_bits_eq (Nat.le_antisymm (Nat.not_lt.mp (too.not_lt rounds))
    (Nat.not_lt.mp (rounds.not_lt too)))

theorem Rounds.bits_le {more : ℚ} (rounds : Rounds exact value) (moreRounds : Rounds more other)
    (le : exact ≤ more) : value.bits ≤ other.bits := by
  refine Nat.le_of_not_lt fun less => ?_
  have otherFinite := Binary64.isFinite_iff.mpr (less.trans_le value.bits_le)
  have valueFinite := rounds.isFinite_iff.mpr (le.trans_lt (moreRounds.isFinite_iff.mp otherFinite))
  have above := (high_nearer_iff (toRat_lt_iff.mpr less)).mp
    (rounds.nearest valueFinite other otherFinite)
  have below := (low_nearer_iff (toRat_lt_iff.mpr less)).mp
    (moreRounds.nearest otherFinite value valueFinite)
  obtain rfl : exact = more := by linarith
  exact less.ne (congrArg bits (moreRounds.eq rounds))

theorem Lands.exists_rounds {shift multiple : Nat}
    (lands : Lands (exact * 2 ^ 1074) shift multiple) :
    ∃ value : Binary64, value.bits = min (shift * binade + multiple) infinityBits ∧
      Rounds exact value :=
  ⟨⟨_, Nat.min_le_right _ _⟩, rfl, lands.rounds rfl⟩

theorem exists_rounds (nonneg : 0 ≤ exact) : ∃ value, Rounds exact value := by
  obtain ⟨shift, multiple, lands⟩ := exists_lands nonneg
  obtain ⟨value, -, rounds⟩ := lands.exists_rounds
  exact ⟨value, rounds⟩

theorem Rounds.between {low high : ℚ} (lowRounds : Rounds low value)
    (highRounds : Rounds high value) (nonneg : 0 ≤ exact) (above : low ≤ exact)
    (below : exact ≤ high) : Rounds exact value := by
  obtain ⟨other, rounds⟩ := exists_rounds nonneg
  have same : other = value := eq_of_bits_eq
    (Nat.le_antisymm (rounds.bits_le highRounds below) (lowRounds.bits_le rounds above))
  exact same ▸ rounds

theorem Rounds.near (rounds : Rounds exact value) (nonneg : 0 ≤ exact)
    (finite : value.isFinite = true) :
    |(value.units : ℚ) - exact * 2 ^ 1074| ≤ (spacing value.bits : ℚ) / 2 := by
  obtain ⟨shift, multiple, lands⟩ := exists_lands nonneg
  obtain ⟨landed, bits, landedRounds⟩ := lands.exists_rounds
  obtain rfl := rounds.eq landedRounds
  obtain ⟨units, split⟩ := lands.units_eq bits finite
  have step : ((2 ^ shift : Nat) : ℚ) ≤ (spacing value.bits : Nat) := by
    rw [split]
    exact_mod_cast le_spacing lands.le_multiple
  have distance : |(multiple : ℚ) * 2 ^ shift - exact * 2 ^ 1074| =
      |multiple - exact * 2 ^ 1074 / 2 ^ shift| * 2 ^ shift :=
    abs_mul_sub (by positivity) multiple (exact * 2 ^ 1074)
  rw [units, distance]
  have near := mul_le_mul_of_nonneg_right lands.near (by positivity : (0 : ℚ) ≤ 2 ^ shift)
  push_cast at step
  linarith

theorem rounds_toRat (value : Binary64) : Rounds value.toRat value := by
  obtain ⟨multiple, less, atLeast, split⟩ := exists_multiple value.bits
  have units : value.toRat * 2 ^ 1074 = multiple * 2 ^ (value.bits / binade - 1) := by
    rw [toRat_eq_units, div_mul_cancel₀ _ (by positivity), units_eq_unitsOf, split,
      unitsOf_eq less.le atLeast, ← split]
    push_cast
    rfl
  have lands : Lands (value.toRat * 2 ^ 1074) (value.bits / binade - 1) multiple := by
    rw [units]
    generalize value.bits / binade - 1 = shift at *
    have positive : (0 : ℚ) < 2 ^ shift := by positivity
    have exact : (multiple : ℚ) * 2 ^ shift / 2 ^ shift = multiple :=
      mul_div_cancel_right₀ _ positive.ne'
    refine ⟨?_, atLeast.imp_right fun atLeast => ?_, ?_, fun tie => ?_⟩
    · rw [pow_add]
      exact mul_lt_mul_of_pos_right (by exact_mod_cast less) positive
    · rw [pow_add]
      exact mul_le_mul_of_nonneg_right (by exact_mod_cast atLeast) positive.le
    · rw [exact, sub_self]
      norm_num
    · rw [exact, sub_self] at tie
      norm_num at tie
  exact lands.rounds (by rw [← split, Nat.min_eq_left value.bits_le])

theorem rounds_iff_ofRatio_eq {numerator denominator : Nat} (positive : 0 < denominator) :
    Rounds (numerator / denominator) value ↔ ofRatio numerator denominator = value := by
  constructor
  · intro rounds
    exact (rounds_ofRatio numerator positive).eq rounds
  · rintro rfl
    exact rounds_ofRatio numerator positive

end Rounds

end Binary64

end Lox
