import Lox.Proofs.DecimalNotation
import Lox.Proofs.DecimalSearch
import Mathlib.Data.Nat.Log

/-!
# Shortest decimals

The search ends at a decimal that rounds to the value, has the fewest digits of all that do, and is
nearest to the value of those with so few.

When the search ends on a grid, no point of the next coarser one rounds to the value. So all that
does lies above the power of ten that the decimal starts with, and what has no more digits than the
decimal lies on its grid. Decimals of one digit start with such a power themselves, and are compared
directly.
-/

set_option autoImplicit false

namespace Lox.Binary64

def FitsIn (digits : Nat) (exact : ℚ) : Prop :=
  ∃ number : Decimal, number.coefficient < 10 ^ digits ∧ number.value = exact

/-- A decimal of so many digits that is the shortest one for a value, and the nearest of these. -/
structure IsShortest (value : Binary64) (exact : ℚ) (digits : Nat) : Prop where
  rounds : Rounds exact value
  fits : FitsIn digits exact
  fewest : ∀ fewer < digits, ∀ other, FitsIn fewer other → ¬ Rounds other value
  nearest : ∀ other, FitsIn digits other → Rounds other value →
    |exact - value.toRat| ≤ |other - value.toRat|

/-! ## Decimals and grids -/

private theorem ten_zpow_pos (exponent : ℤ) : (0 : ℚ) < 10 ^ exponent :=
  zpow_pos (by norm_num) exponent

theorem value_nonneg (number : Decimal) : 0 ≤ number.value :=
  mul_nonneg (Nat.cast_nonneg _) (ten_zpow_pos _).le

theorem fitsIn_gridPoint (grid : Nat) {multiple digits : Nat} (fits : multiple < 10 ^ digits) :
    FitsIn digits (gridPoint grid multiple) :=
  ⟨⟨multiple, (grid : ℤ) - 1074⟩, fits, rfl⟩

theorem value_eq_gridPoint {number : Decimal} {grid : Nat} {shift : Nat}
    (exponent : number.exponent = (grid : ℤ) - 1074 + shift) :
    number.value = gridPoint grid (number.coefficient * 10 ^ shift) := by
  rw [← gridPoint_add, gridPoint, Decimal.value, exponent]
  congr 2
  push_cast
  ring

theorem value_lt {number : Decimal} {digits : Nat} (fits : number.coefficient < 10 ^ digits) :
    number.value < 10 ^ ((digits : ℤ) + number.exponent) := by
  rw [zpow_add₀ (by norm_num), zpow_natCast]
  exact mul_lt_mul_of_pos_right (by exact_mod_cast fits) (ten_zpow_pos _)

theorem gridPoint_pow (grid digits : Nat) :
    gridPoint grid (10 ^ digits) = 10 ^ ((digits : ℤ) + ((grid : ℤ) - 1074)) := by
  rw [gridPoint, zpow_add₀ (by norm_num), zpow_natCast, Nat.cast_pow, Nat.cast_ofNat]

theorem not_rounds_zero {value : Binary64} (positive : 0 < value.toRat) : ¬ Rounds 0 value := by
  intro rounds
  have zero : Binary64.toRat ⟨0, Nat.zero_le _⟩ = 0 := by
    rw [toRat_eq_units]
    simp [units]
  have same := rounds.eq (zero ▸ rounds_toRat ⟨0, Nat.zero_le _⟩)
  rw [same, zero] at positive
  exact lt_irrefl _ positive

section FirstHit

variable {value : Binary64} {coarsest grid multiple : Nat}
  (hit : FirstHit value coarsest grid multiple)
include hit

theorem FirstHit.multiple_pos (positive : 0 < value.toRat) : 0 < multiple := by
  refine Nat.pos_of_ne_zero fun zero => ?_
  have rounds := hit.rounds
  rw [zero, gridPoint, Nat.cast_zero, zero_mul] at rounds
  exact not_rounds_zero positive rounds

theorem FirstHit.not_rounds_coarser (finer : grid < coarsest) (other : Nat) {shift : Nat}
    (positive : 0 < shift) : ¬ Rounds (gridPoint grid (other * 10 ^ shift)) value := by
  obtain ⟨shift, rfl⟩ := Nat.exists_eq_succ_of_ne_zero positive.ne'
  rw [Nat.pow_succ', ← Nat.mul_assoc, Nat.mul_right_comm]
  have missed := hit.coarser (grid + 1) (Nat.lt_succ_self _) finer (other * 10 ^ shift)
  rwa [gridPoint_add, Nat.pow_one] at missed

/-! ## Two digits or more -/

theorem FirstHit.lead_lt (finer : grid < coarsest) {digits : Nat} (long : 0 < digits)
    (starts : 10 ^ digits ≤ multiple) {other : ℚ} (rounds : Rounds other value) :
    gridPoint grid (10 ^ digits) < other := by
  refine lt_of_not_ge fun below => ?_
  have lead := rounds.between hit.rounds (gridPoint_nonneg _ _) below (gridPoint_le grid starts)
  rw [← Nat.one_mul (10 ^ digits)] at lead
  exact hit.not_rounds_coarser finer 1 long lead

/-- The fewer digits a decimal has, the coarser is its grid if it rounds to the value. -/
theorem FirstHit.exists_shift (finer : grid < coarsest) {digits fewer : Nat} (long : 0 < digits)
    (starts : 10 ^ digits ≤ multiple) (few : fewer ≤ digits + 1) {number : Decimal}
    (fits : number.coefficient < 10 ^ fewer) (rounds : Rounds number.value value) :
    ∃ shift, number.value = gridPoint grid (number.coefficient * 10 ^ shift) ∧
      digits + 1 ≤ fewer + shift := by
  have above := (hit.lead_lt finer long starts rounds).trans (value_lt fits)
  rw [gridPoint_pow, zpow_lt_zpow_iff_right₀ (by norm_num)] at above
  refine ⟨(number.exponent - ((grid : ℤ) - 1074)).toNat, value_eq_gridPoint ?_, ?_⟩
  · omega
  · omega

theorem FirstHit.isShortest_of_finer (finer : grid < coarsest) (long : 10 ≤ multiple) :
    IsShortest value (gridPoint grid multiple) (Nat.log 10 multiple + 1) := by
  have positive : 0 < Nat.log 10 multiple := Nat.log_pos (by decide) long
  have starts : 10 ^ Nat.log 10 multiple ≤ multiple := Nat.pow_log_le_self 10 (by omega)
  refine ⟨hit.rounds, fitsIn_gridPoint grid (Nat.lt_pow_succ_log_self (by decide) multiple), ?_, ?_⟩
  · intro fewer less other fits rounds
    obtain ⟨number, fits, rfl⟩ := fits
    obtain ⟨shift, onGrid, few⟩ := hit.exists_shift finer positive starts less.le fits rounds
    rw [onGrid] at rounds
    exact hit.not_rounds_coarser finer number.coefficient (by omega) rounds
  · intro other fits rounds
    obtain ⟨number, fits, rfl⟩ := fits
    obtain ⟨shift, onGrid, -⟩ := hit.exists_shift finer positive starts le_rfl fits rounds
    rw [onGrid] at rounds ⊢
    exact hit.nearest _ rounds

end FirstHit

/-! ## One digit -/

/-- Numbers that differ by a tenth round to the same value only if it has less than ten units. -/
theorem units_lt_of_wide {value : Binary64} {low high : ℚ} (finite : value.isFinite = true)
    (lowRounds : Rounds low value) (highRounds : Rounds high value) (nonneg : 0 ≤ low)
    (wide : 10 * low ≤ 9 * high) (below : value.toRat < high) :
    value.units < 10 ∧ spacing value.bits = 1 := by
  have lowNear := (abs_le.mp (lowRounds.near nonneg finite)).2
  have highNear := (abs_le.mp (highRounds.near (by linarith) finite)).1
  have scale : (0 : ℚ) < 2 ^ 1074 := pow_pos two_pos _
  rw [toRat_eq_units, div_lt_iff₀ scale] at below
  have wide : 10 * (low * 2 ^ 1074) ≤ 9 * (high * 2 ^ 1074) := by
    rw [← mul_assoc, ← mul_assoc]
    exact mul_le_mul_of_nonneg_right wide scale.le
  have few : value.units < 10 * spacing value.bits := by
    have few : (value.units : ℚ) < 10 * (spacing value.bits : ℚ) := by
      generalize low * 2 ^ 1074 = low at *
      generalize high * 2 ^ 1074 = high at *
      linarith
    exact_mod_cast few
  obtain ⟨multiple, less, atLeast, split⟩ := exists_multiple value.bits
  have units := unitsOf_eq less.le atLeast
  rw [← split, ← units_eq_unitsOf] at units
  rw [units, spacing] at few
  have small : multiple < 10 := Nat.lt_of_mul_lt_mul_right few
  have finest : value.bits / binade - 1 = 0 := atLeast.resolve_right (by omega)
  rw [units, spacing, finest, Nat.pow_zero, Nat.mul_one]
  exact ⟨small, rfl⟩

/-- `5 ^ 1074` is a little less than `5 * 10 ^ 750`, so of the powers of ten only one is between one
and ten units, and it has a little more than two. -/
theorem units_of_power (grid : Nat) (more : 1 < gridPoint grid 1 * 2 ^ 1074)
    (less : gridPoint grid 1 * 2 ^ 1074 < 10) :
    2 < gridPoint grid 1 * 2 ^ 1074 ∧ 49 * (gridPoint grid 1 * 2 ^ 1074) ≤ 100 := by
  have exact : gridPoint grid 1 * 2 ^ 1074 * 5 ^ 1074 = 10 ^ grid := by
    rw [mul_assoc, ← mul_pow, gridPoint_eq_div, Nat.one_mul, Nat.pow_eq, Nat.cast_pow,
      Nat.cast_ofNat]
    norm_num
  have estimate : 49 * 10 ^ 749 ≤ 5 ^ 1074 ∧ 5 ^ 1074 < 50 * 10 ^ 749 := by decide +kernel
  obtain ⟨tens, positive, power, atLeast, below⟩ : ∃ tens : ℚ, 0 < tens ∧
      (∀ step, 10 ^ (step + 749) = 10 ^ step * tens) ∧ 49 * tens ≤ 5 ^ 1074 ∧
        5 ^ 1074 < 50 * tens :=
    ⟨10 ^ 749, pow_pos (by norm_num) _, fun step => pow_add 10 step 749,
      by exact_mod_cast estimate.1, by exact_mod_cast estimate.2⟩
  -- Two powers with a thousand digits are named, so that no tactic computes them.
  generalize gridPoint grid 1 * 2 ^ 1074 = units at *
  generalize (5 : ℚ) ^ 1074 = scale at *
  have scalePositive : 0 < scale := by linarith
  have lower : scale < units * scale := lt_mul_of_one_lt_left scalePositive more
  have upper : units * scale < 10 * scale := mul_lt_mul_of_pos_right less scalePositive
  obtain rfl : grid = 2 + 749 := by
    have lower : (10 : ℚ) ^ (1 + 749) < 10 ^ grid := by
      rw [power, ← exact]
      linarith
    have upper : (10 : ℚ) ^ grid < 10 ^ (3 + 749) := by
      rw [power, ← exact]
      linarith
    rw [pow_lt_pow_iff_right₀ (by norm_num)] at lower upper
    omega
  rw [power] at exact
  constructor
  · refine lt_of_mul_lt_mul_right ?_ scalePositive.le
    rw [exact]
    linarith
  · refine le_of_mul_le_mul_right ?_ positive
    have least := mul_le_mul_of_nonneg_left atLeast (by linarith : 0 ≤ units)
    rw [exact] at least
    linarith

/-- Two decimals of one digit round to the same value on different sides only if the value is one of
the two smallest; then the power of ten is the nearer one. -/
theorem power_nearer {value : Binary64} {grid : Nat} {other : ℚ} (positive : 0 < value.toRat)
    (finite : value.isFinite = true) (below : value.toRat < gridPoint grid 1)
    (rounds : Rounds (gridPoint grid 1) value) (nonneg : 0 ≤ other)
    (small : 10 * other ≤ 9 * gridPoint grid 1) (otherRounds : Rounds other value) :
    |gridPoint grid 1 - value.toRat| ≤ |other - value.toRat| := by
  obtain ⟨few, finest⟩ := units_lt_of_wide finite otherRounds rounds nonneg small below
  have near := abs_le.mp (rounds.near (gridPoint_nonneg grid 1) finite)
  have scale : (0 : ℚ) < 2 ^ 1074 := pow_pos two_pos _
  rw [abs_sub_comm, abs_toRat_sub, abs_sub_comm other, abs_toRat_sub,
    div_le_div_iff_of_pos_right scale]
  rw [toRat_eq_units, div_lt_iff₀ scale] at below
  rw [toRat_eq_units, div_pos_iff_of_pos_right scale] at positive
  have small : 10 * (other * 2 ^ 1074) ≤ 9 * (gridPoint grid 1 * 2 ^ 1074) := by
    rw [← mul_assoc, ← mul_assoc]
    exact mul_le_mul_of_nonneg_right small scale.le
  have power := units_of_power grid
  rw [finest] at near
  generalize gridPoint grid 1 * 2 ^ 1074 = high at *
  generalize other * 2 ^ 1074 = low at *
  generalize value.units = units at *
  have one : (1 : ℚ) ≤ units := by exact_mod_cast positive
  have nine : (units : ℚ) ≤ 9 := by exact_mod_cast Nat.le_of_lt_succ few
  rw [Nat.cast_one] at near
  obtain ⟨more, less⟩ := power (by linarith) (by linarith)
  -- More than two units and at most 100 / 49 of them are left to the power: the value is two units.
  have two : units = 2 := by
    have above : (1 : ℚ) < units := by linarith
    have below : (units : ℚ) < 3 := by linarith
    have above : 1 < units := by exact_mod_cast above
    have below : units < 3 := by exact_mod_cast below
    omega
  rw [two, Nat.cast_ofNat] at near ⊢
  rw [abs_of_nonpos (by linarith), abs_of_nonneg (by linarith)]
  linarith

section FirstHit

variable {value : Binary64} {coarsest grid multiple : Nat}
  (hit : FirstHit value coarsest grid multiple)
include hit

/-- A decimal of one digit on a finer grid is farther from the value than the power of ten that the
grid starts with. -/
theorem FirstHit.nearest_of_digit (positive : 0 < value.toRat) (finite : value.isFinite = true)
    {number : Decimal} (fits : number.coefficient < 10)
    (finer : number.exponent < (grid : ℤ) - 1074) (rounds : Rounds number.value value) :
    |gridPoint grid multiple - value.toRat| ≤ |number.value - value.toRat| := by
  have small : 10 * number.value ≤ 9 * gridPoint grid 1 := by
    have most : (number.coefficient : ℚ) ≤ 9 := by exact_mod_cast Nat.le_of_lt_succ fits
    have shift : (10 : ℚ) * 10 ^ number.exponent = 10 ^ (number.exponent + 1) := by
      rw [zpow_add₀ (by norm_num), zpow_one, mul_comm]
    rw [Decimal.value, gridPoint, Nat.cast_one, one_mul, mul_left_comm, shift]
    exact mul_le_mul most (zpow_le_zpow_right₀ (by norm_num) (by omega)) (ten_zpow_pos _).le
      (by norm_num)
  have less : number.value < gridPoint grid 1 := by
    have power : 0 < gridPoint grid 1 := mul_pos (by norm_num) (ten_zpow_pos _)
    linarith
  rcases lt_or_ge value.toRat (gridPoint grid 1) with below | above
  · have power := value.rounds_toRat.between hit.rounds (gridPoint_nonneg grid 1) below.le
      (gridPoint_le grid (hit.multiple_pos positive))
    exact (hit.nearest 1 power).trans
      (power_nearer positive finite below power (value_nonneg number) small rounds)
  · have power := rounds.between value.rounds_toRat (gridPoint_nonneg grid 1) less.le above
    exact (hit.nearest 1 power).trans
      (Set.abs_sub_left_of_mem_uIcc (Set.mem_uIcc_of_ge less.le above))

theorem FirstHit.isShortest_of_digit (positive : 0 < value.toRat) (finite : value.isFinite = true)
    (fits : FitsIn 1 (gridPoint grid multiple)) :
    IsShortest value (gridPoint grid multiple) 1 := by
  refine ⟨hit.rounds, fits, ?_, ?_⟩
  · intro fewer less other fits rounds
    obtain ⟨number, fits, rfl⟩ := fits
    obtain rfl : fewer = 0 := by omega
    have zero : number.value = 0 := by
      rw [Decimal.value, Nat.lt_one_iff.mp fits, Nat.cast_zero, zero_mul]
    rw [zero] at rounds
    exact not_rounds_zero positive rounds
  · intro other fits rounds
    obtain ⟨number, fits, rfl⟩ := fits
    rcases lt_or_ge number.exponent ((grid : ℤ) - 1074) with finer | coarser
    · exact hit.nearest_of_digit positive finite fits finer rounds
    · obtain ⟨shift, split⟩ := Int.le.dest coarser
      rw [value_eq_gridPoint split.symm] at rounds ⊢
      exact hit.nearest _ rounds

/-- The search may begin on any grid whose tenth point is above the value. -/
theorem FirstHit.exists_isShortest (positive : 0 < value.toRat) (finite : value.isFinite = true)
    (bound : value.toRat < gridPoint coarsest 10) :
    ∃ digits, IsShortest value (gridPoint grid multiple) digits := by
  rcases Nat.lt_or_ge multiple 10 with short | long
  · exact ⟨1, hit.isShortest_of_digit positive finite (fitsIn_gridPoint grid short)⟩
  · rcases Nat.lt_or_eq_of_le hit.le with finer | rfl
    · exact ⟨_, hit.isShortest_of_finer finer long⟩
    · have tenth := value.rounds_toRat.between hit.rounds (gridPoint_nonneg grid 10) bound.le
        (gridPoint_le grid long)
      have nearest := hit.nearest 10 tenth
      have farther := gridPoint_le grid long
      rw [abs_of_nonneg (by linarith), abs_of_nonneg (by linarith)] at nearest
      have same : gridPoint grid multiple = gridPoint (grid + 1) 1 := by
        rw [gridPoint_add, Nat.pow_one, Nat.one_mul]
        linarith
      refine ⟨1, hit.isShortest_of_digit positive finite ?_⟩
      rw [same]
      exact fitsIn_gridPoint (grid + 1) (by decide)

end FirstHit

private theorem lt_ten_pow (number : Nat) :
    number < 10 ^ ((number.log2 + 1) * 28 / 93 + 1) := by
  have less : number < 2 ^ (number.log2 + 1) := Nat.lt_log2_self
  generalize number.log2 + 1 = length at *
  refine less.trans (lt_of_pow_lt_pow_left₀ 93 (Nat.zero_le _) ?_)
  calc (2 ^ length) ^ 93 = (2 ^ 93) ^ length := pow_right_comm 2 length 93
    _ ≤ (10 ^ 28) ^ length := Nat.pow_le_pow_left (by norm_num) length
    _ = 10 ^ (28 * length) := (pow_mul 10 28 length).symm
    _ < 10 ^ ((length * 28 / 93 + 1) * 93) := Nat.pow_lt_pow_right (by norm_num) (by omega)
    _ = (10 ^ (length * 28 / 93 + 1)) ^ 93 := pow_mul 10 _ 93

theorem toRat_lt_coarsest (value : Binary64) :
    value.toRat < gridPoint value.coarsestGrid 10 := by
  rw [toRat_eq_grains, gridPoint_eq_div, coarsestGrid]
  refine div_lt_div_of_pos_right ?_ (pow_pos (by norm_num) _)
  generalize value.grains = grains
  have less := lt_ten_pow grains
  rw [Nat.pow_succ'] at less
  exact_mod_cast less

theorem exists_isShortest {value : Binary64} (positive : 0 < value.toRat)
    (finite : value.isFinite = true) :
    ∃ digits, IsShortest value value.shortest.value digits := by
  obtain ⟨grid, multiple, found, hit⟩ := value.exists_firstHit
  rw [found]
  exact hit.exists_isShortest positive finite value.toRat_lt_coarsest

end Lox.Binary64
