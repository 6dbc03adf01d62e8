import Lox.Number.Shortest
import Lox.Proofs.Rounding
import Mathlib.Algebra.Order.Field.Power
import Mathlib.Algebra.Order.Group.Pointwise.Interval

/-!
# The search for a decimal

For each power of ten, from a coarsest one down, the two neighbours of a value on its grid are tried.
Decimals that round to a value form an interval around it, so a grid on which no neighbour rounds to
the value has no point at all that does.
-/

set_option autoImplicit false

namespace Lox.Binary64

/-! ## The search -/

/-- A grid is missed when neither neighbour reads back, and where it is hit, the neighbour that is
not taken does not read back or is no nearer. -/
theorem onGrid?_cases (readsBack : Nat → Bool) (exact grid : Nat) :
    (onGrid? readsBack exact grid = none ∧
        ¬ readsBack (exact / Nat.pow 10 grid * Nat.pow 10 grid) = true ∧
        ¬ readsBack ((exact / Nat.pow 10 grid + 1) * Nat.pow 10 grid) = true) ∨
      (onGrid? readsBack exact grid = some (exact / Nat.pow 10 grid) ∧
        readsBack (exact / Nat.pow 10 grid * Nat.pow 10 grid) = true ∧
        (readsBack ((exact / Nat.pow 10 grid + 1) * Nat.pow 10 grid) = true →
          2 * (exact % Nat.pow 10 grid) ≤ Nat.pow 10 grid)) ∨
      (onGrid? readsBack exact grid = some (exact / Nat.pow 10 grid + 1) ∧
        readsBack ((exact / Nat.pow 10 grid + 1) * Nat.pow 10 grid) = true ∧
        (readsBack (exact / Nat.pow 10 grid * Nat.pow 10 grid) = true →
          Nat.pow 10 grid ≤ 2 * (exact % Nat.pow 10 grid))) := by
  rw [onGrid?]
  split
  · next below above =>
    by_cases less : 2 * (exact % Nat.pow 10 grid) < Nat.pow 10 grid
    · rw [if_pos less]
      exact .inr (.inl ⟨rfl, below, fun _ => less.le⟩)
    · rw [if_neg less]
      exact .inr (.inr ⟨rfl, above, fun _ => Nat.not_lt.mp less⟩)
  · next below above =>
    exact .inr (.inl ⟨rfl, below, fun too => absurd too (ne_true_of_eq_false above)⟩)
  · next below above =>
    exact .inr (.inr ⟨rfl, above, fun too => absurd too (ne_true_of_eq_false below)⟩)
  · next below above =>
    exact .inl ⟨rfl, ne_true_of_eq_false below, ne_true_of_eq_false above⟩

theorem firstOnGrids_cases (hit? : Nat → Option Nat) (exact coarsest : Nat) :
    ∃ grid multiple : Nat, firstOnGrids hit? exact coarsest = ⟨multiple, (grid : ℤ) - 1074⟩ ∧
      grid ≤ coarsest ∧ (∀ other, grid < other → other ≤ coarsest → hit? other = none) ∧
      ((grid = 0 ∧ multiple = exact) ∨ hit? grid = some multiple) := by
  induction coarsest with
  | zero => exact ⟨0, exact, rfl, le_rfl, fun other more none => by omega, .inl ⟨rfl, rfl⟩⟩
  | succ coarsest ih =>
    rw [firstOnGrids]
    cases taken : hit? (coarsest + 1) with
    | some multiple =>
      exact ⟨coarsest + 1, multiple, rfl, le_rfl, fun other more most => by omega, .inr taken⟩
    | none =>
      obtain ⟨grid, multiple, found, le, missed, hit⟩ := ih
      refine ⟨grid, multiple, found, Nat.le_succ_of_le le, fun other more most => ?_, hit⟩
      rcases Nat.lt_or_eq_of_le most with less | last
      · exact missed other more (Nat.le_of_lt_succ less)
      · exact last ▸ taken

/-! ## Grids -/

def gridPoint (grid multiple : Nat) : ℚ :=
  multiple * 10 ^ ((grid : ℤ) - 1074)

theorem gridPoint_le (grid : Nat) {left right : Nat} (le : left ≤ right) :
    gridPoint grid left ≤ gridPoint grid right :=
  mul_le_mul_of_nonneg_right (by exact_mod_cast le) (zpow_pos (by norm_num) _).le

theorem gridPoint_nonneg (grid multiple : Nat) : 0 ≤ gridPoint grid multiple :=
  mul_nonneg (Nat.cast_nonneg _) (zpow_pos (by norm_num) _).le

theorem gridPoint_add (grid coarser multiple : Nat) :
    gridPoint (grid + coarser) multiple = gridPoint grid (multiple * 10 ^ coarser) := by
  rw [gridPoint, gridPoint, Nat.cast_mul, Nat.cast_pow, Nat.cast_ofNat, mul_assoc, ← zpow_natCast,
    ← zpow_add₀ (by norm_num)]
  congr 2
  push_cast
  ring

theorem gridPoint_eq_div (grid multiple : Nat) :
    gridPoint grid multiple = (multiple * Nat.pow 10 grid : Nat) / 10 ^ 1074 := by
  have scale : (10 : ℚ) ^ ((grid : ℤ) - 1074) = 10 ^ grid / 10 ^ 1074 := by
    rw [zpow_sub₀ (by norm_num), zpow_natCast]
    norm_cast
  rw [gridPoint, scale, Nat.pow_eq, Nat.cast_mul, Nat.cast_pow, Nat.cast_ofNat, mul_div_assoc]

theorem cast_grainsPerOne : (grainsPerOne : ℚ) = 10 ^ 1074 := by
  unfold grainsPerOne
  generalize 1074 = exponent
  rw [Nat.pow_eq, Nat.cast_pow, Nat.cast_ofNat]

theorem toRat_eq_grains (value : Binary64) : value.toRat = value.grains / 10 ^ 1074 := by
  rw [toRat_eq_units, grains]
  generalize 1074 = exponent
  have two : (2 : ℚ) ^ exponent ≠ 0 := pow_ne_zero _ two_ne_zero
  have ten : (10 : ℚ) ^ exponent = 2 ^ exponent * 5 ^ exponent := by
    rw [← mul_pow]
    norm_num
  rw [Nat.pow_eq, Nat.cast_mul, Nat.cast_pow, Nat.cast_ofNat, ten,
    mul_div_mul_right _ _ (pow_ne_zero _ (by norm_num))]

variable {value : Binary64} {grid : Nat}

theorem isReadFrom_iff {multiple : Nat} :
    value.isReadFrom (multiple * Nat.pow 10 grid) = true ↔
      Rounds (gridPoint grid multiple) value := by
  have positive : 0 < grainsPerOne := by
    have positive : (0 : ℚ) < grainsPerOne := cast_grainsPerOne ▸ pow_pos (by norm_num) _
    exact_mod_cast positive
  rw [isReadFrom, beq_iff_eq, gridPoint_eq_div, ← cast_grainsPerOne, rounds_iff_ofRatio_eq positive]

/-! ## The neighbours on a grid -/

theorem gridPoint_below_le : gridPoint grid (value.grains / Nat.pow 10 grid) ≤ value.toRat := by
  rw [gridPoint_eq_div, toRat_eq_grains]
  exact div_le_div_of_nonneg_right (by exact_mod_cast Nat.div_mul_le_self _ _)
    (pow_pos (by norm_num) _).le

theorem lt_gridPoint_above :
    value.toRat < gridPoint grid (value.grains / Nat.pow 10 grid + 1) := by
  rw [gridPoint_eq_div, toRat_eq_grains]
  refine div_lt_div_of_pos_right ?_ (pow_pos (by norm_num) _)
  rw [Nat.mul_comm]
  exact_mod_cast Nat.lt_mul_div_succ value.grains (Nat.pow_pos (by decide))

/-- The remainder tells on which side of the middle between its neighbours a value is. -/
theorem two_mul_toRat (value : Binary64) (grid : Nat) :
    2 * value.toRat = gridPoint grid (value.grains / Nat.pow 10 grid) +
      gridPoint grid (value.grains / Nat.pow 10 grid + 1) +
      (2 * (value.grains % Nat.pow 10 grid : Nat) - (Nat.pow 10 grid : Nat)) / 10 ^ 1074 := by
  rw [gridPoint_eq_div, gridPoint_eq_div, toRat_eq_grains]
  generalize value.grains = grains
  generalize (10 : ℚ) ^ 1074 = scale
  have split : (grains : ℚ) =
      (Nat.pow 10 grid : Nat) * (grains / Nat.pow 10 grid : Nat) + (grains % Nat.pow 10 grid : Nat) := by
    exact_mod_cast (Nat.div_add_mod grains (Nat.pow 10 grid)).symm
  rw [split]
  push_cast
  ring

theorem two_mul_toRat_le
    (small : 2 * (value.grains % Nat.pow 10 grid) ≤ Nat.pow 10 grid) :
    2 * value.toRat ≤ gridPoint grid (value.grains / Nat.pow 10 grid) +
      gridPoint grid (value.grains / Nat.pow 10 grid + 1) := by
  rw [two_mul_toRat value grid, add_le_iff_nonpos_right]
  refine div_nonpos_of_nonpos_of_nonneg (sub_nonpos.mpr ?_) (pow_pos (by norm_num) _).le
  exact_mod_cast small

theorem le_two_mul_toRat
    (large : Nat.pow 10 grid ≤ 2 * (value.grains % Nat.pow 10 grid)) :
    gridPoint grid (value.grains / Nat.pow 10 grid) +
      gridPoint grid (value.grains / Nat.pow 10 grid + 1) ≤ 2 * value.toRat := by
  rw [two_mul_toRat value grid, le_add_iff_nonneg_right]
  refine div_nonneg (sub_nonneg.mpr ?_) (pow_pos (by norm_num) _).le
  exact_mod_cast large

/-- Where a point of a grid rounds to a value, a neighbour of the value does that is no farther. -/
theorem Rounds.neighbour {multiple : Nat} (rounds : Rounds (gridPoint grid multiple) value) :
    (Rounds (gridPoint grid (value.grains / Nat.pow 10 grid)) value ∧
        multiple ≤ value.grains / Nat.pow 10 grid) ∨
      (Rounds (gridPoint grid (value.grains / Nat.pow 10 grid + 1)) value ∧
        value.grains / Nat.pow 10 grid + 1 ≤ multiple) := by
  rcases Nat.lt_or_ge (value.grains / Nat.pow 10 grid) multiple with above | below
  · exact .inr ⟨value.rounds_toRat.between rounds (gridPoint_nonneg _ _) lt_gridPoint_above.le
      (gridPoint_le grid above), above⟩
  · exact .inl ⟨rounds.between value.rounds_toRat (gridPoint_nonneg _ _) (gridPoint_le grid below)
      gridPoint_below_le, below⟩

theorem below_nearer {multiple : Nat} (below : multiple ≤ value.grains / Nat.pow 10 grid) :
    |gridPoint grid (value.grains / Nat.pow 10 grid) - value.toRat| ≤
      |gridPoint grid multiple - value.toRat| :=
  Set.abs_sub_left_of_mem_uIcc (Set.mem_uIcc_of_ge (gridPoint_le grid below) gridPoint_below_le)

theorem above_nearer {multiple : Nat} (above : value.grains / Nat.pow 10 grid + 1 ≤ multiple) :
    |gridPoint grid (value.grains / Nat.pow 10 grid + 1) - value.toRat| ≤
      |gridPoint grid multiple - value.toRat| :=
  Set.abs_sub_left_of_mem_uIcc (Set.mem_uIcc_of_le lt_gridPoint_above.le (gridPoint_le grid above))

/-- A point of a grid that rounds to the value, and no farther from it than any other that does. -/
structure Nearest (value : Binary64) (grid multiple : Nat) : Prop where
  rounds : Rounds (gridPoint grid multiple) value
  nearest : ∀ other : Nat, Rounds (gridPoint grid other) value →
    |gridPoint grid multiple - value.toRat| ≤ |gridPoint grid other - value.toRat|

theorem not_rounds_of_onGrid?_eq_none
    (miss : onGrid? value.isReadFrom value.grains grid = none) (multiple : Nat) :
    ¬ Rounds (gridPoint grid multiple) value := by
  intro rounds
  rcases onGrid?_cases value.isReadFrom value.grains grid with
    ⟨-, notBelow, notAbove⟩ | ⟨hit, -⟩ | ⟨hit, -⟩
  · rcases rounds.neighbour with ⟨below, -⟩ | ⟨above, -⟩
    · exact notBelow (isReadFrom_iff.mpr below)
    · exact notAbove (isReadFrom_iff.mpr above)
  · exact nomatch miss.symm.trans hit
  · exact nomatch miss.symm.trans hit

theorem nearest_of_onGrid?_eq_some {multiple : Nat}
    (hit : onGrid? value.isReadFrom value.grains grid = some multiple) :
    Nearest value grid multiple := by
  have apart : gridPoint grid (value.grains / Nat.pow 10 grid) <
      gridPoint grid (value.grains / Nat.pow 10 grid + 1) :=
    gridPoint_below_le.trans_lt lt_gridPoint_above
  rcases onGrid?_cases value.isReadFrom value.grains grid with
    ⟨miss, -⟩ | ⟨taken, below, nearer⟩ | ⟨taken, above, nearer⟩
  · exact nomatch miss.symm.trans hit
  · obtain rfl := Option.some.inj (taken.symm.trans hit)
    refine ⟨isReadFrom_iff.mp below, fun other rounds => ?_⟩
    rcases rounds.neighbour with ⟨-, otherBelow⟩ | ⟨above, otherAbove⟩
    · exact below_nearer otherBelow
    · have compare := two_mul_toRat_le (nearer (isReadFrom_iff.mpr above))
      exact ((low_nearer_iff apart).mpr compare).trans (above_nearer otherAbove)
  · obtain rfl := Option.some.inj (taken.symm.trans hit)
    refine ⟨isReadFrom_iff.mp above, fun other rounds => ?_⟩
    rcases rounds.neighbour with ⟨below, otherBelow⟩ | ⟨-, otherAbove⟩
    · have compare := le_two_mul_toRat (nearer (isReadFrom_iff.mpr below))
      exact ((high_nearer_iff apart).mpr compare).trans (below_nearer otherBelow)
    · exact above_nearer otherAbove

/-! ## The end of the search -/

/-- Where the search for a decimal ends that begins on a coarsest grid. -/
structure FirstHit (value : Binary64) (coarsest grid multiple : Nat) : Prop
    extends Nearest value grid multiple where
  le : grid ≤ coarsest
  coarser : ∀ other, grid < other → other ≤ coarsest →
    ∀ multiple, ¬ Rounds (gridPoint other multiple) value

theorem nearest_grains (value : Binary64) : Nearest value 0 value.grains := by
  have exact : gridPoint 0 value.grains = value.toRat := by
    rw [gridPoint_eq_div, toRat_eq_grains, Nat.pow_eq, Nat.pow_zero, Nat.mul_one]
  refine ⟨exact ▸ value.rounds_toRat, fun other _ => ?_⟩
  rw [exact, sub_self, abs_zero]
  exact abs_nonneg _

theorem exists_firstHit (value : Binary64) :
    ∃ grid multiple : Nat, value.shortest = ⟨multiple, (grid : ℤ) - 1074⟩ ∧
      FirstHit value value.coarsestGrid grid multiple := by
  obtain ⟨grid, multiple, found, le, missed, hit⟩ := firstOnGrids_cases
    (onGrid? value.isReadFrom value.grains) value.grains value.coarsestGrid
  have search : value.shortest = ⟨multiple, (grid : ℤ) - 1074⟩ := by
    unfold shortest
    exact found
  refine ⟨grid, multiple, search, ⟨?_, le, ?_⟩⟩
  · rcases hit with ⟨finest, itself⟩ | hit
    · rw [finest, itself]
      exact value.nearest_grains
    · exact nearest_of_onGrid?_eq_some hit
  · intro other more most
    exact not_rounds_of_onGrid?_eq_none (missed other more most)

end Lox.Binary64
