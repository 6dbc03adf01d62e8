import Lox.Number.Binary64
import Lox.Number.Decimal

/-!
# Shortest texts

A binary64 value is written with the fewest digits that read back to it and, of the decimals with
that many digits, as the one nearest to it.

Every binary64 value and every decimal that matters is a whole number of *grains* of `10 ^ -1074`.
For each power of ten, from the coarsest down, the two neighbours of the value on the grid of that
power are the only decimals that need to be tried.
-/

set_option autoImplicit false

namespace Lox

namespace Binary64

def grainsPerOne : Nat :=
  Nat.pow 10 1074

/-- A finite value in grains; a unit of `2 ^ -1074` is `5 ^ 1074` of them. -/
def grains (value : Binary64) : Nat :=
  value.units * Nat.pow 5 1074

def isReadFrom (value : Binary64) (grains : Nat) : Bool :=
  ofRatio grains grainsPerOne == value

/-- The multiple of `10 ^ grid` that is nearest to an exact number, among the two that enclose it and
read back, divided by `10 ^ grid`. Of two that are equally near it is the larger. -/
def onGrid? (readsBack : Nat → Bool) (exact grid : Nat) : Option Nat :=
  let spacing := Nat.pow 10 grid
  let below := exact / spacing
  let above := below + 1
  match readsBack (below * spacing), readsBack (above * spacing) with
  | true, true => some (if 2 * (exact % spacing) < spacing then below else above)
  | true, false => some below
  | false, true => some above
  | false, false => none

/-- The first hit on the grids from `10 ^ grid` grains down to one, on which the exact number
itself lies. -/
def firstOnGrids (hit? : Nat → Option Nat) (exact : Nat) : Nat → Decimal
  | 0 => ⟨exact, -1074⟩
  | grid + 1 =>
      match hit? (grid + 1) with
      | some coefficient => ⟨coefficient, (grid + 1 : Nat) - 1074⟩
      | none => firstOnGrids hit? exact grid

def coarsestGrid (value : Binary64) : Nat :=
  -- the tenth multiple on this grid lies above the value, because `2 ^ 93 < 10 ^ 28`
  (value.grains.log2 + 1) * 28 / 93

/-- The shortest decimal that reads back to a finite value, and of those the nearest one. -/
def shortest (value : Binary64) : Decimal :=
  firstOnGrids (onGrid? value.isReadFrom value.grains) value.grains value.coarsestGrid

def isPlain (value : Binary64) : Bool :=
  -- zero, and all from `10 ^ -4` up to but not including `10 ^ 16`
  value.units == 0 ||
    (decide (unitsPerOne ≤ 10000 * value.units) &&
      decide (value.units < 10000000000000000 * unitsPerOne))

def text (value : Binary64) : List Char :=
  if value.isFinite then
    if value.units = 0 then ['0', '.', '0']
    else if value.isPlain then value.shortest.plain
    else value.shortest.scientific
  else ['i', 'n', 'f']

end Binary64

end Lox
