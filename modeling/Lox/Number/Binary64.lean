/-!
# Binary64 numbers

The non-negative values of the IEEE 754 binary64 format, infinity included, and the one rounding
rule of the library: a rational goes to the nearest value and a tie goes to the even significand.

Every finite value is a whole number of *units* of `2 ^ -1074`, so that all comparisons of values
are comparisons of natural numbers.
-/

set_option autoImplicit false

namespace Lox

def infinityBits : Nat :=
  -- all bits of the exponent set, and none of the fraction
  0x7FF0000000000000

/-- A non-negative binary64 value, as its bit pattern. Larger values have larger patterns. -/
structure Binary64 where
  bits : Nat
  bits_le : bits ≤ infinityBits
  deriving DecidableEq

/-- The whole number nearest to `numerator / denominator`, of two equally near ones the even
one. -/
def roundDiv (numerator denominator : Nat) : Nat :=
  let quotient := numerator / denominator
  let twice := 2 * (numerator % denominator)
  if twice < denominator ∨ (twice = denominator ∧ quotient % 2 = 0) then quotient
  else quotient + 1

namespace Binary64

def unitsPerOne : Nat :=
  Nat.pow 2 1074

def binade : Nat :=
  -- so many bit patterns share an exponent
  0x10000000000000

def infinity : Binary64 :=
  ⟨infinityBits, Nat.le_refl _⟩

def isFinite (value : Binary64) : Bool :=
  value.bits != infinityBits

/-- The binary64 value nearest to `numerator / denominator`, for a positive denominator. The
spacing is `2 ^ shift` units, the finest one that leaves the significand at most 53 bits; a
significand that rounds up to `2 ^ 53` carries into the exponent, and a pattern that is carried to
infinity or past it is infinity. -/
def ofRatio (numerator denominator : Nat) : Binary64 :=
  let scaled := numerator * unitsPerOne
  let shift := (scaled / denominator).log2 - 52
  let significand := roundDiv scaled (denominator * Nat.pow 2 shift)
  ⟨min (shift * binade + significand) infinityBits, Nat.min_le_right _ _⟩

/-- The exponent of the spacing at a value, in units: it is 0 for the subnormal values and for the
first binade of the normal ones. -/
def shift (value : Binary64) : Nat :=
  value.bits / binade - 1

def units (value : Binary64) : Nat :=
  (value.bits - value.shift * binade) * Nat.pow 2 value.shift

end Binary64

end Lox
