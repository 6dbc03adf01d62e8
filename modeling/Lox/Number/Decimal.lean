/-!
# Decimals

Decimal numbers and their two written forms: plain, with a point among the digits (`0.25`, `100.0`),
and scientific, with one digit before the point and an exponent (`1.5e-7`, `1e16`).
-/

set_option autoImplicit false

namespace Lox

/-- The number `coefficient * 10 ^ exponent`. -/
structure Decimal where
  coefficient : Nat
  exponent : Int
  deriving DecidableEq

namespace Decimal

def digits (number : Decimal) : List Char :=
  -- without the zeros at the end two ways of holding a number differ in no digit
  ((Nat.toDigits 10 number.coefficient).reverse.dropWhile (· == '0')).reverse

/-- Where the point stands, counted in digits from the first digit. -/
def point (number : Decimal) : Int :=
  (Nat.toDigits 10 number.coefficient).length + number.exponent

def plain (number : Decimal) : List Char :=
  let digits := number.digits
  if number.point ≤ 0 then
    '0' :: '.' :: (List.replicate (-number.point).toNat '0' ++ digits)
  else
    let place := number.point.toNat
    if place < digits.length then digits.take place ++ '.' :: digits.drop place
    else digits ++ List.replicate (place - digits.length) '0' ++ ['.', '0']

def exponentText (exponent : Int) : List Char :=
  if exponent < 0 then '-' :: Nat.toDigits 10 exponent.natAbs
  else Nat.toDigits 10 exponent.natAbs

def scientific (number : Decimal) : List Char :=
  let mantissa :=
    match number.digits with
    | first :: second :: rest => first :: '.' :: second :: rest
    -- a single digit is written without a point
    | short => short
  mantissa ++ 'e' :: exponentText (number.point - 1)

end Decimal

end Lox
