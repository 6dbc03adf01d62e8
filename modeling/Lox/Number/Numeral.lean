import Lox.Alphabet
import Lox.Number.Binary64

/-!
# Numerals

A numeral is written as digits with at most one inner point: `12`, `0.5`, `007.250`. It stands for
an exact rational, which `Numeral.toBinary64` rounds.
-/

set_option autoImplicit false

namespace Lox

/-- The rational `coefficient / 10 ^ places`. -/
structure Numeral where
  coefficient : Nat
  places : Nat
  deriving DecidableEq

namespace Numeral

/-- Divides a text after the longest numeral at its front. A point belongs to the numeral only if
a digit stands on both sides of it. -/
def split (text : List Char) : List Char × List Char :=
  let whole := text.takeWhile isDigit
  match text.dropWhile isDigit with
  | '.' :: digit :: rest =>
      if isDigit digit then
        (whole ++ '.' :: digit :: rest.takeWhile isDigit, rest.dropWhile isDigit)
      else
        (whole, '.' :: digit :: rest)
  | rest => (whole, rest)

def ofLexeme (lexeme : List Char) : Numeral :=
  let whole := lexeme.takeWhile isDigit
  let fraction := (lexeme.dropWhile isDigit).drop 1
  ⟨Nat.ofDigitChars 10 (whole ++ fraction) 0, fraction.length⟩

def toBinary64 (numeral : Numeral) : Binary64 :=
  Binary64.ofRatio numeral.coefficient (Nat.pow 10 numeral.places)

theorem split_append (text : List Char) : (split text).1 ++ (split text).2 = text := by
  have parts := List.takeWhile_append_dropWhile (p := isDigit) (l := text)
  rw [split]
  split
  · next digit rest shape =>
    split
    · simp only [List.append_assoc, List.cons_append, List.takeWhile_append_dropWhile]
      rw [← shape, parts]
    · rw [← shape, parts]
  · exact parts

theorem split_fst_ne_nil {first : Char} {rest : List Char} (digit : isDigit first = true) :
    (split (first :: rest)).1 ≠ [] := by
  rw [split]
  split
  · split <;> simp [digit]
  · simp [digit]

end Numeral

end Lox
