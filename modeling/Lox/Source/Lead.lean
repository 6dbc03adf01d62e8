import Lox.Alphabet
import Lox.Token.Kind

/-!
# Leading characters

What a piece of source can be is settled by its first character. `Lead` names the possibilities
and `Lead.ofChar` gives the one of each character.
-/

set_option autoImplicit false

namespace Lox

/-- The role of a character at the front of a piece of source. -/
inductive Lead where
  | mark (kind : TokenKind)
  -- an operator that a following equals sign extends
  | operator (alone withEqual : TokenKind)
  -- a division sign or, doubled, the start of a comment
  | slash
  | blank
  | quote
  | digit
  | letter
  | stray
  deriving DecidableEq

namespace Lead

def ofChar (c : Char) : Lead :=
  match c with
  | '(' => .mark .leftParen
  | ')' => .mark .rightParen
  | '{' => .mark .leftBrace
  | '}' => .mark .rightBrace
  | ',' => .mark .comma
  | '.' => .mark .dot
  | '-' => .mark .minus
  | '+' => .mark .plus
  | ';' => .mark .semicolon
  | '*' => .mark .star
  | '!' => .operator .bang .bangEqual
  | '=' => .operator .equal .equalEqual
  | '<' => .operator .less .lessEqual
  | '>' => .operator .greater .greaterEqual
  | '/' => .slash
  | '"' => .quote
  | _ =>
      if isBlank c then .blank
      else if isDigit c then .digit
      else if isLetter c then .letter
      else .stray

theorem ofChar_eq_digit_iff {c : Char} : ofChar c = .digit ↔ isDigit c = true := by
  constructor
  · intro role
    unfold ofChar at role
    split at role <;> grind
  · intro digit
    have notBlank : isBlank c = false := by
      simp only [isBlank, Bool.or_eq_false_iff, beq_eq_false_iff_ne]
      refine ⟨⟨⟨?_, ?_⟩, ?_⟩, ?_⟩ <;> rintro rfl <;> exact absurd digit (by decide)
    unfold ofChar
    split
    case h_17 => simp [notBlank, digit]
    all_goals exact absurd digit (by decide)

end Lead

end Lox
