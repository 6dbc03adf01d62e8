import Lox.Lexing.Basic

/-!
# Comparing lexings

How two source texts differ to a reader of their tokens and errors.
-/

set_option autoImplicit false

namespace Lox

/-- The indices at which two lists do not hold the same item. An index that one list has and the
other has not is among them. -/
def differingIndices {Item : Type} [DecidableEq Item] (left right : List Item) : List Nat :=
  let left := left.toArray
  let right := right.toArray
  (List.range (max left.size right.size)).filter fun index => left[index]? ≠ right[index]?

namespace Lexing

def sameKinds (left right : Lexing) : Bool :=
  left.tokens.map Token.kind == right.tokens.map Token.kind

def sameTokens (left right : Lexing) : Bool :=
  -- kinds and lexemes settle the literals
  left.tokens == right.tokens

def sameErrors (left right : Lexing) : Bool :=
  left.errors == right.errors

end Lexing

end Lox
