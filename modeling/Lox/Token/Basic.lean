import Lox.Number.Numeral
import Lox.Number.Shortest
import Lox.Token.Kind

/-!
# Tokens

A token is a category, the exact text it was written with and a line. What a string or a number
stands for follows from its text, and `Token.listing` is the line that shows a token.
-/

set_option autoImplicit false

namespace Lox

inductive Literal where
  | number (value : Binary64)
  | string (value : String)
  deriving DecidableEq

def Literal.text : Literal → String
  | number value => String.ofList value.text
  | string value => value

/-- A token. Its lexeme is the exact source text, empty only at the end of the source. -/
structure Token where
  kind : TokenKind
  lexeme : String
  line : Nat
  deriving DecidableEq

namespace Token

/-- What a string or number token stands for: the text between the quotes, or the binary64 value
nearest to the numeral. No other token has a literal. -/
def literal (token : Token) : Option Literal :=
  match token.kind with
  | .string => some (.string (String.ofList token.lexeme.toList.tail.dropLast))
  | .number => some (.number (Numeral.ofLexeme token.lexeme.toList).toBinary64)
  | _ => none

def listing (token : Token) : String :=
  let literal :=
    match token.literal with
    | some literal => literal.text
    | none => "null"
  token.kind.name ++ " " ++ token.lexeme ++ " " ++ literal

def endOfSource (line : Nat) : Token :=
  ⟨.eof, "", line⟩

end Token

end Lox
