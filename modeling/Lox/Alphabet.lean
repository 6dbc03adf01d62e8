/-!
# Alphabet

The classes of characters in which the lexical grammar of Lox is written. Digits and letters are
the ASCII ones alone; any other character is at home only inside a string or a comment.
-/

set_option autoImplicit false

namespace Lox

def isDigit (c : Char) : Bool :=
  c.isDigit

def isLetter (c : Char) : Bool :=
  c.isAlpha || c == '_'

def isWordChar (c : Char) : Bool :=
  isLetter c || isDigit c

/-- The characters that separate without meaning anything: space, tab, carriage return and
line feed. -/
def isBlank (c : Char) : Bool :=
  c == ' ' || c == '\t' || c == '\r' || c == '\n'

end Lox
