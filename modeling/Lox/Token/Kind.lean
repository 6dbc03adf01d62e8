/-!
# Token kinds

The closed set of lexical categories: marks, operators, reserved words, the three open classes
(identifiers, strings, numbers) and the end of the source. `TokenKind.ofWord` decides which words
are reserved.
-/

set_option autoImplicit false

namespace Lox

inductive Keyword where
  | andWord | classWord | elseWord | falseWord | funWord | forWord | ifWord | nilWord
  | orWord | printWord | returnWord | superWord | thisWord | trueWord | varWord | whileWord
  deriving DecidableEq

namespace Keyword

def all : List Keyword :=
  [andWord, classWord, elseWord, falseWord, funWord, forWord, ifWord, nilWord,
    orWord, printWord, returnWord, superWord, thisWord, trueWord, varWord, whileWord]

/-- The one way to write a reserved word; another case is an ordinary identifier. -/
def spelling : Keyword → List Char
  | andWord => ['a', 'n', 'd']
  | classWord => ['c', 'l', 'a', 's', 's']
  | elseWord => ['e', 'l', 's', 'e']
  | falseWord => ['f', 'a', 'l', 's', 'e']
  | funWord => ['f', 'u', 'n']
  | forWord => ['f', 'o', 'r']
  | ifWord => ['i', 'f']
  | nilWord => ['n', 'i', 'l']
  | orWord => ['o', 'r']
  | printWord => ['p', 'r', 'i', 'n', 't']
  | returnWord => ['r', 'e', 't', 'u', 'r', 'n']
  | superWord => ['s', 'u', 'p', 'e', 'r']
  | thisWord => ['t', 'h', 'i', 's']
  | trueWord => ['t', 'r', 'u', 'e']
  | varWord => ['v', 'a', 'r']
  | whileWord => ['w', 'h', 'i', 'l', 'e']

def ofSpelling? (text : List Char) : Option Keyword :=
  all.find? (·.spelling == text)

theorem mem_all (word : Keyword) : word ∈ all := by
  cases word <;> decide

theorem ofSpelling?_eq_some_iff {text : List Char} {word : Keyword} :
    ofSpelling? text = some word ↔ word.spelling = text := by
  constructor
  · intro found
    simpa using List.find?_some found
  · rintro rfl
    cases word <;> decide

end Keyword

inductive TokenKind where
  -- marks of one character
  | leftParen | rightParen | leftBrace | rightBrace
  | comma | dot | minus | plus | semicolon | slash | star
  -- operators of one or two characters
  | bang | bangEqual | equal | equalEqual
  | greater | greaterEqual | less | lessEqual
  -- words and literals
  | keyword (word : Keyword)
  | identifier | string | number
  -- the end of the source
  | eof
  deriving DecidableEq

namespace TokenKind

/-- The name under which a kind is listed. A reserved word is listed by its spelling in capitals. -/
def name : TokenKind → String
  | leftParen => "LEFT_PAREN"
  | rightParen => "RIGHT_PAREN"
  | leftBrace => "LEFT_BRACE"
  | rightBrace => "RIGHT_BRACE"
  | comma => "COMMA"
  | dot => "DOT"
  | minus => "MINUS"
  | plus => "PLUS"
  | semicolon => "SEMICOLON"
  | slash => "SLASH"
  | star => "STAR"
  | bang => "BANG"
  | bangEqual => "BANG_EQUAL"
  | equal => "EQUAL"
  | equalEqual => "EQUAL_EQUAL"
  | greater => "GREATER"
  | greaterEqual => "GREATER_EQUAL"
  | less => "LESS"
  | lessEqual => "LESS_EQUAL"
  | keyword word => String.ofList (word.spelling.map Char.toUpper)
  | identifier => "IDENTIFIER"
  | string => "STRING"
  | number => "NUMBER"
  | eof => "EOF"

def ofWord (text : List Char) : TokenKind :=
  match Keyword.ofSpelling? text with
  | some word => keyword word
  | none => identifier

theorem ofWord_eq_keyword_iff {text : List Char} {word : Keyword} :
    ofWord text = keyword word ↔ word.spelling = text := by
  rw [← Keyword.ofSpelling?_eq_some_iff, ofWord]
  cases Keyword.ofSpelling? text <;> simp

end TokenKind

end Lox
