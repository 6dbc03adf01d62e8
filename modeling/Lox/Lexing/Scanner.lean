import Lox.Lexing.Event
import Lox.Source.Slice

/-!
# A scanner with a cursor

A way to lex in place, without taking the text apart. The scanner keeps its position twice: as an
offset in bytes, at which it cuts lexemes out of the source, and as the characters that are still
to come, of which it takes one at a time. Nothing ties the two together but the way they are moved.
A slice that fails is the end of the whole scan, so that each function that cuts one, or calls one
that does, answers nothing in that case.
-/

set_option autoImplicit false

namespace Lox

/-- A token with the literal that was decoded when it was read. -/
structure Decoded where
  token : Token
  literal : Option Literal
  deriving DecidableEq

def Token.decoded (token : Token) : Decoded :=
  ⟨token, token.literal⟩

structure Scanner where
  source : String
  upcoming : List Char
  tokens : List Decoded
  errors : List LexicalError
  -- what the log has been told
  events : List Event
  -- where the lexeme under way and the next character start, in bytes
  lexemeStart : Nat
  current : Nat
  line : Nat

namespace Scanner

def new (source : String) : Scanner where
  source := source
  upcoming := source.toList
  tokens := []
  errors := []
  events := []
  lexemeStart := 0
  current := 0
  line := 1

/-! ## Looking -/

def isAtEnd (scanner : Scanner) : Bool :=
  scanner.source.utf8ByteSize ≤ scanner.current

def peekOne (scanner : Scanner) : Option Char :=
  scanner.upcoming.head?

def peekTwo? (scanner : Scanner) : Option (Option Char) :=
  -- the source is asked here, and not the characters to come
  (slice? scanner.source scanner.current scanner.source.utf8ByteSize).map (·.toList[1]?)

def currentLexeme? (scanner : Scanner) : Option String :=
  slice? scanner.source scanner.lexemeStart scanner.current

/-! ## Changes of the state -/

def startLexeme (scanner : Scanner) : Scanner :=
  { scanner with lexemeStart := scanner.current }

def advance (scanner : Scanner) : Option Char × Scanner :=
  match scanner.upcoming with
  | [] => (none, scanner)
  | c :: rest =>
      (some c, { scanner with upcoming := rest, current := scanner.current + c.utf8Size })

def countFeed (c : Char) (scanner : Scanner) : Scanner :=
  if c = '\n' then { scanner with line := scanner.line + 1 } else scanner

@[simp] theorem upcoming_countFeed (c : Char) (scanner : Scanner) :
    (scanner.countFeed c).upcoming = scanner.upcoming := by
  rw [countFeed]
  split <;> rfl

def addTokenWithLiteral (kind : TokenKind) (literal : Option Literal) (scanner : Scanner) :
    Option Scanner := do
  let lexeme ← scanner.currentLexeme?
  let token : Token := ⟨kind, lexeme, scanner.line⟩
  return { scanner with
    tokens := scanner.tokens ++ [⟨token, literal⟩]
    events := scanner.events ++ [.token token] }

def addError (error : LexicalError) (scanner : Scanner) : Scanner :=
  { scanner with
    errors := scanner.errors ++ [error]
    events := scanner.events ++ [.error error] }

/-! ## Reading one lexeme -/

def matchOne (expected : Char) (scanner : Scanner) : Bool × Scanner :=
  if scanner.peekOne = some expected then (true, scanner.advance.2) else (false, scanner)

theorem length_advance_lt (scanner : Scanner) {c : Char} (next : scanner.peekOne = some c) :
    scanner.advance.2.upcoming.length < scanner.upcoming.length := by
  obtain ⟨rest, shape⟩ := List.head?_eq_some_iff.mp next
  simp [advance, shape]

def advanceWhile (wanted : Char → Bool) (scanner : Scanner) : Scanner :=
  match _ : scanner.peekOne with
  | some c => if wanted c then advanceWhile wanted scanner.advance.2 else scanner
  | none => scanner
termination_by scanner.upcoming.length
decreasing_by exact length_advance_lt _ ‹_›

def advanceToQuote (scanner : Scanner) : Scanner :=
  match _ : scanner.peekOne with
  | some c =>
      if c = '"' then scanner else advanceToQuote (scanner.countFeed c).advance.2
  | none => scanner
termination_by scanner.upcoming.length
decreasing_by
  rw [← upcoming_countFeed c scanner]
  apply length_advance_lt
  rw [peekOne, upcoming_countFeed]
  assumption

def addToken (kind : TokenKind) (scanner : Scanner) : Option Scanner :=
  scanner.addTokenWithLiteral kind none

def addOperator (withEqual alone : TokenKind) (scanner : Scanner) : Option Scanner :=
  match scanner.matchOne '=' with
  | (true, scanner) => scanner.addToken withEqual
  | (false, scanner) => scanner.addToken alone

def consumeString (scanner : Scanner) : Option (Option LexicalError × Scanner) := do
  let scanner := scanner.advanceToQuote
  if scanner.isAtEnd then
    -- the string is never closed
    let text ← scanner.currentLexeme?
    return (some (.unterminatedString text scanner.line), scanner)
  else
    let scanner := scanner.advance.2
    let lexeme ← scanner.currentLexeme?
    -- the quotes are not part of the value
    let value ← slice? lexeme 1 (lexeme.utf8ByteSize - 1)
    return (none, ← scanner.addTokenWithLiteral .string (some (.string value)))

def consumeDigits (scanner : Scanner) : Scanner :=
  scanner.advanceWhile isDigit

def consumeFraction (scanner : Scanner) : Option Scanner :=
  if scanner.peekOne = some '.' then do
    -- a point without a digit behind it is a token of its own
    let second ← scanner.peekTwo?
    return if second.any isDigit then scanner.advance.2.consumeDigits else scanner
  else
    some scanner

def consumeNumber (scanner : Scanner) : Option Scanner := do
  let scanner ← scanner.consumeDigits.consumeFraction
  let lexeme ← scanner.currentLexeme?
  let value := (Numeral.ofLexeme lexeme.toList).toBinary64
  scanner.addTokenWithLiteral .number (some (.number value))

def consumeWord (scanner : Scanner) : Option Scanner := do
  let scanner := scanner.advanceWhile isWordChar
  let lexeme ← scanner.currentLexeme?
  scanner.addToken (TokenKind.ofWord lexeme.toList)

/-- Reads one lexeme, and tells the error that it is, if it is one. -/
def scanToken (scanner : Scanner) : Option (Option LexicalError × Scanner) :=
  match scanner.advance with
  | (none, scanner) => some (none, scanner)
  | (some c, scanner) =>
      match Lead.ofChar c with
      | .mark kind => (scanner.addToken kind).map (none, ·)
      | .operator alone withEqual => (scanner.addOperator withEqual alone).map (none, ·)
      | .slash =>
          match scanner.matchOne '/' with
          -- the line feed behind a comment is left over, to be counted as any other
          | (true, scanner) => some (none, scanner.advanceWhile (· != '\n'))
          | (false, scanner) => (scanner.addToken .slash).map (none, ·)
      | .blank => some (none, scanner.countFeed c)
      | .quote => scanner.consumeString
      | .digit => scanner.consumeNumber.map (none, ·)
      | .letter => scanner.consumeWord.map (none, ·)
      | .stray => some (some (.unexpectedCharacter c scanner.line), scanner)

def turn (scanner : Scanner) : Option Scanner := do
  match ← scanner.startLexeme.scanToken with
  | (some error, scanner) => return scanner.addError error
  | (none, scanner) => return scanner

end Scanner

end Lox
