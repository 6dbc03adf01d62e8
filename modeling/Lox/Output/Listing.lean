import Lox.Lexing.Event

/-!
# Listings

The listing of a source text: first every error on a line of its own, to the errors, then every
token on a line of its own, to the output.
-/

set_option autoImplicit false

namespace Lox

def reportLine (line : Nat) (location message : String) : String :=
  -- the location, if there is any to tell, follows the word directly
  "[line " ++ toString line ++ "] Error" ++ location ++ ": " ++ message ++ "\n"

def LexicalError.report (error : LexicalError) : String :=
  reportLine error.line "" error.message

def Token.listingLine (token : Token) : String :=
  token.listing ++ "\n"

/-- Lists a source text, and tells whether it has errors. -/
def listSource (source : String) : ConsoleM Bool := do
  let lexing := lex source
  lexing.errors.forM fun error => put .err error.report
  lexing.tokens.forM fun token => put .out token.listingLine
  return lexing.hasErrors

def Log.listSource (log : Log) (source : String) : ConsoleM Bool := do
  -- a source is lexed to its end before anything of it is listed
  (records source).forM log.tell
  Lox.listSource source

end Lox
