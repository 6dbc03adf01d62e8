import Lox.Lexing.Basic
import Lox.Output.Log

/-!
# Lexing events

The story of a lexing, as it is told to a log: one event for each token and each error at the
moment it is met, then a summary. The log receives each event as a record of texts.
-/

set_option autoImplicit false

namespace Lox

inductive Event where
  | token (token : Token)
  | error (error : LexicalError)
  -- the counts of all tokens, the end of the source included, and of all errors
  | summary (tokens errors : Nat)
  deriving DecidableEq

def Placed.event? (placed : Placed) : Option Event :=
  -- white space and comments are passed over in silence
  match placed.token? with
  | some token => some (.token token)
  | none => placed.error?.map .error

def events (source : String) : List Event :=
  let lexing := lex source
  -- the end of the source has no event of its own
  (placedPieces source.toList).filterMap Placed.event? ++
    [.summary lexing.tokens.length lexing.errors.length]

def Event.record : Event → Record
  | token read => ⟨.trace, "token", [("token", read.listing), ("line", toString read.line)]⟩
  | error met =>
      ⟨.trace, "lexical error", [("scanning_error", met.message), ("line", toString met.line)]⟩
  | summary tokens errors =>
      ⟨.debug, "scanned source", [("tokens", toString tokens), ("errors", toString errors)]⟩

def records (source : String) : List Record :=
  (events source).map Event.record

end Lox
