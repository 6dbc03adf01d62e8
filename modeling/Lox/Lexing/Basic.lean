import Lox.Source.Placed
import Lox.Token.Basic

/-!
# Lexing

`lex` reads a whole source text. It never gives up: what is no token becomes a lexical error, and
reading goes on behind it. Tokens and errors come out side by side, each in source order.
-/

set_option autoImplicit false

namespace Lox

inductive LexicalError where
  | unexpectedCharacter (character : Char) (line : Nat)
  -- the source from the opening quote on, and its last line
  | unterminatedString (text : String) (line : Nat)
  deriving DecidableEq

namespace LexicalError

def line : LexicalError → Nat
  | unexpectedCharacter _ line => line
  | unterminatedString _ line => line

def message : LexicalError → String
  | unexpectedCharacter character _ => "Unexpected character: " ++ character.toString
  | unterminatedString _ _ => "Unterminated string."

end LexicalError

namespace Placed

def token? (placed : Placed) : Option Token :=
  match placed.piece.kind with
  | .token kind => some ⟨kind, String.ofList placed.piece.text, placed.line⟩
  | _ => none

def error? (placed : Placed) : Option LexicalError :=
  match placed.piece.kind with
  | .stray => placed.piece.text.head?.map (.unexpectedCharacter · placed.line)
  | .openString => some (.unterminatedString (String.ofList placed.piece.text) placed.line)
  | _ => none

end Placed

/-- The result of lexing. The last token, and no other, is the end of the source. -/
structure Lexing where
  tokens : List Token
  errors : List LexicalError
  deriving DecidableEq

def Lexing.hasErrors (lexing : Lexing) : Bool :=
  !lexing.errors.isEmpty

/-- Reads a source text. White space and comments leave no trace but in the line numbers. -/
def lex (source : String) : Lexing :=
  let text := source.toList
  let placed := placedPieces text
  ⟨placed.filterMap Placed.token? ++ [Token.endOfSource (lineCount text)],
    placed.filterMap Placed.error?⟩

/-- Lexes for a caller that has a use of its own for the errors. -/
def tokenize {m : Type → Type} [Monad m] (report : LexicalError → m Unit) (source : String) :
    m (List Token) := do
  let lexing := lex source
  lexing.errors.forM report
  return lexing.tokens

/-- Every error is reported once, in order. -/
theorem run_tokenize (source : String) (before : List LexicalError) :
    (tokenize (fun error => (modify (· ++ [error]) : StateM (List LexicalError) Unit)) source).run
        before =
      ((lex source).tokens, before ++ (lex source).errors) := by
  rw [tokenize]
  generalize (lex source).errors = errors
  induction errors generalizing before with
  | nil =>
      rw [List.append_nil]
      rfl
  | cons error rest ih =>
      rw [List.append_cons, ← ih (before ++ [error]), List.forM]
      rfl

end Lox
