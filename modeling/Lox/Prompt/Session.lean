import Lox.Output.Listing
import Lox.Prompt.Entry

/-!
# Prompt sessions

A session asks for an entry, lists it and asks again, until its input ends. A fault in the input
ends it at once.
-/

set_option autoImplicit false

namespace Lox

def promptText : String :=
  "> "

def entryRecord (hasErrors : Bool) : Record :=
  ⟨.debug, "prompt entry scanned", [("had_error", toString hasErrors)]⟩

def answer (log : Log) (item : Except Fault String) : ConsoleM Unit := do
  match item with
  | .error fault => throw fault
  | .ok entry =>
      -- the errors of an entry are of no consequence to the entries that follow
      let hasErrors ← log.listSource entry
      log.tell (entryRecord hasErrors)
      put .out promptText

def session (log : Log) (stream : ByteArray) : ConsoleM Unit := do
  put .out promptText
  (entries stream).forM (answer log)

end Lox
