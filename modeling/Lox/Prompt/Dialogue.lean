import Lox.Prompt.Session

/-!
# Dialogues

A session whose input comes bit by bit: every entry is answered as soon as the bytes that complete
it are there.
-/

set_option autoImplicit false

namespace Lox

/-- A session between two reads. -/
structure Dialogue where
  -- the bytes of the line under way, the last one first
  line : List UInt8
  pending : Option OpenEntry

namespace Dialogue

def begin : ConsoleM Dialogue := do
  put .out promptText
  return ⟨[], none⟩

def takeLine (log : Log) (dialogue : Dialogue) (line : List UInt8) : ConsoleM Dialogue := do
  let grouping := Grouping.add ⟨[], dialogue.pending⟩ (decodeText ⟨line.toArray⟩)
  grouping.items.reverse.forM (answer log)
  return ⟨[], grouping.pending⟩

def takeByte (log : Log) (dialogue : Dialogue) (byte : UInt8) : ConsoleM Dialogue :=
  if byte = lineFeed then dialogue.takeLine log (finishLine dialogue.line)
  else return { dialogue with line := byte :: dialogue.line }

def take (log : Log) (dialogue : Dialogue) (bytes : List UInt8) : ConsoleM Dialogue :=
  bytes.foldlM (takeByte log) dialogue

def close (log : Log) (dialogue : Dialogue) : ConsoleM Unit := do
  let dialogue ←
    if dialogue.line.isEmpty then pure dialogue
    else dialogue.takeLine log dialogue.line.reverse
  (Grouping.finish ⟨[], dialogue.pending⟩).forM (answer log)

end Dialogue

end Lox
