import Lox.Files.Tree
import Lox.Program
import Lox.Prompt.Dialogue

/-!
# The command

The program on a real console and real files. What it writes is settled by the library; this module
asks for arguments, files, environment and input, and passes on what a console has accepted.
-/

set_option autoImplicit false

namespace Lox.Command

/-- Carries out an action on a fresh console and passes on what it has written. -/
def perform {Result : Type} (action : ConsoleM Result) : IO (Except Fault Result) := do
  let (result, console) :=
    match action.run (Console.empty none none) with
    | .ok result console => (Except.ok result, console)
    | .error fault console => (Except.error fault, console)
  let output ← IO.getStdout
  (← IO.getStderr).write console.err.accepted
  output.write console.out.accepted
  output.flush
  return result

def conclude (result : Except Fault Outcome) : IO UInt32 := do
  match result with
  | .ok outcome => return outcome.status.toUInt32
  | .error fault =>
      IO.eprintln ("Error: " ++ fault.message)
      return faultStatus.toUInt32

def faultOf (error : IO.Error) : Fault :=
  match error with
  | .inappropriateType _ code _ | .invalidArgument _ code _ =>
      -- the code may come negated
      match (if code < 0x80000000 then code else 0 - code).toNat with
      | 20 => .notDirectory
      | 21 => .isDirectory
      | 36 => .nameTooLong
      | _ => .system (toString error)
  | _ => .system (toString error)

def filesAt (path : String) : IO FileSystem := do
  try
    let content ← IO.FS.readBinFile path
    return ⟨fun _ => .ok true, fun _ => .ok content⟩
  catch
    | .noFileOrDirectory .. => return ⟨fun _ => .ok false, fun _ => .error .missing⟩
    | error => return ⟨fun _ => .ok true, fun _ => .error (faultOf error)⟩

/-- Of the filters that the environment may name, those that are no more than a level. -/
def filterOfName? (name : String) : Option (Record → Bool) :=
  match name.toLower with
  | "trace" => some fun _ => true
  | "debug" => some fun record => record.level != .trace
  | "info" => some fun record => record.level == .info
  | "warn" | "error" | "off" => some fun _ => false
  | _ => none

def logLine (record : Record) : String :=
  let fields := record.fields.map fun (name, value) => " " ++ name ++ "=" ++ value
  record.level.name ++ " " ++ record.message ++ String.join fields ++ "\n"

partial def converse (log : Log) (input : IO.FS.Stream) (dialogue : Dialogue) :
    IO (Except Fault Unit) := do
  let bytes ← input.read 1
  if bytes.isEmpty then perform (dialogue.close log)
  else
    match ← perform (dialogue.take log bytes.toList) with
    | .error fault => return .error fault
    | .ok dialogue => converse log input dialogue

def start (arguments : List String) : IO UInt32 := do
  let settings := (Settings.parse arguments).toOption
  let system : System :=
    { files := ←
        match settings.bind Settings.script with
        | some path => filesAt path
        | none => pure (FileTree.fileSystem ⟨[], [], []⟩)
      filter? := (← IO.getEnv "RUST_LOG").bind filterOfName?
      logLine := fun _ => logLine }
  match settings with
  | some ⟨none, verbose⟩ =>
      match ← perform Dialogue.begin with
      | .error fault => conclude (.error fault)
      | .ok dialogue =>
          let result ← converse (system.log verbose) (← IO.getStdin) dialogue
          conclude (result.map fun _ => .listed false)
  | _ => conclude (← perform (run system arguments ByteArray.empty))

end Lox.Command

def main (arguments : List String) : IO UInt32 :=
  Lox.Command.start arguments
