import Lox.CommandLine.Parser
import Lox.Files.System
import Lox.Prompt.Session

/-!
# The program

One run of the program: it reads its arguments and lists a script or, without one, holds a prompt
session. The outcome settles the exit status.
-/

set_option autoImplicit false

namespace Lox

inductive Outcome where
  | informed
  | refused
  | missingScript
  -- a script was listed, or a prompt session came to its end
  | listed (hasErrors : Bool)
  deriving DecidableEq

def Outcome.status : Outcome → Nat
  | informed => 0
  | refused => 64
  | missingScript => 66
  | listed true => 65
  | listed false => 0

def faultStatus : Nat :=
  1

structure System where
  files : FileSystem
  -- the filter for the log that the environment names, if it names one that can be read
  filter? : Option (Record → Bool)
  logLine : Console → Record → String

/-- The log of a run. Without a filter it shows all but the trace if that is asked for. -/
def System.log (system : System) (verbose : Bool) : Log where
  -- otherwise it waits for warnings, and no record is one
  shows := system.filter?.getD fun record => verbose && record.level != .trace
  line := system.logLine

def Notice.outcome (notice : Notice) : Outcome :=
  if notice.isRefusal then .refused else .informed

def showNotice (notice : Notice) : ConsoleM Outcome := do
  put (if notice.isRefusal then .err else .out) notice.written
  return notice.outcome

def liftFault {Result : Type} : Except Fault Result → ConsoleM Result
  | .ok result => return result
  | .error fault => throw fault

def scriptRecord (path source : String) : Record :=
  ⟨.info, "scanning file", [("path", path), ("bytes", toString source.utf8ByteSize)]⟩

def runScript (files : FileSystem) (log : Log) (path : String) : ConsoleM Outcome := do
  if ← liftFault (files.exists? path) then
    -- all of a script is read before anything of it is listed
    let source ← liftFault (files.readText path)
    log.tell (scriptRecord path source)
    return .listed (← log.listSource source)
  else
    put .err ("file does not seem to exist " ++ path ++ "\n")
    return .missingScript

def run (system : System) (arguments : List String) (input : ByteArray) : ConsoleM Outcome := do
  match Settings.parse arguments with
  | .error notice => showNotice notice
  | .ok settings =>
      let log := system.log settings.verbose
      match settings.script with
      | some path => runScript system.files log path
      | none =>
          session log input
          -- the errors of prompt entries do not show in the outcome
          return .listed false

/-- What shows of a run once it is over. -/
structure Ending where
  status : Nat
  -- what a fault that ended the run is told as, behind all that was written before
  cause : Option String
  out : ByteArray
  err : ByteArray

def Ending.ofResult : EStateM.Result Fault Console Outcome → Ending
  | .ok outcome console => ⟨outcome.status, none, console.out.accepted, console.err.accepted⟩
  | .error fault console =>
      ⟨faultStatus, some fault.message, console.out.accepted, console.err.accepted⟩

end Lox
