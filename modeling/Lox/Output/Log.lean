import Lox.Output.Console

/-!
# The log

Beside its errors the program tells a log what it does. The log shows some of the records that it
is told, each as a line among the errors. Which ones it shows, and how such a line looks, is the
log's own affair.
-/

set_option autoImplicit false

namespace Lox

inductive Level where
  | trace
  | debug
  | info
  deriving DecidableEq

def Level.name : Level → String
  | trace => "TRACE"
  | debug => "DEBUG"
  | info => "INFO"

structure Record where
  level : Level
  message : String
  fields : List (String × String)
  deriving DecidableEq

structure Log where
  shows : Record → Bool
  /-- The line for a record. It tells the time, for which the console stands: no two lines are
  written to the same one. -/
  line : Console → Record → String

def Log.Off (log : Log) : Prop :=
  ∀ record, log.shows record = false

def Log.tell (log : Log) (record : Record) : ConsoleM Unit := fun console =>
  -- a line for which there is no room is no fault of the program
  .ok () (if log.shows record then console.accept .err (log.line console record) else console)

end Lox
