import Lox.Fault

/-!
# Console

Where the program writes: an output and an error channel, each of which may stop accepting bytes
after a limit. A `ConsoleM` action writes to them and may end in a fault; what was accepted before
the fault stays written.
-/

set_option autoImplicit false

namespace Lox

/-- A receiver of bytes. With a limit it accepts exactly that many bytes and no more. -/
structure Sink where
  limit : Option Nat
  accepted : ByteArray

namespace Sink

def empty (limit : Option Nat) : Sink :=
  ⟨limit, ByteArray.empty⟩

def room (sink : Sink) (count : Nat) : Nat :=
  match sink.limit with
  | none => count
  | some limit => min count (limit - sink.accepted.size)

def fits (sink : Sink) (text : String) : Bool :=
  sink.room text.utf8ByteSize == text.utf8ByteSize

def accept (sink : Sink) (text : String) : Sink :=
  { sink with accepted := sink.accepted ++ text.toUTF8.extract 0 (sink.room text.utf8ByteSize) }

theorem fits_of_unlimited {sink : Sink} (unlimited : sink.limit = none) (text : String) :
    sink.fits text = true := by
  simp [fits, room, unlimited]

end Sink

inductive Channel where
  | out
  | err
  deriving DecidableEq

structure Console where
  out : Sink
  err : Sink

namespace Console

def empty (outLimit errLimit : Option Nat) : Console :=
  ⟨Sink.empty outLimit, Sink.empty errLimit⟩

def sink (console : Console) : Channel → Sink
  | .out => console.out
  | .err => console.err

def withSink (console : Console) (channel : Channel) (sink : Sink) : Console :=
  match channel with
  | .out => { console with out := sink }
  | .err => { console with err := sink }

def accept (console : Console) (channel : Channel) (text : String) : Console :=
  console.withSink channel ((console.sink channel).accept text)

end Console

abbrev ConsoleM (Result : Type) : Type :=
  EStateM Fault Console Result

def put (channel : Channel) (text : String) : ConsoleM Unit := fun console =>
  -- what the channel has room for stays written, also where the rest is a fault
  if (console.sink channel).fits text then .ok () (console.accept channel text)
  else .error .limitReached (console.accept channel text)

end Lox
