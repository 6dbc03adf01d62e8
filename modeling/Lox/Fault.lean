/-!
# Faults

The ways in which reading and writing can fail, as opposed to what can be wrong with a source text.
-/

set_option autoImplicit false

namespace Lox

inductive Fault where
  | limitReached
  | invalidUtf8
  -- whatever else the system reports, in its own words
  | system (message : String)
  deriving DecidableEq

def Fault.message : Fault → String
  | limitReached => "limit reached"
  | invalidUtf8 => "stream did not contain valid UTF-8"
  | system message => message

def decodeText (bytes : ByteArray) : Except Fault String :=
  match String.fromUTF8? bytes with
  | some text => .ok text
  | none => .error .invalidUtf8

end Lox
