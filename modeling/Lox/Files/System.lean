import Lox.Fault

/-!
# Files

What the program asks of the files around it. Whether a path leads to anything is asked apart from
what it holds, and either question may meet a fault of any kind.
-/

set_option autoImplicit false

namespace Lox

structure FileSystem where
  exists? : String → Except Fault Bool
  readBytes : String → Except Fault ByteArray

def FileSystem.readText (files : FileSystem) (path : String) : Except Fault String := do
  decodeText (← files.readBytes path)

end Lox
