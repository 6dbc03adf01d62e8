/-!
# Slices

Parts of a text between two offsets in bytes. A character takes up one to four bytes, so that an
offset may fall inside one.
-/

set_option autoImplicit false

namespace Lox

/-- The part of a text between two offsets, unless one of them falls inside a character or behind
the text, or they are out of order. -/
def slice? (text : String) (start stop : Nat) : Option String := do
  let first ← text.pos? ⟨start⟩
  let last ← text.pos? ⟨stop⟩
  return (← text.slice? first last).copy

end Lox
