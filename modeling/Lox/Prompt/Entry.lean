import Lox.Prompt.Line

/-!
# Prompt entries

An entry of the prompt is one line or, as long as a string is open, several lines. Strings have no
escapes, so a string is open when the number of quotes is odd.
-/

set_option autoImplicit false

namespace Lox

def hasOddQuotes (text : String) : Bool :=
  text.toList.count '"' % 2 == 1

structure OpenEntry where
  text : String
  odd : hasOddQuotes text = true

/-- A line with an odd number of quotes, and no other, opens what was closed and closes what was
open. -/
theorem hasOddQuotes_join (before line : String) :
    hasOddQuotes (before ++ "\n" ++ line) = (hasOddQuotes before != hasOddQuotes line) := by
  have noQuote : "\n".toList.count '"' = 0 := by decide
  simp only [hasOddQuotes, String.toList_append, List.count_append, noQuote]
  grind

/-- The entries and faults so far, the last one first, and the entry under way. -/
structure Grouping where
  items : List (Except Fault String)
  pending : Option OpenEntry

namespace Grouping

def empty : Grouping :=
  ⟨[], none⟩

/-- Takes in a line. It completes the entry under way if the quotes then pair up. A fault takes the
place of the entry under way, whose lines are lost. -/
def add (grouping : Grouping) (line : Except Fault String) : Grouping :=
  match line, grouping.pending with
  | .error fault, _ => ⟨.error fault :: grouping.items, none⟩
  | .ok line, none =>
      if odd : hasOddQuotes line then ⟨grouping.items, some ⟨line, odd⟩⟩
      else ⟨.ok line :: grouping.items, none⟩
  | .ok line, some before =>
      let joined := before.text ++ "\n" ++ line
      if odd : hasOddQuotes line then ⟨.ok joined :: grouping.items, none⟩
      else ⟨grouping.items, some ⟨joined, by
        simp [joined, hasOddQuotes_join, before.odd, odd]⟩⟩

def finish (grouping : Grouping) : List (Except Fault String) :=
  match grouping.pending with
  | none => grouping.items.reverse
  -- an entry still under way when the lines end is handed over as it is
  | some entry => (.ok entry.text :: grouping.items).reverse

end Grouping

def entriesOfLines (lines : List (Except Fault String)) : List (Except Fault String) :=
  (lines.foldl Grouping.add Grouping.empty).finish

/-- The entries of a stream of bytes, with a fault in the place of each line that is not UTF-8. -/
def entries (stream : ByteArray) : List (Except Fault String) :=
  entriesOfLines (textLines stream)

end Lox
