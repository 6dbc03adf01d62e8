import Lox.Fault

/-!
# Prompt lines

How a stream of bytes falls into lines. A line ends at a line feed, and a carriage return directly
before that line feed belongs to the line's end. Bytes after the last line feed are a line too, just
as they are; nothing after it is no line.
-/

set_option autoImplicit false

namespace Lox

def lineFeed : UInt8 := 10

def carriageReturn : UInt8 := 13

/-- A finished line, given with its last byte first and without its line feed. One carriage return
at its end is left out. -/
def finishLine (reversed : List UInt8) : List UInt8 :=
  match reversed with
  | [] => []
  | last :: before => if last = carriageReturn then before.reverse else reversed.reverse

/-- Moves the lines of a stream onto a list in reverse order. The line under way is held with its
last byte first. -/
def cutLines (done : List (List UInt8)) (current : List UInt8) : List UInt8 → List (List UInt8)
  | [] => (if current.isEmpty then done else current.reverse :: done).reverse
  | byte :: rest =>
      if byte = lineFeed then cutLines (finishLine current :: done) [] rest
      else cutLines done (byte :: current) rest

def byteLines (stream : List UInt8) : List (List UInt8) :=
  cutLines [] [] stream

theorem finishLine_reverse (line : List UInt8) :
    finishLine line.reverse =
      if line.getLast? = some carriageReturn then line.dropLast else line := by
  rcases List.eq_nil_or_concat line with rfl | ⟨before, last, rfl⟩
  · rfl
  · simp [finishLine]

theorem cutLines_eq_append (done : List (List UInt8)) (current stream : List UInt8) :
    cutLines done current stream = done.reverse ++ cutLines [] current stream := by
  induction stream generalizing done current with
  | nil =>
      rw [cutLines, cutLines]
      cases current.isEmpty <;> simp
  | cons byte rest ih =>
      rw [cutLines, cutLines]
      split
      · rw [ih, ih [_]]
        simp
      · exact ih done (byte :: current)

private theorem cutLines_append (current line stream : List UInt8) (inside : lineFeed ∉ line) :
    cutLines [] current (line ++ stream) = cutLines [] (line.reverse ++ current) stream := by
  induction line generalizing current with
  | nil => rfl
  | cons byte rest ih =>
      simp only [List.mem_cons, not_or] at inside
      rw [List.cons_append, cutLines, if_neg (Ne.symm inside.1), ih _ inside.2]
      simp

@[simp]
theorem byteLines_nil : byteLines [] = [] :=
  rfl

theorem byteLines_append_lineFeed {line : List UInt8} (inside : lineFeed ∉ line)
    (stream : List UInt8) :
    byteLines (line ++ lineFeed :: stream) = finishLine line.reverse :: byteLines stream := by
  rw [byteLines, cutLines_append _ _ _ inside, cutLines, if_pos rfl, cutLines_eq_append]
  simp [byteLines]

theorem byteLines_of_unfinished {line : List UInt8} (inside : lineFeed ∉ line)
    (nonempty : line ≠ []) : byteLines line = [line] := by
  have cut := cutLines_append [] line [] inside
  rw [List.append_nil] at cut
  rw [byteLines, cut, cutLines]
  simp [nonempty]

/-- The lines of a stream as texts; a line that is not UTF-8 is a fault, and the lines after it are
read all the same. -/
def textLines (stream : ByteArray) : List (Except Fault String) :=
  (byteLines stream.toList).map fun line => decodeText ⟨line.toArray⟩

end Lox
