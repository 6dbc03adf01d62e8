import Mathlib.Algebra.GroupWithZero.Nat
import Lox.Proofs.EntryGrouping
import Lox.Proofs.LineBreak
import Lox.Proofs.StreamLines

/-!
# Lexing entry by entry

The prompt lexes its entries one by one and counts the lines of each from 1. Put one below the
other, the results are those of lexing all the lines at once.
-/

set_option autoImplicit false

namespace Lox

def linesBefore (texts : List String) (index : Nat) : Nat :=
  ((texts.take index).map fun text => lineCount text.toList).sum

/-- The items of each text in turn, moved down by the lines of the texts before it. -/
def stacked {Item : Type} (advance : Nat → Item → Item) (items : String → List Item)
    (texts : List String) : List Item :=
  (texts.mapIdx fun index text => (items text).map (advance (linesBefore texts index))).flatten

theorem stacked_cons {Item : Type} {advance : Nat → Item → Item} (items : String → List Item)
    (unmoved : ∀ item, advance 0 item = item)
    (added : ∀ first second item,
      advance (first + second) item = advance first (advance second item))
    (text : String) (rest : List String) :
    stacked advance items (text :: rest) =
      items text ++ (stacked advance items rest).map (advance (lineCount text.toList)) := by
  have head : (items text).map (advance (linesBefore (text :: rest) 0)) = items text := by
    change (items text).map (advance 0) = items text
    rw [funext unmoved]
    exact List.map_id _
  have tail : ∀ index other,
      (items other).map (advance (linesBefore (text :: rest) (index + 1))) =
        ((items other).map (advance (linesBefore rest index))).map
          (advance (lineCount text.toList)) := by
    intro index other
    rw [List.map_map]
    refine List.map_congr_left fun item _ => ?_
    exact added _ _ item
  rw [stacked, List.mapIdx_cons, List.flatten_cons, head]
  simp only [tail]
  rw [stacked, List.map_flatten, List.mapIdx_eq_zipIdx_map, List.mapIdx_eq_zipIdx_map,
    List.map_map]
  rfl

private theorem Token.advance_zero (token : Token) : advance 0 token = token :=
  rfl

private theorem Token.advance_add (first second : Nat) (token : Token) :
    advance (first + second) token = advance first (advance second token) := by
  simp only [advance, Nat.add_comm first second, Nat.add_assoc]

private theorem LexicalError.advance_zero (error : LexicalError) : advance 0 error = error := by
  cases error <;> rfl

private theorem LexicalError.advance_add (first second : Nat) (error : LexicalError) :
    advance (first + second) error = advance first (advance second error) := by
  cases error <;> simp only [advance, Nat.add_comm first second, Nat.add_assoc]

/-! ## Joined texts -/

private theorem tokens_ne_nil (source : String) : (lex source).tokens ≠ [] := by
  simp [lex]

private theorem lex_intercalate {texts : List String} (nonempty : texts ≠ [])
    (closed : ∀ text ∈ texts.dropLast, (lex text).leavesOpen = false) :
    (lex ("\n".intercalate texts)).tokens.dropLast =
        stacked Token.advance (fun text => (lex text).tokens.dropLast) texts ∧
      (lex ("\n".intercalate texts)).errors =
        stacked LexicalError.advance (fun text => (lex text).errors) texts := by
  induction texts with
  | nil => exact absurd rfl nonempty
  | cons text rest ih =>
      rw [stacked_cons _ Token.advance_zero Token.advance_add,
        stacked_cons _ LexicalError.advance_zero LexicalError.advance_add]
      cases rest with
      | nil => simp [stacked]
      | cons next rest =>
          have restClosed : ∀ other ∈ (next :: rest).dropLast, (lex other).leavesOpen = false :=
            fun other member => closed other (List.mem_cons_of_mem _ member)
          obtain ⟨tokens, errors⟩ := ih (List.cons_ne_nil _ _) restClosed
          have textClosed : (lex text).leavesOpen = false := closed text List.mem_cons_self
          rw [String.intercalate_cons_cons, tokens_append_lineFeed textClosed,
            errors_append_lineFeed textClosed, ← tokens, ← errors]
          refine ⟨?_, rfl⟩
          rw [List.dropLast_append_of_ne_nil (by simpa using tokens_ne_nil _), List.map_dropLast]

private theorem lineCount_intercalate {lines : List String} (nonempty : lines ≠ [])
    (inside : ∀ line ∈ lines, '\n' ∉ line.toList) :
    lineCount ("\n".intercalate lines).toList = lines.length := by
  induction lines with
  | nil => exact absurd rfl nonempty
  | cons line rest ih =>
      have lineInside : line.toList.count '\n' = 0 :=
        List.count_eq_zero.mpr (inside line List.mem_cons_self)
      cases rest with
      | nil => simp [lineCount, lineInside]
      | cons next rest =>
          have restLines := ih (List.cons_ne_nil _ _)
            (fun other member => inside other (List.mem_cons_of_mem _ member))
          rw [lineCount] at restLines
          have feed : "\n".toList.count '\n' = 1 := by decide
          rw [String.intercalate_cons_cons, lineCount, String.toList_append, String.toList_append,
            List.count_append, List.count_append, lineInside, feed, List.length_cons]
          omega

/-- Where every line is a text and no entry but the last leaves a string open, the entries lexed
apart and put one below the other give what their lines give when lexed together. -/
theorem lex_lines_eq_stacked_entries (stream : ByteArray) (lines : List String)
    (read : textLines stream = lines.map .ok) (nonempty : lines ≠ []) :
    ∃ texts : List String, entries stream = texts.map .ok ∧
      ((∀ text ∈ texts.dropLast, (lex text).leavesOpen = false) →
        (lex ("\n".intercalate lines)).tokens =
            stacked Token.advance (fun text => (lex text).tokens.dropLast) texts ++
              [Token.endOfSource lines.length] ∧
          (lex ("\n".intercalate lines)).errors =
            stacked LexicalError.advance (fun text => (lex text).errors) texts) := by
  obtain ⟨texts, grouped, joined, empty⟩ := exists_entriesOfLines lines
  have inside : ∀ line ∈ lines, '\n' ∉ line.toList := by
    intro line member
    have read : .ok line ∈ textLines stream := by
      rw [read]
      exact List.mem_map_of_mem member
    exact lineFeed_not_mem_textLines read
  refine ⟨texts, by rw [entries, read, grouped], ?_⟩
  intro closed
  have textsNonempty : texts ≠ [] := fun none => nonempty (empty.mp none)
  obtain ⟨tokens, errors⟩ := lex_intercalate textsNonempty closed
  rw [joined] at tokens errors
  rw [tokens_eq_dropLast, tokens, lineCount_intercalate nonempty inside]
  exact ⟨rfl, errors⟩

/-- A string that spans two lines, two characters out of place below it, and a last entry. -/
theorem lex_three_entries :
    textLines "x = \"a\nb\"\n@ 1.#\ny".toUTF8 = ["x = \"a", "b\"", "@ 1.#", "y"].map .ok ∧
      entries "x = \"a\nb\"\n@ 1.#\ny".toUTF8 = ["x = \"a\nb\"", "@ 1.#", "y"].map .ok ∧
      (∀ text ∈ ["x = \"a\nb\"", "@ 1.#", "y"].dropLast, (lex text).leavesOpen = false) ∧
      (lex ("\n".intercalate ["x = \"a", "b\"", "@ 1.#", "y"])).tokens =
          stacked Token.advance (fun text => (lex text).tokens.dropLast)
            ["x = \"a\nb\"", "@ 1.#", "y"] ++ [Token.endOfSource 4] ∧
        (lex ("\n".intercalate ["x = \"a", "b\"", "@ 1.#", "y"])).errors =
          stacked LexicalError.advance (fun text => (lex text).errors)
            ["x = \"a\nb\"", "@ 1.#", "y"] := by
  have read : textLines "x = \"a\nb\"\n@ 1.#\ny".toUTF8 =
      ["x = \"a", "b\"", "@ 1.#", "y"].map .ok := by decide +kernel
  have grouped : entries "x = \"a\nb\"\n@ 1.#\ny".toUTF8 =
      ["x = \"a\nb\"", "@ 1.#", "y"].map .ok := by decide +kernel
  have closed : ∀ text ∈ ["x = \"a\nb\"", "@ 1.#", "y"].dropLast,
      (lex text).leavesOpen = false := by decide +kernel
  obtain ⟨texts, textsGrouped, composed⟩ :=
    lex_lines_eq_stacked_entries _ _ read (List.cons_ne_nil _ _)
  have same : texts = ["x = \"a\nb\"", "@ 1.#", "y"] :=
    (List.map_inj_right fun _ _ => Except.ok.inj).mp (textsGrouped.symm.trans grouped)
  subst same
  exact ⟨read, grouped, closed, composed closed⟩

end Lox
