import Lox.Proofs.EntryGrouping
import Lox.Proofs.QuoteParity

/-!
# Complete entries

The prompt takes an entry to be complete when its quotes pair up. Lexing takes it to be complete
when no string is left open. The two agree as long as the quotes in comments pair up as well.
-/

set_option autoImplicit false

namespace Lox

theorem hasOddQuotes_eq_false_iff (text : String) :
    hasOddQuotes text = false ↔
      ((lex text).leavesOpen = false ↔ commentQuotes text.toList % 2 = 0) := by
  have parity := count_quote_mod_two text.toList
  rw [leavesOpen_lex, hasOddQuotes, beq_eq_false_iff_ne, parity]
  cases endsInString text.toList with
  | false =>
      simp only [Bool.toNat_false, Nat.add_zero, true_iff]
      omega
  | true =>
      simp only [Bool.toNat_true, Bool.true_eq_false, false_iff]
      omega

namespace Grouping

def EvenItems (grouping : Grouping) : Prop :=
  ∀ entry, .ok entry ∈ grouping.items → hasOddQuotes entry = false

theorem EvenItems.add {grouping : Grouping} (even : grouping.EvenItems)
    (line : Except Fault String) : (grouping.add line).EvenItems := by
  cases line with
  | error fault =>
      intro entry member
      rcases List.mem_cons.mp member with same | earlier
      · cases same
      · exact even entry earlier
  | ok line =>
      cases odd : hasOddQuotes (grouping.joined line) with
      | false =>
          rw [completes_of_even odd]
          intro entry member
          rcases List.mem_cons.mp member with same | earlier
          · cases same
            exact odd
          · exact even entry earlier
      | true =>
          obtain ⟨_, held⟩ := holds_of_odd odd
          rw [held]
          exact even

theorem evenItems_after (history : List (Except Fault String)) : (after history).EvenItems := by
  have preserved : ∀ (lines : List (Except Fault String)) (grouping : Grouping),
      grouping.EvenItems → (lines.foldl Grouping.add grouping).EvenItems := by
    intro lines
    induction lines with
    | nil => exact fun _ even => even
    | cons line rest ih => exact fun grouping even => ih _ (even.add line)
  exact preserved history empty (fun _ member => nomatch member)

/-- When a line is appended, the prompt and lexing agree on whether the entry is complete exactly if
the comments collected so far hold an even number of quotes. The same number tells which of the
entries handed over before the end of the input leave a string open. -/
theorem completes_iff_closed_iff (history : List (Except Fault String)) (line : String) :
    (((after history).Completes line ↔
          (lex ((after history).joined line)).leavesOpen = false) ↔
        commentQuotes ((after history).joined line).toList % 2 = 0) ∧
      ∀ entry, .ok entry ∈ (after history).items →
        ((lex entry).leavesOpen = false ↔ commentQuotes entry.toList % 2 = 0) := by
  constructor
  · rw [completes_iff, hasOddQuotes_eq_false_iff]
    constructor
    · intro agree
      by_cases closed : (lex ((after history).joined line)).leavesOpen = false
      · exact (agree.mpr closed).mp closed
      · by_cases even : commentQuotes ((after history).joined line).toList % 2 = 0
        · exact even
        · exact absurd (agree.mp (iff_of_false closed even)) closed
    · intro even
      rw [iff_true_right even]
  · intro entry member
    exact (hasOddQuotes_eq_false_iff entry).mp (evenItems_after history entry member)

/-- A quote in a comment opens no string and yet holds the prompt; one in the next line then lets it
go on with a string left open. -/
theorem comment_quote_misleads_prompt :
    ¬ ((after []).Completes "// \"" ↔ (lex ((after []).joined "// \"")).leavesOpen = false) ∧
      ¬ ((after [.ok "// \""]).Completes "\"x" ↔
        (lex ((after [.ok "// \""]).joined "\"x")).leavesOpen = false) := by
  rw [completes_iff, completes_iff]
  decide +kernel

end Grouping

end Lox
