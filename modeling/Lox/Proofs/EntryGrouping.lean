import Lox.Prompt.Entry

/-!
# Grouping lines into entries

What one more line does to the entry under way, and that the entries of a run of lines hold these
lines, all of them and in order.
-/

set_option autoImplicit false

namespace Lox

namespace Grouping

def joined (grouping : Grouping) (line : String) : String :=
  match grouping.pending with
  | none => line
  | some before => before.text ++ "\n" ++ line

/-- A line makes the prompt hand over what it has collected, this line included. -/
def Completes (grouping : Grouping) (line : String) : Prop :=
  grouping.add (.ok line) = ⟨.ok (grouping.joined line) :: grouping.items, none⟩

def Holds (grouping : Grouping) (line : String) : Prop :=
  ∃ odd, grouping.add (.ok line) = ⟨grouping.items, some ⟨grouping.joined line, odd⟩⟩

theorem completes_of_even {grouping : Grouping} {line : String}
    (even : hasOddQuotes (grouping.joined line) = false) : grouping.Completes line := by
  obtain ⟨items, pending⟩ := grouping
  cases pending with
  | none =>
      change hasOddQuotes line = false at even
      simp [Completes, add, joined, even]
  | some before =>
      change hasOddQuotes (before.text ++ "\n" ++ line) = false at even
      have lineOdd : hasOddQuotes line = true := by
        simpa [hasOddQuotes_join, before.odd] using even
      simp [Completes, add, joined, lineOdd]

theorem holds_of_odd {grouping : Grouping} {line : String}
    (odd : hasOddQuotes (grouping.joined line) = true) : grouping.Holds line := by
  obtain ⟨items, pending⟩ := grouping
  cases pending with
  | none =>
      change hasOddQuotes line = true at odd
      exact ⟨odd, by simp [add, joined, odd]⟩
  | some before =>
      change hasOddQuotes (before.text ++ "\n" ++ line) = true at odd
      have lineEven : hasOddQuotes line = false := by
        simpa [hasOddQuotes_join, before.odd] using odd
      exact ⟨odd, by simp [add, joined, lineEven]⟩

theorem completes_iff {grouping : Grouping} {line : String} :
    grouping.Completes line ↔ hasOddQuotes (grouping.joined line) = false := by
  constructor
  · intro completes
    cases odd : hasOddQuotes (grouping.joined line) with
    | false => rfl
    | true =>
        obtain ⟨_, held⟩ := holds_of_odd odd
        have pending := congrArg Grouping.pending (held.symm.trans completes)
        exact nomatch pending
  · exact completes_of_even

def after (history : List (Except Fault String)) : Grouping :=
  history.foldl add empty

/-! ## The lines of the entries -/

theorem finish_add_ok (grouping : Grouping) (line : String) :
    (grouping.add (.ok line)).finish =
      grouping.items.reverse ++ [.ok (grouping.joined line)] := by
  cases odd : hasOddQuotes (grouping.joined line) with
  | false =>
      rw [completes_of_even odd]
      exact List.reverse_cons
  | true =>
      obtain ⟨_, held⟩ := holds_of_odd odd
      rw [held]
      exact List.reverse_cons

theorem intercalate_append_singleton {texts : List String} (nonempty : texts ≠ [])
    (last : String) :
    "\n".intercalate (texts ++ [last]) = "\n".intercalate texts ++ "\n" ++ last := by
  rw [String.intercalate_append_of_ne_nil nonempty (List.cons_ne_nil _ _),
    String.intercalate_singleton]

private theorem intercalate_joined (texts : List String) (before line : String) :
    "\n".intercalate (texts ++ [before ++ "\n" ++ line]) =
      "\n".intercalate (texts ++ [before]) ++ "\n" ++ line := by
  cases texts with
  | nil => simp
  | cons first rest =>
      rw [intercalate_append_singleton (List.cons_ne_nil _ _),
        intercalate_append_singleton (List.cons_ne_nil _ _)]
      simp only [String.append_assoc]

/-- The entries, with the one under way as the last, are texts that hold the given lines. -/
def Collects (grouping : Grouping) (lines : List String) : Prop :=
  ∃ texts : List String, grouping.finish = texts.map .ok ∧
    "\n".intercalate texts = "\n".intercalate lines ∧ (texts = [] ↔ lines = [])

theorem Collects.add {grouping : Grouping} {lines : List String}
    (collects : grouping.Collects lines) (line : String) :
    (grouping.add (.ok line)).Collects (lines ++ [line]) := by
  obtain ⟨texts, finished, joined, empty⟩ := collects
  have added := finish_add_ok grouping line
  obtain ⟨items, pending⟩ := grouping
  cases pending with
  | none =>
      change items.reverse = texts.map .ok at finished
      refine ⟨texts ++ [line], ?_, ?_, by simp⟩
      · rw [added, List.map_append, ← finished]
        rfl
      · by_cases first : lines = []
        · rw [first, empty.mpr first]
        · have notFirst : texts ≠ [] := fun none => first (empty.mp none)
          rw [intercalate_append_singleton notFirst, intercalate_append_singleton first, joined]
  | some before =>
      have split : items.reverse ++ [.ok before.text] = texts.map .ok := by
        rw [← finished]
        exact List.reverse_cons.symm
      -- The entry under way is the last of the texts, and the line goes on with it.
      obtain ⟨earlier, last, rfl, earlierShape, lastShape⟩ := List.map_eq_append_iff.mp split.symm
      obtain ⟨text, rfl, same⟩ := List.map_eq_singleton_iff.mp lastShape
      have sameText : text = before.text := by simpa using same
      subst sameText
      have notFirst : lines ≠ [] := by
        intro none
        exact absurd (empty.mpr none) (by simp)
      refine ⟨earlier ++ [before.text ++ "\n" ++ line], ?_, ?_, by simp⟩
      · rw [added, List.map_append, earlierShape]
        rfl
      · rw [intercalate_joined, joined, intercalate_append_singleton notFirst]

end Grouping

/-- Lines that are all texts give entries that are all texts, and no line is lost. -/
theorem exists_entriesOfLines (lines : List String) :
    ∃ texts : List String, entriesOfLines (lines.map .ok) = texts.map .ok ∧
      "\n".intercalate texts = "\n".intercalate lines ∧ (texts = [] ↔ lines = []) := by
  have preserved : ∀ (rest before : List String) (grouping : Grouping),
      grouping.Collects before →
      ((rest.map .ok).foldl Grouping.add grouping).Collects (before ++ rest) := by
    intro rest
    induction rest with
    | nil =>
        intro before grouping collects
        simpa using collects
    | cons line rest ih =>
        intro before grouping collects
        simpa using ih (before ++ [line]) _ (collects.add line)
  exact preserved lines [] Grouping.empty ⟨[], rfl, rfl, Iff.rfl⟩

end Lox
