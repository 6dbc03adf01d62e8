import Lox.Proofs.TokenText

/-!
# Layouts

Token texts written one after the other with blanks between them, and the places where a text is
pasted to the next one because nothing keeps them apart.
-/

set_option autoImplicit false

namespace Lox

structure Blanks where
  text : List Char
  blank : ∀ c ∈ text, IsBlank c

structure Spaced where
  token : TokenText
  gap : Blanks

def written (spaced : List Spaced) : List Char :=
  spaced.flatMap fun next => next.token.text ++ next.gap.text

/-- The first text is pasted to what follows it: to the text behind it or, as the digits before a
point, to the two texts behind it. -/
inductive PastesFront : Spaced → List Spaced → Prop where
  | pair {first second : Spaced} {rest : List Spaced} :
      first.gap.text = [] → first.token.RunsInto second.token →
      PastesFront first (second :: rest)
  | fraction {whole point digits : Spaced} {rest : List Spaced} :
      whole.gap.text = [] → point.gap.text = [] →
      whole.token.TakesPoint point.token → digits.token.IsNumber →
      PastesFront whole (point :: digits :: rest)

inductive Pasted : List Spaced → Prop where
  | front {first : Spaced} {rest : List Spaced} :
      PastesFront first rest → Pasted (first :: rest)
  | later {first : Spaced} {rest : List Spaced} :
      Pasted rest → Pasted (first :: rest)

theorem written_cons (first : Spaced) (rest : List Spaced) :
    written (first :: rest) = first.token.text ++ (first.gap.text ++ written rest) := by
  rw [written, List.flatMap_cons, List.append_assoc]
  rfl

theorem pieces_blanks (blanks : Blanks) (rest : List Char) :
    pieces (blanks.text ++ rest) =
      blanks.text.map (fun c => ⟨.space, [c]⟩) ++ pieces rest := by
  obtain ⟨text, blank⟩ := blanks
  induction text with
  | nil => rfl
  | cons c text ih =>
      have taken : Piece.first c (text ++ rest) = (⟨.space, [c]⟩, text ++ rest) :=
        Piece.first_of_lexeme (.blank (blank c List.mem_cons_self)) trivial rfl
      have others := ih fun other member => blank other (List.mem_cons_of_mem _ member)
      dsimp only at others ⊢
      rw [List.cons_append, pieces_cons, taken, others, List.map_cons, List.cons_append]

/-! ## Where a text ends in a layout -/

private theorem not_startsOutside_isDigit_iff (gap : Blanks) (spaced : List Spaced) :
    ¬ StartsOutside isDigit (gap.text ++ written spaced) ↔
      gap.text = [] ∧ ∃ digits rest, spaced = digits :: rest ∧ digits.token.IsNumber := by
  obtain ⟨text, blank⟩ := gap
  cases text with
  | cons c text =>
      have notDigit : isDigit c = false := by
        rcases blank c List.mem_cons_self with rfl | rfl | rfl | rfl <;> decide
      simp [notDigit]
  | nil =>
      cases spaced with
      | nil => simp [written]
      | cons next rest =>
          have number := next.token.isDigit_lead_iff
          rw [written_cons, next.token.text_eq_cons]
          simp [number]

theorem Spaced.endsBefore_iff (first : Spaced) (rest : List Spaced) :
    Piece.EndsBefore ⟨.token first.token.kind, first.token.text⟩
        (first.gap.text ++ written rest) ↔ ¬ PastesFront first rest := by
  -- One blank keeps everything apart.
  cases gap : first.gap.text with
  | cons c text =>
      have blank : isBlank c = true := by
        refine isBlank_iff.mpr (first.gap.blank c ?_)
        rw [gap]
        exact List.mem_cons_self
      have ends : Piece.EndsBefore ⟨.token first.token.kind, first.token.text⟩
          (c :: (text ++ written rest)) :=
        Piece.endsBefore_of_separator (.inl blank) _ (by simp) (by simp)
      refine iff_of_true ends ?_
      rintro (⟨none, _⟩ | ⟨none, _, _, _⟩)
      · rw [gap] at none
        cases none
      · rw [gap] at none
        cases none
  | nil =>
      cases rest with
      | nil => exact iff_of_true (Piece.endsBefore_nil _) nofun
      | cons second others =>
          rw [List.nil_append, written_cons, TokenText.endsBefore_append_iff,
            not_startsOutside_isDigit_iff, ← not_or]
          refine not_congr ?_
          constructor
          · rintro (runs | ⟨takes, empty, digits, rest, rfl, number⟩)
            · exact .pair gap runs
            · exact .fraction gap empty takes number
          · rintro (⟨_, runs⟩ | ⟨_, empty, takes, number⟩)
            · exact .inl runs
            · exact .inr ⟨takes, empty, _, _, rfl, number⟩

def Spaced.pieces (spaced : Spaced) : List Piece :=
  ⟨.token spaced.token.kind, spaced.token.text⟩ ::
    spaced.gap.text.map fun c => ⟨.space, [c]⟩

/-- A layout in which nothing is pasted falls into the pieces that it was made of. -/
theorem pieces_written {spaced : List Spaced} (apart : ¬ Pasted spaced) :
    pieces (written spaced) = spaced.flatMap Spaced.pieces := by
  induction spaced with
  | nil => exact pieces_nil
  | cons first rest ih =>
      have ends := (first.endsBefore_iff rest).mpr fun pasted => apart (.front pasted)
      have shape : first.token.text ++ (first.gap.text ++ written rest) =
          first.token.lead :: (first.token.text.tail ++ (first.gap.text ++ written rest)) := by
        rw [← List.cons_append, ← first.token.text_eq_cons]
      have taken := Piece.first_of_lexeme first.token.lexeme ends shape
      rw [written_cons, shape, pieces_cons, taken, pieces_blanks,
        ih fun pasted => apart (.later pasted), List.flatMap_cons, Spaced.pieces,
        List.cons_append]

end Lox
