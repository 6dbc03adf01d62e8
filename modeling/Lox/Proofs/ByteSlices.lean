import Lox.Source.Slice

/-!
# Slices as parts

A slice has an answer where its ends cut the text between characters, and is then what lies between
them.
-/

set_option autoImplicit false

namespace Lox

def byteLength (text : List Char) : Nat :=
  (String.ofList text).utf8ByteSize

@[simp] theorem byteLength_nil : byteLength [] = 0 := by
  rw [byteLength, String.ofList_nil, String.utf8ByteSize_empty]

@[simp] theorem byteLength_append (left right : List Char) :
    byteLength (left ++ right) = byteLength left + byteLength right := by
  rw [byteLength, String.ofList_append, String.utf8ByteSize_append]
  rfl

@[simp] theorem byteLength_singleton (c : Char) : byteLength [c] = c.utf8Size := by
  rw [byteLength, ← String.singleton_eq_ofList, String.utf8ByteSize_singleton]

theorem byteLength_eq_zero_iff {text : List Char} : byteLength text = 0 ↔ text = [] := by
  rw [byteLength, String.utf8ByteSize_eq_zero_iff, String.ofList_eq_empty_iff]

theorem pos?_eq_some_iff {text : String} {offset : Nat} {position : text.Pos} :
    text.pos? ⟨offset⟩ = some position ↔ position.offset.byteIdx = offset := by
  rw [String.pos?, Option.map_eq_some_iff, String.Slice.pos?]
  constructor
  · rintro ⟨found, shape, rfl⟩
    split at shape
    · cases shape
      rfl
    · cases shape
  · rintro rfl
    have valid := String.Pos.Raw.isValidForSlice_toSlice_iff.mpr position.isValid
    refine ⟨position.toSlice, ?_, String.Pos.ofToSlice_toSlice position⟩
    rw [dif_pos (String.Pos.Raw.isValidForSlice_eq_true_iff.mpr valid)]
    rfl

/-- A slice cuts its text in three. -/
theorem slice?_eq_some_iff {text part : String} {start stop : Nat} :
    slice? text start stop = some part ↔
      ∃ before after, text = before ++ (part ++ after) ∧ start = before.utf8ByteSize ∧
        stop = (before ++ part).utf8ByteSize := by
  have positions : slice? text start stop = some part ↔ ∃ first last : text.Pos,
      first.offset.byteIdx = start ∧ last.offset.byteIdx = stop ∧
        ∃ ordered, (text.slice first last ordered).copy = part := by
    simp only [slice?, String.slice?, Option.bind_eq_bind, Option.bind_eq_some_iff,
      Option.dite_none_right_eq_some, Option.some.injEq, pos?_eq_some_iff, Option.pure_def]
    constructor
    · rintro ⟨first, firstAt, last, lastAt, _, ⟨ordered, rfl⟩, same⟩
      exact ⟨first, last, firstAt, lastAt, ordered, same⟩
    · rintro ⟨first, last, firstAt, lastAt, ordered, same⟩
      exact ⟨first, firstAt, last, lastAt, _, ⟨ordered, rfl⟩, same⟩
  rw [positions]
  simp only [String.copy_slice_eq_iff_splits]
  constructor
  · rintro ⟨first, last, rfl, rfl, before, after, firstSplits, lastSplits⟩
    exact ⟨before, after, firstSplits.eq_append,
      congrArg String.Pos.Raw.byteIdx firstSplits.offset_eq_rawEndPos,
      congrArg String.Pos.Raw.byteIdx lastSplits.offset_eq_rawEndPos⟩
  · rintro ⟨before, after, shape, rfl, rfl⟩
    have regrouped : text = before ++ part ++ after := by rw [shape, String.append_assoc]
    exact ⟨text.pos ⟨_⟩ (String.Pos.Raw.isValid_iff_exists_append.mpr ⟨_, _, shape, rfl⟩),
      text.pos ⟨_⟩ (String.Pos.Raw.isValid_iff_exists_append.mpr ⟨_, _, regrouped, rfl⟩),
      rfl, rfl, before, after, ⟨shape, rfl⟩, ⟨regrouped, rfl⟩⟩

section Parts

variable {text : String} {before part after : List Char}

theorem slice?_of_parts (shape : text.toList = before ++ part ++ after) :
    slice? text (byteLength before) (byteLength (before ++ part)) =
      some (String.ofList part) := by
  refine slice?_eq_some_iff.mpr ⟨String.ofList before, String.ofList after, ?_, rfl, ?_⟩
  · rw [← String.ofList_toList (s := text), shape, String.ofList_append, String.ofList_append,
      String.append_assoc]
  · rw [byteLength, String.ofList_append]

theorem slice?_rest (shape : text.toList = before ++ after) :
    slice? text (byteLength before) text.utf8ByteSize = some (String.ofList after) := by
  have whole : text.utf8ByteSize = byteLength (before ++ after) := by
    rw [byteLength, ← shape, String.ofList_toList]
  rw [whole]
  exact slice?_of_parts (by rw [shape, List.append_nil])

theorem isValid_byteLength (shape : text.toList = before ++ after) :
    String.Pos.Raw.IsValid text ⟨byteLength before⟩ := by
  refine String.Pos.Raw.isValid_iff_exists_append.mpr
    ⟨String.ofList before, String.ofList after, ?_, rfl⟩
  rw [← String.ofList_append, ← shape, String.ofList_toList]

end Parts

end Lox
