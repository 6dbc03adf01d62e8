import Lox.Prompt.Line

/-!
# Lines of a stream

No line that is read from a stream holds a line feed, neither as a byte nor as a character. How the
bytes fall into lines is also told by a relation, without a state that runs along the bytes.
-/

set_option autoImplicit false

namespace Lox

private theorem lineFeed_not_mem_finishLine {reversed : List UInt8}
    (inside : lineFeed ∉ reversed) : lineFeed ∉ finishLine reversed := by
  unfold finishLine
  split
  · exact List.not_mem_nil
  · next last before =>
    split
    · intro member
      exact inside (List.mem_cons_of_mem _ (List.mem_reverse.mp member))
    · intro member
      exact inside (List.mem_reverse.mp member)

private theorem lineFeed_not_mem_cutLines {done : List (List UInt8)} {current : List UInt8}
    (stream : List UInt8) (doneInside : ∀ line ∈ done, lineFeed ∉ line)
    (currentInside : lineFeed ∉ current) :
    ∀ line ∈ cutLines done current stream, lineFeed ∉ line := by
  induction stream generalizing done current with
  | nil =>
      intro line member
      rw [cutLines, List.mem_reverse] at member
      split at member
      · exact doneInside line member
      · rcases List.mem_cons.mp member with same | earlier
        · rw [same, List.mem_reverse]
          exact currentInside
        · exact doneInside line earlier
  | cons byte rest ih =>
      rw [cutLines]
      split
      · apply ih
        · intro line member
          rcases List.mem_cons.mp member with same | earlier
          · rw [same]
            exact lineFeed_not_mem_finishLine currentInside
          · exact doneInside line earlier
        · exact List.not_mem_nil
      · next other =>
        apply ih doneInside
        intro member
        rcases List.mem_cons.mp member with same | earlier
        · exact other same.symm
        · exact currentInside earlier

theorem lineFeed_not_mem_byteLines (stream : List UInt8) :
    ∀ line ∈ byteLines stream, lineFeed ∉ line :=
  lineFeed_not_mem_cutLines stream (fun _ member => nomatch member) List.not_mem_nil

theorem decodeText_eq_ok_iff {bytes : ByteArray} {text : String} :
    decodeText bytes = .ok text ↔ text.toByteArray = bytes := by
  constructor
  · intro decoded
    unfold decodeText String.fromUTF8? at decoded
    split at decoded
    · next found shape =>
      split at shape
      · cases shape
        cases decoded
        rfl
      · cases shape
    · cases decoded
  · rintro rfl
    rw [decodeText, String.fromUTF8?, dif_pos text.isValidUTF8]
    rfl

private theorem mem_bytes_of_mem {text : String} {c : Char} {byte : UInt8}
    (member : c ∈ text.toList) (encoded : byte ∈ String.utf8EncodeChar c) :
    byte ∈ text.toByteArray.data.toList := by
  rw [← String.utf8Encode_toList, List.utf8Encode, List.toList_data_toByteArray]
  exact List.mem_flatMap.mpr ⟨c, member, encoded⟩

theorem lineFeed_not_mem_textLines {stream : ByteArray} {line : String}
    (member : .ok line ∈ textLines stream) : '\n' ∉ line.toList := by
  intro feed
  obtain ⟨bytes, byteMember, decoded⟩ := List.mem_map.mp member
  have encoded : lineFeed ∈ String.utf8EncodeChar '\n' := by decide
  have feedByte := mem_bytes_of_mem feed encoded
  rw [decodeText_eq_ok_iff.mp decoded] at feedByte
  exact lineFeed_not_mem_byteLines stream.toList bytes byteMember feedByte

/-! ## Lines as a relation -/

/-- The lines of a stream of bytes. A line feed ends a line, with a carriage return directly before
it or without; what stands behind the last line feed is a line as it is. -/
inductive SplitsInto : List UInt8 → List (List UInt8) → Prop where
  | done : SplitsInto [] []
  | unfinished {line : List UInt8} :
      lineFeed ∉ line → line ≠ [] → SplitsInto line [line]
  | fed {line rest : List UInt8} {lines : List (List UInt8)} :
      lineFeed ∉ line → line.getLast? ≠ some carriageReturn → SplitsInto rest lines →
      SplitsInto (line ++ lineFeed :: rest) (line :: lines)
  | returned {line rest : List UInt8} {lines : List (List UInt8)} :
      lineFeed ∉ line → SplitsInto rest lines →
      SplitsInto (line ++ carriageReturn :: lineFeed :: rest) (line :: lines)

theorem splitsInto_byteLines (stream : List UInt8) : SplitsInto stream (byteLines stream) := by
  by_cases feed : lineFeed ∈ stream
  · obtain ⟨line, rest, split, inside⟩ := List.eq_append_cons_of_mem feed
    have shorter : rest.length < stream.length := by
      rw [split, List.length_append, List.length_cons]
      omega
    have restSplits := splitsInto_byteLines rest
    rw [split, byteLines_append_lineFeed inside, finishLine_reverse]
    by_cases returns : line.getLast? = some carriageReturn
    · obtain ⟨kept, rfl⟩ := List.getLast?_eq_some_iff.mp returns
      rw [if_pos returns, List.dropLast_concat, List.append_assoc, List.singleton_append]
      exact .returned (fun member => inside (List.mem_append_left _ member)) restSplits
    · rw [if_neg returns]
      exact .fed inside returns restSplits
  · by_cases empty : stream = []
    · rw [empty, byteLines_nil]
      exact .done
    · rw [byteLines_of_unfinished feed empty]
      exact .unfinished feed empty
termination_by stream.length
decreasing_by exact shorter

theorem SplitsInto.unique {stream : List UInt8} {lines : List (List UInt8)}
    (splits : SplitsInto stream lines) : byteLines stream = lines := by
  induction splits with
  | done => rfl
  | unfinished inside nonempty => exact byteLines_of_unfinished inside nonempty
  | fed inside noReturn _ ih =>
      rw [byteLines_append_lineFeed inside, finishLine_reverse, if_neg noReturn, ih]
  | @returned line rest lines inside _ ih =>
      have returnInside : lineFeed ∉ line ++ [carriageReturn] := by
        intro member
        rcases List.mem_append.mp member with before | same
        · exact inside before
        · exact absurd (List.mem_singleton.mp same) (by decide)
      have shape : line ++ carriageReturn :: lineFeed :: rest =
          (line ++ [carriageReturn]) ++ lineFeed :: rest := by simp
      rw [shape, byteLines_append_lineFeed returnInside, finishLine_reverse,
        if_pos List.getLast?_concat, List.dropLast_concat, ih]

theorem byteLines_eq_iff {stream : List UInt8} {lines : List (List UInt8)} :
    byteLines stream = lines ↔ SplitsInto stream lines := by
  constructor
  · rintro rfl
    exact splitsInto_byteLines stream
  · exact SplitsInto.unique

end Lox
