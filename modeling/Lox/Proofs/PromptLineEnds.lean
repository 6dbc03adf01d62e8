import Lox.Prompt.Session
import Lox.Proofs.EntryBlocks

/-!
# Line ends at the prompt

Whoever types may end any line by a carriage return and a line feed or by a line feed alone: the
items of the prompt are the same. No other carriage return is lost.
-/

set_option autoImplicit false

namespace Lox

/-- Some of the line feeds of a stream, any of them, get a carriage return put in front. -/
inductive InsertsReturns : List UInt8 → List UInt8 → Prop where
  | done : InsertsReturns [] []
  | same {byte : UInt8} {stream other : List UInt8} :
      InsertsReturns stream other → InsertsReturns (byte :: stream) (byte :: other)
  | inserted {stream other : List UInt8} :
      InsertsReturns stream other →
      InsertsReturns (lineFeed :: stream) (carriageReturn :: lineFeed :: other)

def FeedsAlone (stream : List UInt8) : Prop :=
  ¬ [carriageReturn, lineFeed] <:+: stream

/-- The lines of a stream if line feeds alone end lines, so that no byte but these is left out. -/
inductive FeedsInto : List UInt8 → List (List UInt8) → Prop where
  | done : FeedsInto [] []
  | unfinished {line : List UInt8} : lineFeed ∉ line → line ≠ [] → FeedsInto line [line]
  | fed {line rest : List UInt8} {lines : List (List UInt8)} :
      lineFeed ∉ line → FeedsInto rest lines → FeedsInto (line ++ lineFeed :: rest) (line :: lines)

/-! ## Lines with carriage returns put in -/

theorem FeedsAlone.behind {line rest : List UInt8} (alone : FeedsAlone (line ++ lineFeed :: rest)) :
    FeedsAlone rest := by
  intro member
  apply alone
  exact member.trans ((List.suffix_append_of_suffix (List.suffix_cons _ _)).isInfix)

theorem FeedsAlone.not_returned {line rest : List UInt8} :
    ¬ FeedsAlone (line ++ carriageReturn :: lineFeed :: rest) := by
  intro alone
  exact alone ⟨line, rest, by simp⟩

theorem InsertsReturns.eq_of_not_mem {line other : List UInt8}
    (inserts : InsertsReturns line other) (inside : lineFeed ∉ line) : other = line := by
  induction inserts with
  | done => rfl
  | same _ ih => rw [ih (List.not_mem_of_not_mem_cons inside)]
  | inserted _ _ => exact absurd List.mem_cons_self inside

/-- A line is kept as it is, but its line feed may get a carriage return. -/
theorem InsertsReturns.exists_of_fed {line rest other : List UInt8}
    (inserts : InsertsReturns (line ++ lineFeed :: rest) other) (inside : lineFeed ∉ line) :
    ∃ behind, InsertsReturns rest behind ∧
      (other = line ++ lineFeed :: behind ∨
        other = line ++ carriageReturn :: lineFeed :: behind) := by
  induction line generalizing other with
  | nil =>
      cases inserts with
      | same inserts => exact ⟨_, inserts, .inl rfl⟩
      | inserted inserts => exact ⟨_, inserts, .inr rfl⟩
  | cons byte line ih =>
      obtain ⟨notFeed, lineInside⟩ := List.ne_and_not_mem_of_not_mem_cons inside
      cases inserts with
      | same inserts =>
          obtain ⟨behind, restInserts, rfl | rfl⟩ := ih inserts lineInside
          · exact ⟨behind, restInserts, .inl rfl⟩
          · exact ⟨behind, restInserts, .inr rfl⟩
      | inserted _ => exact absurd rfl notFeed

theorem SplitsInto.of_insertsReturns {stream other : List UInt8} {lines : List (List UInt8)}
    (splits : SplitsInto stream lines) (alone : FeedsAlone stream)
    (inserts : InsertsReturns stream other) : SplitsInto other lines := by
  induction splits generalizing other with
  | done =>
      cases inserts
      exact .done
  | unfinished inside nonempty =>
      rw [inserts.eq_of_not_mem inside]
      exact .unfinished inside nonempty
  | fed inside noReturn _ ih =>
      obtain ⟨behind, restInserts, rfl | rfl⟩ := inserts.exists_of_fed inside
      · exact .fed inside noReturn (ih alone.behind restInserts)
      · exact .returned inside (ih alone.behind restInserts)
  | returned _ _ _ => exact absurd alone FeedsAlone.not_returned

theorem SplitsInto.feedsInto {stream : List UInt8} {lines : List (List UInt8)}
    (splits : SplitsInto stream lines) (alone : FeedsAlone stream) : FeedsInto stream lines := by
  induction splits with
  | done => exact .done
  | unfinished inside nonempty => exact .unfinished inside nonempty
  | fed inside _ _ ih => exact .fed inside (ih alone.behind)
  | returned _ _ _ => exact absurd alone FeedsAlone.not_returned

theorem textLines_eq_of_insertsReturns {stream other : ByteArray}
    (alone : FeedsAlone stream.toList) (inserts : InsertsReturns stream.toList other.toList) :
    textLines other = textLines stream := by
  have splits := splitsInto_byteLines stream.toList
  rw [textLines, textLines, (splits.of_insertsReturns alone inserts).unique]

/-! ## The bytes of entries -/

theorem toUTF8_intercalate {texts : List String} {lines : List (List UInt8)}
    (decoded : (lines.map fun line => decodeText ⟨line.toArray⟩) = texts.map .ok) :
    ("\n".intercalate texts).toUTF8 = ⟨([lineFeed].intercalate lines).toArray⟩ := by
  induction texts generalizing lines with
  | nil =>
      obtain rfl := List.map_eq_nil_iff.mp decoded
      rfl
  | cons text texts ih =>
      obtain ⟨line, rest, rfl, lineDecoded, restDecoded⟩ := List.map_eq_cons_iff.mp decoded
      have bytes : text.toByteArray = ⟨line.toArray⟩ := decodeText_eq_ok_iff.mp lineDecoded
      cases texts with
      | nil =>
          obtain rfl := List.map_eq_nil_iff.mp restDecoded
          rw [String.intercalate_singleton, List.intercalate_singleton]
          exact bytes
      | cons second texts =>
          obtain ⟨next, rest, rfl, _, _⟩ := List.map_eq_cons_iff.mp restDecoded
          have behind : ("\n".intercalate (second :: texts)).toByteArray =
              ⟨([lineFeed].intercalate (next :: rest)).toArray⟩ := ih restDecoded
          have feed : "\n".toByteArray = ⟨[lineFeed].toArray⟩ := rfl
          rw [String.intercalate_cons_cons, List.intercalate_cons_cons]
          change (text ++ "\n" ++ "\n".intercalate (second :: texts)).toByteArray = _
          rw [String.toByteArray_append, String.toByteArray_append, bytes, feed, behind]
          apply ByteArray.ext
          simp [ByteArray.data_append]

/-- Whether lines end in a line feed alone or in a carriage return and a line feed, and be it one
way here and the other there, the items of the prompt are the same, and so is all that is written.
An entry has the bytes of its lines up to their line feeds, whatever carriage returns are among
them. -/
theorem entries_of_insertsReturns {stream other : ByteArray} (alone : FeedsAlone stream.toList)
    (inserts : InsertsReturns stream.toList other.toList) :
    entries other = entries stream ∧ (∀ log, session log other = session log stream) ∧
      ∃ lines blocks, FeedsInto stream.toList lines ∧
        Groups (lines.map fun line => decodeText ⟨line.toArray⟩) blocks ∧
        blocks.map Block.item = entries stream ∧
        ∀ texts, .entry texts ∈ blocks →
          ∃ own, own <:+: lines ∧ (own.map fun line => decodeText ⟨line.toArray⟩) = texts.map .ok ∧
            ("\n".intercalate texts).toUTF8 = ⟨([lineFeed].intercalate own).toArray⟩ := by
  have same : entries other = entries stream := by
    rw [entries, textLines_eq_of_insertsReturns alone inserts, entries]
  refine ⟨same, fun log => by rw [session, same, session], ?_⟩
  have splits := splitsInto_byteLines stream.toList
  obtain ⟨blocks, groups⟩ := exists_groups (textLines stream)
  refine ⟨_, blocks, splits.feedsInto alone, groups, groups.entriesOfLines_eq.symm, ?_⟩
  intro texts member
  obtain ⟨before, after, rfl⟩ := List.append_of_mem member
  have cover := groups.cover
  rw [List.flatMap_append, List.flatMap_cons] at cover
  obtain ⟨earlier, rest, shape, _, behind⟩ := List.map_eq_append_iff.mp cover.symm
  obtain ⟨own, later, rfl, decoded, _⟩ := List.map_eq_append_iff.mp behind
  refine ⟨own, ⟨earlier, later, ?_⟩, decoded, toUTF8_intercalate decoded⟩
  rw [shape, List.append_assoc]

/-- Carriage returns are put in inside a string and behind a line that is no text. Those in front of
other characters stay, and so does the one at the end of the unfinished last line. -/
theorem entries_of_inserted_returns :
    FeedsAlone (ByteArray.toList ⟨#[34, 13, 97, 10, 34, 10, 255, 10, 99, 13]⟩) ∧
      InsertsReturns (ByteArray.toList ⟨#[34, 13, 97, 10, 34, 10, 255, 10, 99, 13]⟩)
        (ByteArray.toList ⟨#[34, 13, 97, 13, 10, 34, 10, 255, 13, 10, 99, 13]⟩) ∧
      entries ⟨#[34, 13, 97, 13, 10, 34, 10, 255, 13, 10, 99, 13]⟩ =
        [.ok "\"\ra\n\"", .error .invalidUtf8, .ok "c\r"] := by
  have bytes : ByteArray.toList ⟨#[34, 13, 97, 10, 34, 10, 255, 10, 99, 13]⟩ =
      [34, 13, 97, 10, 34, 10, 255, 10, 99, 13] := by
    decide +kernel
  have otherBytes : ByteArray.toList ⟨#[34, 13, 97, 13, 10, 34, 10, 255, 13, 10, 99, 13]⟩ =
      [34, 13, 97, 13, 10, 34, 10, 255, 13, 10, 99, 13] := by
    decide +kernel
  have alone : FeedsAlone (ByteArray.toList ⟨#[34, 13, 97, 10, 34, 10, 255, 10, 99, 13]⟩) := by
    rw [bytes, FeedsAlone]
    decide
  have inserts : InsertsReturns (ByteArray.toList ⟨#[34, 13, 97, 10, 34, 10, 255, 10, 99, 13]⟩)
      (ByteArray.toList ⟨#[34, 13, 97, 13, 10, 34, 10, 255, 13, 10, 99, 13]⟩) := by
    have lastLines : InsertsReturns [255, 10, 99, 13] [255, 13, 10, 99, 13] :=
      .same (.inserted (.same (.same .done)))
    rw [bytes, otherBytes]
    exact .same (.same (.same (.inserted (.same (.same lastLines)))))
  have items : entries ⟨#[34, 13, 97, 10, 34, 10, 255, 10, 99, 13]⟩ =
      [.ok "\"\ra\n\"", .error .invalidUtf8, .ok "c\r"] := by
    decide +kernel
  exact ⟨alone, inserts, (entries_of_insertsReturns alone inserts).1.trans items⟩

end Lox
