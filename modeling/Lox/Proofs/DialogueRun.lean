import Lox.Prompt.Dialogue

/-!
# Dialogues as sessions

A dialogue that is fed its input in parts, wherever these are cut, and is then closed does what a
session does with the whole of it.
-/

set_option autoImplicit false

namespace Lox

/-- The items of some lines behind an entry under way. -/
def itemsBehind (pending : Option OpenEntry) (lines : List (Except Fault String)) :
    List (Except Fault String) :=
  (lines.foldl Grouping.add ⟨[], pending⟩).finish

theorem Grouping.add_eq (items : List (Except Fault String)) (pending : Option OpenEntry)
    (line : Except Fault String) :
    add ⟨items, pending⟩ line =
      ⟨(add ⟨[], pending⟩ line).items ++ items, (add ⟨[], pending⟩ line).pending⟩ := by
  cases line with
  | error fault => rfl
  | ok line =>
      cases pending with
      | none =>
          simp only [add]
          split <;> rfl
      | some before =>
          simp only [add]
          split <;> rfl

theorem Grouping.finish_eq (items : List (Except Fault String)) (pending : Option OpenEntry) :
    finish ⟨items, pending⟩ = items.reverse ++ finish ⟨[], pending⟩ := by
  cases pending with
  | none => simp [finish]
  | some entry => simp [finish]

theorem Grouping.finish_foldl_add (items : List (Except Fault String))
    (pending : Option OpenEntry) (lines : List (Except Fault String)) :
    (lines.foldl add ⟨items, pending⟩).finish = items.reverse ++ itemsBehind pending lines := by
  induction lines generalizing items pending with
  | nil => exact finish_eq items pending
  | cons line rest ih =>
      rw [itemsBehind, List.foldl_cons, List.foldl_cons, add_eq, ih,
        ih (add ⟨[], pending⟩ line).items, List.reverse_append, List.append_assoc]

/-- What a line completes is answered before the lines behind it are looked at. -/
theorem forM_itemsBehind_cons (log : Log) (pending : Option OpenEntry)
    (line : Except Fault String) (rest : List (Except Fault String)) :
    (itemsBehind pending (line :: rest)).forM (answer log) =
      (Grouping.add ⟨[], pending⟩ line).items.reverse.forM (answer log) >>= fun _ =>
        (itemsBehind (Grouping.add ⟨[], pending⟩ line).pending rest).forM (answer log) := by
  have items : itemsBehind pending (line :: rest) =
      (Grouping.add ⟨[], pending⟩ line).items.reverse ++
        itemsBehind (Grouping.add ⟨[], pending⟩ line).pending rest :=
    Grouping.finish_foldl_add _ _ rest
  rw [items]
  exact List.forM_append

namespace Dialogue

variable (log : Log)

theorem takeLine_bind (dialogue : Dialogue) (line : List UInt8) {Result : Type}
    (next : Dialogue → ConsoleM Result) :
    (dialogue.takeLine log line >>= next) =
      (Grouping.add ⟨[], dialogue.pending⟩ (decodeText ⟨line.toArray⟩)).items.reverse.forM
          (answer log) >>= fun _ =>
        next ⟨[], (Grouping.add ⟨[], dialogue.pending⟩ (decodeText ⟨line.toArray⟩)).pending⟩ := by
  simp only [takeLine, bind_assoc, pure_bind]

-- A byte that ends no line changes nothing but the line under way, so that line and entry under way
-- have to be general in the induction on the bytes.
theorem foldlM_takeByte_close (line : List UInt8) (pending : Option OpenEntry)
    (bytes : List UInt8) :
    (bytes.foldlM (takeByte log) ⟨line, pending⟩ >>= close log) =
      (itemsBehind pending ((cutLines [] line bytes).map fun line =>
        decodeText ⟨line.toArray⟩)).forM (answer log) := by
  induction bytes generalizing line pending with
  | nil =>
      change close log ⟨line, pending⟩ = _
      rw [close, cutLines]
      cases line with
      | nil => rfl
      | cons last before =>
          simp only [List.isEmpty_cons, Bool.false_eq_true, ↓reduceIte, takeLine_bind]
          rw [List.reverse_singleton, List.map_cons, List.map_nil, forM_itemsBehind_cons]
          rfl
  | cons byte rest ih =>
      rw [List.foldlM_cons, bind_assoc, takeByte, cutLines]
      split
      · rw [takeLine_bind, cutLines_eq_append, List.reverse_singleton, List.singleton_append,
          List.map_cons, forM_itemsBehind_cons, ← ih]
      · rw [pure_bind, ih]

theorem foldlM_take (chunks : List (List UInt8)) (dialogue : Dialogue) :
    chunks.foldlM (take log) dialogue = chunks.flatten.foldlM (takeByte log) dialogue := by
  induction chunks generalizing dialogue with
  | nil => rfl
  | cons chunk rest ih =>
      rw [List.flatten_cons, List.foldlM_append, List.foldlM_cons]
      exact congrArg (dialogue.take log chunk >>= ·) (funext ih)

theorem foldlM_take_close {chunks : List (List UInt8)} {stream : ByteArray}
    (whole : chunks.flatten = stream.toList) :
    (do
      let dialogue ← begin
      let dialogue ← chunks.foldlM (take log) dialogue
      dialogue.close log) = session log stream := by
  simp only [begin, bind_assoc, pure_bind, foldlM_take, whole, foldlM_takeByte_close]
  rfl

end Dialogue

end Lox
