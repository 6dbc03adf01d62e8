import Lox.Output.Console

/-!
# Writing in parts

Texts that are written one after the other to a channel leave it as their concatenation would, also
where a limit cuts one of them: what comes after the cut is not tried.
-/

set_option autoImplicit false

namespace Lox

/-! ## Limits -/

def exceeds (limit : Option Nat) (bytes : ByteArray) : Bool :=
  limit.any (· < bytes.size)

/-- The bytes that come before a limit. -/
def cutAt (limit : Option Nat) (bytes : ByteArray) : ByteArray :=
  match limit with
  | none => bytes
  | some count => bytes.extract 0 count

private theorem extract_of_size_le {bytes : ByteArray} {count : Nat}
    (bound : bytes.size ≤ count) : bytes.extract 0 count = bytes := by
  have whole := ByteArray.extract_zero_max_size (a := bytes) (i := count)
  rwa [Nat.max_eq_left bound] at whole

theorem cutAt_of_within {limit : Option Nat} {bytes : ByteArray}
    (within : exceeds limit bytes = false) : cutAt limit bytes = bytes := by
  cases limit with
  | none => rfl
  | some count =>
      apply extract_of_size_le
      simpa [exceeds] using within

theorem exceeds_append (limit : Option Nat) (left right : ByteArray) :
    exceeds limit (left ++ right) =
      (exceeds limit left || exceeds (limit.map (· - left.size)) right) := by
  cases limit with
  | none => rfl
  | some count =>
      simp only [exceeds, ByteArray.size_append, Option.map_some, Option.any_some]
      grind

theorem cutAt_append (limit : Option Nat) (left right : ByteArray) :
    cutAt limit (left ++ right) =
      if exceeds limit left then cutAt limit left
      else left ++ cutAt (limit.map (· - left.size)) right := by
  cases limit with
  | none => rfl
  | some count =>
      simp only [cutAt, exceeds, Option.map_some, Option.any_some, ByteArray.extract_append,
        Nat.zero_sub]
      cases Nat.lt_or_ge count left.size with
      | inl cut => simp [cut, Nat.sub_eq_zero_of_le (Nat.le_of_lt cut)]
      | inr whole => simp [Nat.not_lt.mpr whole, extract_of_size_le whole]

namespace Sink

def capacity (sink : Sink) : Option Nat :=
  sink.limit.map (· - sink.accepted.size)

@[simp] theorem capacity_empty (limit : Option Nat) : (empty limit).capacity = limit := by
  cases limit with
  | none => rfl
  | some count => rfl

theorem fits_eq (sink : Sink) (text : String) :
    sink.fits text = !exceeds sink.capacity text.toUTF8 := by
  have size : text.toUTF8.size = text.utf8ByteSize := String.size_toByteArray
  cases limited : sink.limit with
  | none => simp [fits, room, capacity, exceeds, limited]
  | some limit =>
      simp only [fits, room, capacity, exceeds, limited, size, Option.map_some, Option.any_some]
      grind

theorem accept_eq (sink : Sink) (text : String) :
    sink.accept text = ⟨sink.limit, sink.accepted ++ cutAt sink.capacity text.toUTF8⟩ := by
  have size : text.toUTF8.size = text.utf8ByteSize := String.size_toByteArray
  have whole : text.toUTF8.extract 0 text.utf8ByteSize = text.toUTF8 :=
    extract_of_size_le (Nat.le_of_eq size)
  cases limited : sink.limit with
  | none => simp only [accept, room, capacity, cutAt, limited, Option.map_none, whole]
  | some limit =>
      simp only [accept, room, capacity, cutAt, limited, Option.map_some]
      cases Nat.le_total text.utf8ByteSize (limit - sink.accepted.size) with
      | inl fits => rw [Nat.min_eq_left fits, whole, extract_of_size_le (size ▸ fits)]
      | inr cut => rw [Nat.min_eq_right cut]

theorem capacity_accept {sink : Sink} {text : String} (fits : sink.fits text = true) :
    (sink.accept text).capacity = sink.capacity.map (· - text.toUTF8.size) := by
  rw [fits_eq, Bool.not_eq_true'] at fits
  rw [accept_eq, cutAt_of_within fits]
  simp only [capacity, ByteArray.size_append, Option.map_map, Function.comp_def, Nat.sub_sub]

theorem fits_append (sink : Sink) (left right : String) :
    sink.fits (left ++ right) = (sink.fits left && (sink.accept left).fits right) := by
  have bytes : (left ++ right).toUTF8 = left.toUTF8 ++ right.toUTF8 := String.toByteArray_append
  have parts := exceeds_append sink.capacity left.toUTF8 right.toUTF8
  rw [fits_eq, bytes, parts, Bool.not_or, ← fits_eq]
  cases fits : sink.fits left with
  | false => rfl
  | true => rw [fits_eq (sink.accept left), capacity_accept fits]

theorem accept_append (sink : Sink) (left right : String) :
    sink.accept (left ++ right) =
      if sink.fits left then (sink.accept left).accept right else sink.accept left := by
  have bytes : (left ++ right).toUTF8 = left.toUTF8 ++ right.toUTF8 := String.toByteArray_append
  have parts := cutAt_append sink.capacity left.toUTF8 right.toUTF8
  cases fits : sink.fits left with
  | false =>
      rw [fits_eq, Bool.not_eq_false'] at fits
      rw [if_pos fits] at parts
      rw [if_neg Bool.false_ne_true, accept_eq, accept_eq, bytes, parts]
  | true =>
      have room := capacity_accept fits
      rw [fits_eq, Bool.not_eq_true'] at fits
      rw [if_neg (ne_true_of_eq_false fits)] at parts
      rw [if_pos rfl, accept_eq (sink.accept left), room, accept_eq, bytes, parts, accept_eq,
        cutAt_of_within fits, ByteArray.append_assoc]

theorem fits_nothing (sink : Sink) : sink.fits "" = true := by
  cases limited : sink.limit with
  | none => exact fits_of_unlimited limited ""
  | some limit => simp [fits, room, limited]

theorem accept_nothing (sink : Sink) : sink.accept "" = sink := by
  have none : "".toUTF8.extract 0 (sink.room "".utf8ByteSize) = ByteArray.empty :=
    ByteArray.extract_eq_empty_iff.mpr (Nat.min_le_right _ _)
  rw [accept, none, ByteArray.append_empty]

theorem fits_of_empty (limit : Option Nat) (text : String) :
    (empty limit).fits text = !exceeds limit text.toUTF8 := by
  rw [fits_eq, capacity_empty]

theorem accept_of_empty (limit : Option Nat) (text : String) :
    (empty limit).accept text = ⟨limit, cutAt limit text.toUTF8⟩ := by
  rw [accept_eq, capacity_empty]
  exact congrArg (Sink.mk limit) ByteArray.empty_append

end Sink

namespace Console

@[simp] theorem sink_withSink (console : Console) (channel : Channel) (sink : Sink) :
    (console.withSink channel sink).sink channel = sink := by
  cases channel with
  | out | err => rfl

@[simp] theorem withSink_withSink (console : Console) (channel : Channel) (first second : Sink) :
    (console.withSink channel first).withSink channel second = console.withSink channel second := by
  cases channel with
  | out | err => rfl

theorem accept_nothing (console : Console) (channel : Channel) :
    console.accept channel "" = console := by
  rw [accept, Sink.accept_nothing]
  cases channel with
  | out | err => rfl

theorem accept_append (console : Console) (channel : Channel) (left right : String) :
    console.accept channel (left ++ right) =
      if (console.sink channel).fits left then
        (console.accept channel left).accept channel right
      else console.accept channel left := by
  simp only [accept, sink_withSink, withSink_withSink, Sink.accept_append]
  split <;> rfl

end Console

/-! ## Writing -/

theorem run_put (channel : Channel) (text : String) (console : Console) :
    (put channel text).run console =
      if (console.sink channel).fits text then .ok () (console.accept channel text)
      else .error .limitReached (console.accept channel text) :=
  rfl

theorem put_nothing (channel : Channel) : put channel "" = pure () := by
  funext console
  change (put channel "").run console = (pure () : ConsoleM Unit).run console
  rw [run_put, Sink.fits_nothing, Console.accept_nothing]
  rfl

theorem put_append (channel : Channel) (left right : String) :
    (do put channel left; put channel right) = put channel (left ++ right) := by
  funext console
  change (do put channel left; put channel right : ConsoleM Unit).run console =
    (put channel (left ++ right)).run console
  rw [EStateM.run_bind, run_put, run_put, Sink.fits_append, Console.accept_append]
  -- What follows a text that does not fit is not written, not even in part.
  cases fits : (console.sink channel).fits left with
  | false => rfl
  | true =>
      simp only [↓reduceIte, Bool.true_and]
      rw [run_put, Console.accept, Console.sink_withSink]

theorem forM_put (channel : Channel) {Item : Type} (line : Item → String) (items : List Item) :
    (items.forM fun item => put channel (line item)) =
      put channel (String.join (items.map line)) := by
  induction items with
  | nil => exact (put_nothing channel).symm
  | cons item rest ih =>
      rw [List.map_cons, String.join_cons, ← put_append, ← ih]
      rfl

/-! ## Channels without limits -/

/-- A console that accepts everything and has accepted two texts. -/
def Console.holding (out err : String) : Console :=
  ⟨⟨none, out.toUTF8⟩, ⟨none, err.toUTF8⟩⟩

theorem Console.empty_eq_holding : empty none none = holding "" "" :=
  rfl

private theorem Sink.accept_unlimited (before text : String) :
    (Sink.mk none before.toUTF8).accept text = ⟨none, (before ++ text).toUTF8⟩ := by
  rw [accept_eq]
  exact congrArg (Sink.mk none) String.toByteArray_append.symm

theorem Console.accept_holding (channel : Channel) (out err text : String) :
    (holding out err).accept channel text =
      match channel with
      | .out => holding (out ++ text) err
      | .err => holding out (err ++ text) := by
  cases channel with
  | out | err => simp only [accept, sink, withSink, holding, Sink.accept_unlimited]

@[simp] theorem run_put_holding (channel : Channel) (out err text : String) :
    (put channel text).run (.holding out err) =
      .ok () (match channel with
        | .out => .holding (out ++ text) err
        | .err => .holding out (err ++ text)) := by
  have unlimited : ((Console.holding out err).sink channel).limit = none := by
    cases channel with
    | out | err => rfl
  rw [run_put, Sink.fits_of_unlimited unlimited, Console.accept_holding]
  rfl

end Lox
