/-!
# Plain text

Notices quote what was typed, but as plain text: control characters other than white space are left
out, and so are the control sequences that would steer a terminal. `ControlState.step` says what
each character does; `plainText` and `streamText` keep the characters that are shown.
-/

set_option autoImplicit false

namespace Lox

/-- Where a text stands with respect to control sequences. -/
inductive ControlState where
  | outside
  | escape
  -- after an escape character and the blanks or marks that announce one more character
  | announced
  -- in a sequence that a character from `@` to `~` ends
  | sequence
  -- at the start of a device command
  | device
  -- in the parameters of a device command
  | parameters
  -- in the blanks or marks that announce the body of a device command
  | marks
  -- in the body of a command that the command terminator ends
  | command
  -- in the body of a command that a bell ends
  | commandToBell
  deriving DecidableEq

namespace ControlState

def isLayout (c : Char) : Bool :=
  c == '\t' || c == '\n' || c == '\x0c' || c == '\r'

def isControl (c : Char) : Bool :=
  c.toNat < 0x20 || c.toNat == 0x7F

def isBetween (first last c : Char) : Bool :=
  first ≤ c && c ≤ last

def holdsTerminator (c : Char) : Bool :=
  -- the command terminator is a single byte, and any byte of a character may be it
  (String.utf8EncodeChar c).contains 0x9C

/-- What a character does where white space is shown: the state after it, and whether it is shown.
An escape character starts anew in every state, and a cancellation leads outside. White space is
shown outside of commands and changes no state. -/
def step (state : ControlState) (c : Char) : ControlState × Bool :=
  if c == '\x1b' then (escape, false)
  else if c == '\x18' || c == '\x1a' then (outside, false)
  else
    match state with
    | outside => (outside, isLayout c || !isControl c)
    | escape =>
        if isLayout c then (escape, true)
        else if isBetween ' ' '/' c then (announced, false)
        else if c == '[' then (sequence, false)
        else if c == ']' then (commandToBell, false)
        else if c == 'P' then (device, false)
        else if c == 'X' || c == '^' || c == '_' then (command, false)
        else if isBetween '0' '~' c then (outside, false)
        else (escape, false)
    | announced =>
        if isLayout c then (announced, true)
        else if isBetween '0' '~' c then (outside, false)
        else (announced, false)
    | sequence =>
        if isLayout c then (sequence, true)
        else if isBetween '@' '~' c then (outside, false)
        else (sequence, false)
    | device =>
        if isBetween ' ' '/' c then (marks, false)
        else if isBetween '0' '?' c then (parameters, false)
        else if isBetween '@' '~' c then (command, false)
        else (device, false)
    | parameters =>
        if isBetween ' ' '/' c then (marks, false)
        else if isBetween '0' ';' c then (parameters, false)
        else if isBetween '<' '~' c then (command, false)
        else (parameters, false)
    | marks => if isBetween '0' '~' c then (command, false) else (marks, false)
    | command => if holdsTerminator c then (outside, false) else (command, false)
    | commandToBell => if c == '\x07' then (outside, false) else (commandToBell, false)

end ControlState

/-- The plain text in a text. White space that is shown ends the control sequence it stands in. -/
def plainText (text : String) : String :=
  let (_, shown) := text.toList.foldl (fun (state, shown) c =>
    let (after, kept) := ControlState.step state c
    if kept then (ControlState.outside, c :: shown) else (after, shown))
    (ControlState.outside, [])
  String.ofList shown.reverse

/-- A stream that passes on plain text: the control state, and whether the last character was
shown. -/
structure PlainStream where
  state : ControlState
  showing : Bool

def PlainStream.step (stream : PlainStream) (c : Char) : PlainStream × Bool :=
  -- White space that is shown only interrupts the sequence it stands in. Characters are shown from
  -- there on as they are outside, and the first that is not shown takes the sequence up again, unless
  -- a character beyond ASCII has ended it before.
  if stream.showing && (ControlState.step .outside c).2 then
    (⟨if c.toNat < 0x80 then stream.state else .outside, true⟩, true)
  else
    let (after, kept) := ControlState.step stream.state c
    (⟨after, kept⟩, kept)

def streamText (text : String) : String :=
  let (_, shown) := text.toList.foldl (fun (stream, shown) c =>
    let (after, kept) := PlainStream.step stream c
    (after, if kept then c :: shown else shown)) (⟨ControlState.outside, false⟩, [])
  String.ofList shown.reverse

def firstLine (text : String) : String :=
  let line := text.toList.takeWhile (· != '\n')
  -- a carriage return belongs to the end of a line only if a line feed follows it
  if line.length < text.toList.length ∧ line.getLast? = some '\r' then String.ofList line.dropLast
  else String.ofList line

end Lox
