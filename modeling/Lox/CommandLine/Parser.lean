import Lox.CommandLine.Basic

/-!
# Reading the command line

Arguments are taken from left to right and the first notice decides. An empty script name is
noticed late: when the next option is raised, or when the arguments end.
-/

set_option autoImplicit false

namespace Lox

/-- What an argument is by its looks. -/
inductive Argument where
  -- two dashes alone: whatever follows is positional
  | separator
  -- two dashes and a name, with a value if an equals sign follows the name
  | long (name : String) (value : Option String)
  -- a dash and letters, each of which is an option
  | cluster (letters : List Char)
  -- anything else, a single dash included
  | positional (text : String)
  deriving DecidableEq

def Argument.ofString (text : String) : Argument :=
  match text.toList with
  | ['-', '-'] => .separator
  | '-' :: '-' :: spelled =>
      let name := String.ofList (spelled.takeWhile (· != '='))
      match spelled.dropWhile (· != '=') with
      | [] => .long name none
      | _ :: value => .long name (some (String.ofList value))
  | '-' :: letter :: letters => .cluster (letter :: letters)
  | _ => .positional text

namespace Settings

def initial : Settings :=
  ⟨none, false⟩

def checkScript (settings : Settings) : Except Notice Settings :=
  if settings.script = some "" then .error .emptyScript else .ok settings

def raise (settings : Settings) (flag : Flag) : Except Notice Settings := do
  let settings ← settings.checkScript
  match flag with
  | .help => .error .help
  | .version => .error .version
  | .verbose =>
      if settings.verbose then .error .repeatedVerbose
      else .ok { settings with verbose := true }

def raiseLetter (settings : Settings) (letter : Char) : Except Notice Settings :=
  match Flag.ofLetter? letter with
  | some flag => settings.raise flag
  | none => .error (.unexpectedArgument (String.ofList ['-', letter]))

def raiseName (settings : Settings) (name : String) (value : Option String) :
    Except Notice Settings :=
  match Flag.ofName? name, value with
  | some flag, none => settings.raise flag
  | some flag, some value => .error (.unexpectedValue value flag)
  | none, _ => .error (.unexpectedArgument ("--" ++ name))

def takePositional (settings : Settings) (text : String) : Except Notice Settings :=
  match settings.script with
  -- there is one script at most
  | some _ => .error (.unexpectedArgument text)
  | none => .ok { settings with script := some text }

def takeAll (settings : Settings) : List String → Except Notice Settings
  | [] => .ok settings
  | argument :: rest =>
      match Argument.ofString argument with
      | .separator => rest.foldlM takePositional settings
      | .long name value => do (← settings.raiseName name value).takeAll rest
      | .cluster letters => do (← letters.foldlM raiseLetter settings).takeAll rest
      | .positional text => do (← settings.takePositional text).takeAll rest

def parse (arguments : List String) : Except Notice Settings := do
  (← initial.takeAll arguments).checkScript

end Settings

end Lox
