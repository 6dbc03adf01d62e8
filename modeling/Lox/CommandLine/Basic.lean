import Lox.CommandLine.PlainText

/-!
# Command line

What can be asked for on the command line, and the notices that answer a command line which asks for
no work or cannot be understood.
-/

set_option autoImplicit false

namespace Lox

inductive Flag where
  | verbose | help | version
  deriving DecidableEq

namespace Flag

def all : List Flag :=
  [verbose, help, version]

def name : Flag → String
  | verbose => "verbose"
  | help => "help"
  | version => "version"

def letter : Flag → Char
  | verbose => 'v'
  | help => 'h'
  | version => 'V'

def ofName? (name : String) : Option Flag :=
  -- a name is not to be abbreviated
  all.find? (·.name == name)

def ofLetter? (letter : Char) : Option Flag :=
  all.find? (·.letter == letter)

end Flag

/-- What a command line settles: the script to list, or none for the prompt, and whether the work is
to be logged. -/
structure Settings where
  script : Option String
  verbose : Bool
  deriving DecidableEq

inductive Notice where
  | help
  | version
  -- an argument that has no meaning where it stands
  | unexpectedArgument (shown : String)
  | repeatedVerbose
  -- an option with a value, which no option takes
  | unexpectedValue (value : String) (flag : Flag)
  | emptyScript
  deriving DecidableEq

namespace Notice

def isRefusal : Notice → Bool
  | help | version => false
  | _ => true

def helpText : String :=
  "Tokenize Lox source and print one token per line\n" ++
  "\n" ++
  "Usage: loxscan [OPTIONS] [SCRIPT]\n" ++
  "\n" ++
  "Arguments:\n" ++
  "  [SCRIPT]  Script to scan. Starts an interactive prompt when omitted\n" ++
  "\n" ++
  "Options:\n" ++
  "  -v, --verbose  Log scanner activity at debug level (RUST_LOG takes precedence)\n" ++
  "  -h, --help     Print help\n" ++
  "  -V, --version  Print version\n"

def versionText : String :=
  "loxscan 0.1.0\n"

def refusal (wording : String) : String :=
  -- of a wording that runs over several lines only the first is told
  firstLine ("error: " ++ wording)

/-- What is told for a notice, with what was typed quoted as `plain` makes it. -/
def textWith (plain : String → String) : Notice → String
  | help => helpText
  | version => versionText
  | unexpectedArgument shown => refusal ("unexpected argument '" ++ plain shown ++ "' found")
  | repeatedVerbose => refusal "the argument '--verbose' cannot be used multiple times"
  | unexpectedValue value flag =>
      refusal ("unexpected value '" ++ plain value ++ "' for '--" ++ flag.name ++
        "' found; no more were expected")
  | emptyScript => refusal "a value is required for '[SCRIPT]' but none was supplied"

def text (notice : Notice) : String :=
  notice.textWith plainText

def written (notice : Notice) : String :=
  notice.textWith streamText

end Notice

end Lox
