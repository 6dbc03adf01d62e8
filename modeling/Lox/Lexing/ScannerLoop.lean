import Lox.Proofs.ScannerSteps

/-!
# The main loop of a scanner

A scanner takes turns until it is at the end of its source. That the loop ends rests on the steps
that a turn is made of.
-/

set_option autoImplicit false

namespace Lox.Scanner

def mainLoop (scanner : Scanner) : Option Scanner :=
  if scanner.isAtEnd then some scanner
  -- with nothing to come before the end is reached, turns would be taken for ever
  else if _ : scanner.upcoming = [] then none
  else
    match _ : scanner.turn with
    | some next => mainLoop next
    | none => none
termination_by scanner.upcoming.length
decreasing_by exact length_turn_lt ‹_› ‹_›

def addEndOfSource (scanner : Scanner) : Scanner :=
  -- the log is not told of this token
  { scanner with tokens := scanner.tokens ++ [⟨Token.endOfSource scanner.line, none⟩] }

def addSummary (scanner : Scanner) : Scanner :=
  { scanner with
    events := scanner.events ++ [.summary scanner.tokens.length scanner.errors.length] }

def scanTokens (scanner : Scanner) : Option Scanner :=
  scanner.mainLoop.map addEndOfSource

def scan (source : String) : Option Scanner :=
  (new source).scanTokens.map addSummary

end Lox.Scanner
