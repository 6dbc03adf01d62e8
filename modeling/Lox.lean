import Lox.Lexing.Comparison
import Lox.Lexing.Event
import Lox.Main
import Lox.Program
import Lox.Proofs.Grammar
import Lox.Proofs.PieceBoundary
import Lox.Proofs.LongestMatch
import Lox.Proofs.LexingRelation
import Lox.Proofs.OpenString
import Lox.Proofs.LineBreak
import Lox.Proofs.EntryCompleteness
import Lox.Proofs.SessionLexing
import Lox.Proofs.LineNumbers
import Lox.Proofs.PieceJoin
import Lox.Proofs.QuoteModes
import Lox.Proofs.StringRepair
import Lox.Proofs.EntryBlocks
import Lox.Proofs.Layout
import Lox.Proofs.LayoutLexing
import Lox.Proofs.ConsoleWrites
import Lox.Proofs.ListingExactness
import Lox.Proofs.ListingDecoding
import Lox.Proofs.EventMerge
import Lox.Proofs.LogLines
import Lox.Proofs.SessionTranscript
import Lox.Proofs.DialogueRun
import Lox.Proofs.CommandLineForm
import Lox.Proofs.PathWalk
import Lox.Proofs.ExitStatus
import Lox.Proofs.Binary64Values
import Lox.Proofs.Rounding
import Lox.Proofs.DecimalNotation
import Lox.Proofs.NumberDecoding
import Lox.Proofs.DecimalTexts
import Lox.Proofs.DecimalSearch
import Lox.Proofs.ShortestDecimal
import Lox.Proofs.NumberTexts
import Lox.Proofs.Tiling
import Lox.Proofs.StrayRecovery
import Lox.Proofs.Lookahead
import Lox.Proofs.StringBodies
import Lox.Proofs.CommentErasure
import Lox.Proofs.LineEndings
import Lox.Proofs.CommandLinePrefix
import Lox.Proofs.PromptLineEnds
import Lox.Proofs.ListedNumbers
import Lox.Proofs.ByteSlices
import Lox.Lexing.Scanner
import Lox.Proofs.ScannerSteps
import Lox.Lexing.ScannerLoop
import Lox.Proofs.ScannerCursor
import Lox.Proofs.ScannerTurn
import Lox.Proofs.ScannerRun
import Lox.Prompt.Dialogue
import Lox.Proofs.LogLines
import Lox.Proofs.DialogueRun
