import Sangria.CommandLine.Command
import Sangria.CommandLine.Folder
import Sangria.Diagnostic
import Sangria.Grammar.Phrase
import Sangria.Grammar.Production
import Sangria.Grammar.Reader
import Sangria.Grammar.State
import Sangria.Grammar.Table
import Sangria.Interpreter.Evaluate
import Sangria.Interpreter.Machine
import Sangria.Main
import Sangria.Number.Arithmetic
import Sangria.Number.Binary64
import Sangria.Number.ComplexNumber
import Sangria.Number.Decimal
import Sangria.Number.Numeral
import Sangria.Number.RealText
import Sangria.Number.Rounding
import Sangria.Parse
import Sangria.Position
import Sangria.Program
import Sangria.Proofs.CommandLine.Replies
import Sangria.Proofs.Grammar.Automaton
import Sangria.Proofs.Grammar.Beginning
import Sangria.Proofs.Grammar.Completeness
import Sangria.Proofs.Grammar.Continuing
import Sangria.Proofs.Grammar.Derivation
import Sangria.Proofs.Grammar.Deriving
import Sangria.Proofs.Grammar.Enumeration
import Sangria.Proofs.Grammar.Fitting
import Sangria.Proofs.Grammar.Precedence
import Sangria.Proofs.Grammar.Reading
import Sangria.Proofs.Grammar.Relocation
import Sangria.Proofs.Grammar.Safety
import Sangria.Proofs.Grammar.Soundness
import Sangria.Proofs.Interpreter.Agreement
import Sangria.Proofs.Interpreter.Augmenting
import Sangria.Proofs.Interpreter.Calculating
import Sangria.Proofs.Interpreter.Deepening
import Sangria.Proofs.Interpreter.Framing
import Sangria.Proofs.Interpreter.Journal
import Sangria.Proofs.Interpreter.Keeping
import Sangria.Proofs.Interpreter.Ledger
import Sangria.Proofs.Interpreter.Parameters
import Sangria.Proofs.Interpreter.Placing
import Sangria.Proofs.Interpreter.Reaching
import Sangria.Proofs.Interpreter.Reference
import Sangria.Proofs.Interpreter.Repeating
import Sangria.Proofs.Interpreter.Running
import Sangria.Proofs.Interpreter.Scoping
import Sangria.Proofs.Interpreter.Upholding
import Sangria.Proofs.Parse.EarlyEnd
import Sangria.Proofs.Parse.Editing
import Sangria.Proofs.Parse.Expected
import Sangria.Proofs.Parse.Joining
import Sangria.Proofs.Parse.Lexical
import Sangria.Proofs.Parse.OneLine
import Sangria.Proofs.Parse.QuotedLiteral
import Sangria.Proofs.Parse.Refusing
import Sangria.Proofs.Parse.Safety
import Sangria.Proofs.Parse.Soundness
import Sangria.Proofs.Parse.Standing
import Sangria.Proofs.Parse.Stepping
import Sangria.Proofs.Position
import Sangria.Proofs.Printing.Expression
import Sangria.Proofs.Printing.Line
import Sangria.Proofs.Printing.Program
import Sangria.Proofs.Printing.RoundTrip
import Sangria.Proofs.Printing.Spelling
import Sangria.Proofs.Printing.Word
import Sangria.Proofs.Program.Positions
import Sangria.Proofs.Program.Relocation
import Sangria.Proofs.Run.Endings
import Sangria.Proofs.Run.Escapes
import Sangria.Proofs.Run.Integers
import Sangria.Proofs.Run.Joining
import Sangria.Proofs.Run.Places
import Sangria.Proofs.Token.Asking
import Sangria.Proofs.Token.Canonical
import Sangria.Proofs.Token.Closing
import Sangria.Proofs.Token.Deliveries
import Sangria.Proofs.Token.Editing
import Sangria.Proofs.Token.Indentation
import Sangria.Proofs.Token.Joining
import Sangria.Proofs.Token.Lexing
import Sangria.Proofs.Token.LineCount
import Sangria.Proofs.Token.MaximalMunch
import Sangria.Proofs.Token.Munching
import Sangria.Proofs.Token.Pattern
import Sangria.Proofs.Token.Pulling
import Sangria.Proofs.Token.QuotedText
import Sangria.Proofs.Token.RealLiteral
import Sangria.Proofs.Token.Shape
import Sangria.Proofs.Token.Tiling
import Sangria.Proofs.Token.TokenRule
import Sangria.Proofs.Value.Answers
import Sangria.Proofs.Value.Relocation
import Sangria.Proofs.Value.Templates
import Sangria.Run
import Sangria.Text.Blank
import Sangria.Text.CodePoint
import Sangria.Text.CodeSet
import Sangria.Text.DecimalDigit
import Sangria.Text.Escape
import Sangria.Text.LineEnd
import Sangria.Text.Printable
import Sangria.Text.Quoted
import Sangria.Text.Sink
import Sangria.Text.Utf8
import Sangria.Text.WordChar
import Sangria.Token.Kind
import Sangria.Token.Layout
import Sangria.Token.Munch
import Sangria.Token.Scanner
import Sangria.Token.Stream
import Sangria.Value.Basic
import Sangria.Value.Call
import Sangria.Value.Compare
import Sangria.Value.Operate
import Sangria.Value.Range
import Sangria.Value.Template
