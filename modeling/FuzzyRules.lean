import FuzzyRules.CommandLine.Arguments
import FuzzyRules.CommandLine.Filter
import FuzzyRules.CommandLine.Report
import FuzzyRules.CommandLine.Run
import FuzzyRules.Compilation
import FuzzyRules.Diagnostic
import FuzzyRules.Error
import FuzzyRules.Main
import FuzzyRules.Number.Binary64
import FuzzyRules.Number.Decimal
import FuzzyRules.Number.Numeral
import FuzzyRules.Scope
import FuzzyRules.Rulebase.Read
import FuzzyRules.Script.Basic
import FuzzyRules.Script.Call
import FuzzyRules.Text.Quoted
import FuzzyRules.Token.Basic
import FuzzyRules.Token.Cursor
import FuzzyRules.Token.Grammar
import FuzzyRules.Token.Pattern
import FuzzyRules.Token.Scan
import FuzzyRules.Universe.Read
import FuzzyRules.Proofs.Token.Pattern
import FuzzyRules.Proofs.Token.Word
import FuzzyRules.Proofs.Token.Segmentation
import FuzzyRules.Proofs.Token.Layout
import FuzzyRules.Proofs.Compilation.Run
import FuzzyRules.Proofs.Program.Basic
import FuzzyRules.Proofs.Program.Reading
import FuzzyRules.Proofs.Program.Compile
import FuzzyRules.Proofs.Host.Basic
import FuzzyRules.Proofs.Host.Reading
import FuzzyRules.Proofs.Host.Replay
import FuzzyRules.Proofs.Scope.History
import FuzzyRules.Proofs.Compilation.Calls
import FuzzyRules.Proofs.Compilation.Extension
import FuzzyRules.Proofs.Compilation.Reference
import FuzzyRules.Proofs.Compilation.Numbering
import FuzzyRules.Proofs.Rulebase.Reading
import FuzzyRules.Proofs.Rulebase.Clauses
import FuzzyRules.Proofs.Universe.Reading
import FuzzyRules.Proofs.Number.Numeral
import FuzzyRules.Proofs.Number.Bytes
import FuzzyRules.Proofs.Number.Text
import FuzzyRules.Proofs.Compilation.Limits
import FuzzyRules.Proofs.Compilation.Warnings
import FuzzyRules.Proofs.Script.Names
import FuzzyRules.Proofs.CommandLine.Session
import FuzzyRules.Proofs.Compilation.Skipping
import FuzzyRules.Proofs.Scope.Growth
import FuzzyRules.Proofs.Token.Joining
import FuzzyRules.Proofs.Text.Quoted
import FuzzyRules.Proofs.Token.Listing
import FuzzyRules.Proofs.Number.Rounding
import FuzzyRules.Proofs.Number.RoundTrip
import FuzzyRules.Proofs.Program.Coordinates
