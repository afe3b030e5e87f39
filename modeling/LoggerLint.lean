import LoggerLint.Command.Arguments
import LoggerLint.Command.Run
import LoggerLint.Config
import LoggerLint.Config.File
import LoggerLint.Console.Call
import LoggerLint.Console.Prologue
import LoggerLint.Console.Resolution
import LoggerLint.Console.Rule
import LoggerLint.Console.Template
import LoggerLint.Data.Checked
import LoggerLint.Data.Value
import LoggerLint.Files.Glob
import LoggerLint.Files.Ignore
import LoggerLint.Files.Path
import LoggerLint.Files.Scan
import LoggerLint.Files.Tree
import LoggerLint.Files.Wildcard
import LoggerLint.Fix.Batch
import LoggerLint.Fix.Merge
import LoggerLint.Fix.Run
import LoggerLint.Lint
import LoggerLint.Log
import LoggerLint.Main
import LoggerLint.Project
import LoggerLint.Report
import LoggerLint.Report.Json
import LoggerLint.Report.Stored
import LoggerLint.Scope.Analysis
import LoggerLint.Scope.Arena
import LoggerLint.Scope.Outline
import LoggerLint.Script.Character
import LoggerLint.Script.Expression
import LoggerLint.Script.Function
import LoggerLint.Script.Lexeme
import LoggerLint.Script.Markup
import LoggerLint.Script.Module
import LoggerLint.Script.Parse
import LoggerLint.Script.Pattern
import LoggerLint.Script.Program
import LoggerLint.Script.Semicolon
import LoggerLint.Script.Statement
import LoggerLint.Syntax.Node
import LoggerLint.Text.Blank
import LoggerLint.Text.CodePoint
import LoggerLint.Text.Digit
import LoggerLint.Text.Position
import LoggerLint.Text.Utf8
import LoggerLint.Toml.Document
import LoggerLint.Toml.Error
import LoggerLint.Toml.Number
import LoggerLint.Toml.Parse
import LoggerLint.Toml.Text
import LoggerLint.Proofs.Data.Entries
import LoggerLint.Proofs.Data.Outcome
import LoggerLint.Proofs.Fix.History
import LoggerLint.Proofs.Scope.Chain
import LoggerLint.Proofs.Scope.Formed
import LoggerLint.Proofs.Scope.Settled
import LoggerLint.Proofs.Scope.Ambient
import LoggerLint.Proofs.Scope.Outline
import LoggerLint.Proofs.Scope.Finished
import LoggerLint.Proofs.Scope.Behind
import LoggerLint.Proofs.Scope.Spelled
import LoggerLint.Proofs.Scope.Imports
import LoggerLint.Proofs.Scope.Partition
import LoggerLint.Proofs.Scope.Places
import LoggerLint.Proofs.Scope.Coverage
import LoggerLint.Proofs.Console.Native
import LoggerLint.Proofs.Console.Exact
import LoggerLint.Proofs.Console.Template
import LoggerLint.Proofs.Syntax.Spans
import LoggerLint.Proofs.Syntax.Sites
import LoggerLint.Proofs.Syntax.Grammar
import LoggerLint.Proofs.Console.Layout
import LoggerLint.Proofs.Fix.Patch
import LoggerLint.Proofs.Fix.Outermost
import LoggerLint.Proofs.Fix.Atomic
import LoggerLint.Proofs.Fix.FixedPoint
import LoggerLint.Proofs.Fix.Writable
import LoggerLint.Proofs.Fix.Prologue
import LoggerLint.Proofs.Fix.Merging
import LoggerLint.Proofs.Fix.OneByOne
import LoggerLint.Proofs.Fix.Characters
import LoggerLint.Proofs.Files.Tree
import LoggerLint.Proofs.Files.Masked
import LoggerLint.Proofs.Config.Extensions
import LoggerLint.Proofs.Files.Sources
import LoggerLint.Proofs.Files.Selection
import LoggerLint.Proofs.Command.Clean
import LoggerLint.Proofs.Command.Independent
import LoggerLint.Proofs.Console.Capture
import LoggerLint.Proofs.Console.Escapes
import LoggerLint.Proofs.Scope.Frame
import LoggerLint.Proofs.Scope.Sealed
import LoggerLint.Proofs.Scope.Once
import LoggerLint.Proofs.Scope.Pattern
import LoggerLint.Proofs.Files.Nested
import LoggerLint.Proofs.Text.Position
import LoggerLint.Proofs.Text.Malformed
import LoggerLint.Proofs.Console.Order
import LoggerLint.Proofs.Syntax.Errors
import LoggerLint.Proofs.Console.Namespace
import LoggerLint.Proofs.Files.Extensions
import LoggerLint.Proofs.Toml.Overlong
import LoggerLint.Proofs.Command.Refused
import LoggerLint.Proofs.Scope.Nearest
import LoggerLint.Proofs.Console.FileName
