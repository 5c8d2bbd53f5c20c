import ScriptRunner.Batch.Basic
import ScriptRunner.Batch.Directory
import ScriptRunner.Batch.Event
import ScriptRunner.Batch.Report
import ScriptRunner.Batch.Selection
import ScriptRunner.Bindings
import ScriptRunner.Command.EntryText
import ScriptRunner.Command.Name
import ScriptRunner.Command.Reader
import ScriptRunner.Command.Statement
import ScriptRunner.Command.SyntaxError
import ScriptRunner.CommandLine
import ScriptRunner.Document.Basic
import ScriptRunner.Document.Json
import ScriptRunner.Document.Toml
import ScriptRunner.Document.Yaml.Cursor
import ScriptRunner.Document.Yaml.Node
import ScriptRunner.Document.Yaml.Scalar
import ScriptRunner.Document.Yaml.Token
import ScriptRunner.Effect
import ScriptRunner.Emitter
import ScriptRunner.Exit
import ScriptRunner.Expansion
import ScriptRunner.Failure
import ScriptRunner.Host.Console
import ScriptRunner.Host.Errno
import ScriptRunner.Host.FileTree
import ScriptRunner.Host.Image
import ScriptRunner.Host.Machine
import ScriptRunner.Host.Shell.Arithmetic
import ScriptRunner.Host.Shell.Pattern
import ScriptRunner.Host.Shell.Run
import ScriptRunner.Host.Shell.State
import ScriptRunner.Host.Shell.Syntax
import ScriptRunner.Host.Signal
import ScriptRunner.Host.Tool.Calculate
import ScriptRunner.Host.Tool.Files
import ScriptRunner.Host.Tool.Flags
import ScriptRunner.Host.Tool.Print
import ScriptRunner.Main
import ScriptRunner.Path
import ScriptRunner.Proofs.Batch.Atomicity
import ScriptRunner.Proofs.Batch.Bracketing
import ScriptRunner.Proofs.Batch.CarryOver
import ScriptRunner.Proofs.Batch.Course
import ScriptRunner.Proofs.Batch.Exclusion
import ScriptRunner.Proofs.Batch.Fold
import ScriptRunner.Proofs.Batch.History
import ScriptRunner.Proofs.Batch.Nesting
import ScriptRunner.Proofs.Batch.Operations
import ScriptRunner.Proofs.Batch.Preparation
import ScriptRunner.Proofs.Batch.Ranges
import ScriptRunner.Proofs.Batch.Trail
import ScriptRunner.Proofs.Bindings
import ScriptRunner.Proofs.Command.AcceptedLine
import ScriptRunner.Proofs.Command.Backquotes
import ScriptRunner.Proofs.Command.Canonical
import ScriptRunner.Proofs.Command.Composition
import ScriptRunner.Proofs.Command.Continuation
import ScriptRunner.Proofs.Command.Cursor
import ScriptRunner.Proofs.Command.Depth
import ScriptRunner.Proofs.Command.Glyph
import ScriptRunner.Proofs.Command.InputText
import ScriptRunner.Proofs.Command.LiteralCommand
import ScriptRunner.Proofs.Command.LiteralEntry
import ScriptRunner.Proofs.Command.Operators
import ScriptRunner.Proofs.Command.Outline
import ScriptRunner.Proofs.Command.Phase
import ScriptRunner.Proofs.Command.Progress
import ScriptRunner.Proofs.Command.QuotingStyles
import ScriptRunner.Proofs.Command.Scan
import ScriptRunner.Proofs.Command.ScanAgreement
import ScriptRunner.Proofs.Command.Steps
import ScriptRunner.Proofs.Command.SubstitutionEnd
import ScriptRunner.Proofs.Command.Trimming
import ScriptRunner.Proofs.Command.WordReading
import ScriptRunner.Proofs.Command.WrittenStatement
import ScriptRunner.Proofs.Command.WrittenWord
import ScriptRunner.Proofs.CommandLine
import ScriptRunner.Proofs.Delivery
import ScriptRunner.Proofs.Effect
import ScriptRunner.Proofs.Emitter
import ScriptRunner.Proofs.Expansion
import ScriptRunner.Proofs.Expansion.Layout
import ScriptRunner.Proofs.Expansion.WordValue
import ScriptRunner.Proofs.Host
import ScriptRunner.Proofs.Path
import ScriptRunner.Proofs.Quoting.Chunks
import ScriptRunner.Proofs.Registry.Entries
import ScriptRunner.Proofs.Registry.Sections
import ScriptRunner.Proofs.Session.Agreement
import ScriptRunner.Proofs.Session.Assignments
import ScriptRunner.Proofs.Session.Attempts
import ScriptRunner.Proofs.Session.Calls
import ScriptRunner.Proofs.Session.Directory
import ScriptRunner.Proofs.Session.DryRun
import ScriptRunner.Proofs.Session.Frame
import ScriptRunner.Proofs.Session.History
import ScriptRunner.Proofs.Session.Programs
import ScriptRunner.Proofs.Session.Reports
import ScriptRunner.Proofs.Session.Resolution
import ScriptRunner.Proofs.Session.Simulation
import ScriptRunner.Proofs.Session.Statements
import ScriptRunner.Proofs.Session.Substitution
import ScriptRunner.Proofs.Session.WorkingDirectory
import ScriptRunner.Proofs.Streams
import ScriptRunner.Proofs.Text.Characters
import ScriptRunner.Proofs.Text.Joining
import ScriptRunner.Proofs.Text.Lines
import ScriptRunner.Quoting
import ScriptRunner.Registry.Basic
import ScriptRunner.Registry.Decode
import ScriptRunner.Registry.Load
import ScriptRunner.Script
import ScriptRunner.Session.Basic
import ScriptRunner.Session.Directory
import ScriptRunner.Session.DryRun
import ScriptRunner.Session.State
import ScriptRunner.Session.Substitution
import ScriptRunner.Settings
import ScriptRunner.ShellEvent
import ScriptRunner.Terminal
import ScriptRunner.Text.Blank
import ScriptRunner.Text.Lines
import ScriptRunner.Text.Utf8
import ScriptRunner.Verbosity
