import Notebook.Command.Arguments
import Notebook.Command.Flag
import Notebook.Command.Line
import Notebook.Command.Perform
import Notebook.Command.Report
import Notebook.Command.Similar
import Notebook.Command.Style
import Notebook.Digest.Sha256
import Notebook.Document.Basic
import Notebook.Document.Cell
import Notebook.Document.Format
import Notebook.Document.Json
import Notebook.Document.Markdown
import Notebook.Document.Scan
import Notebook.Execution.Event
import Notebook.Execution.Kernel
import Notebook.Execution.Locks
import Notebook.Execution.Machine
import Notebook.Execution.Order
import Notebook.Execution.Output
import Notebook.Execution.Record
import Notebook.Execution.State
import Notebook.Execution.Workspace
import Notebook.Failure
import Notebook.Files.Fault
import Notebook.Files.Path
import Notebook.Files.Tree
import Notebook.Json.Number
import Notebook.Json.Problem
import Notebook.Json.Reader
import Notebook.Json.Structure
import Notebook.Json.Value
import Notebook.Json.Writer
import Notebook.Main
import Notebook.Markdown.Block
import Notebook.Markdown.Event
import Notebook.Markdown.Html
import Notebook.Markdown.Info
import Notebook.Markdown.Line
import Notebook.Markdown.Reference
import Notebook.Moment
import Notebook.Program.Key
import Notebook.Program.Manifest
import Notebook.Program.Prepared
import Notebook.Program.Shape
import Notebook.Program.Toolchain
import Notebook.Proofs.Command.Again
import Notebook.Proofs.Command.Delivery
import Notebook.Proofs.Command.Exit
import Notebook.Proofs.Command.Results
import Notebook.Proofs.Document.Cell
import Notebook.Proofs.Document.Edit
import Notebook.Proofs.Document.Evaluated
import Notebook.Proofs.Document.Fenced
import Notebook.Proofs.Document.History
import Notebook.Proofs.Document.Lossless
import Notebook.Proofs.Document.Markup
import Notebook.Proofs.Document.Order
import Notebook.Proofs.Document.Parsed
import Notebook.Proofs.Document.Reading
import Notebook.Proofs.Document.Recording
import Notebook.Proofs.Document.RoundTrip
import Notebook.Proofs.Document.Scan
import Notebook.Proofs.Document.Terminated
import Notebook.Proofs.Execution.Acquire
import Notebook.Proofs.Execution.Alone
import Notebook.Proofs.Execution.Batch
import Notebook.Proofs.Execution.Change
import Notebook.Proofs.Execution.Cleanup
import Notebook.Proofs.Execution.Completion
import Notebook.Proofs.Execution.Contention
import Notebook.Proofs.Execution.Course
import Notebook.Proofs.Execution.Determined
import Notebook.Proofs.Execution.Handles
import Notebook.Proofs.Execution.Isolation
import Notebook.Proofs.Execution.Locks
import Notebook.Proofs.Execution.Numbering
import Notebook.Proofs.Execution.Occupancy
import Notebook.Proofs.Execution.Progress
import Notebook.Proofs.Execution.Record
import Notebook.Proofs.Execution.Removal
import Notebook.Proofs.Execution.Request
import Notebook.Proofs.Execution.Retold
import Notebook.Proofs.Execution.Returning
import Notebook.Proofs.Execution.Run
import Notebook.Proofs.Execution.Session
import Notebook.Proofs.Execution.Shared
import Notebook.Proofs.Execution.System
import Notebook.Proofs.Execution.Tally
import Notebook.Proofs.Execution.Tidy
import Notebook.Proofs.Execution.Turn
import Notebook.Proofs.Execution.Workspace
import Notebook.Proofs.Files.Make
import Notebook.Proofs.Files.Passing
import Notebook.Proofs.Files.Shape
import Notebook.Proofs.Files.Way
import Notebook.Proofs.Json.Reads
import Notebook.Proofs.Markdown.Block
import Notebook.Proofs.Markdown.Closing
import Notebook.Proofs.Markdown.Fence
import Notebook.Proofs.Markdown.Found
import Notebook.Proofs.Markdown.Gap
import Notebook.Proofs.Markdown.Html
import Notebook.Proofs.Markdown.Line
import Notebook.Proofs.Markdown.Local
import Notebook.Proofs.Markdown.Reference
import Notebook.Proofs.Markdown.Run
import Notebook.Proofs.Markdown.Step
import Notebook.Proofs.Program.Combined
import Notebook.Proofs.Program.Key
import Notebook.Proofs.Program.Manifest
import Notebook.Proofs.Program.Part
import Notebook.Proofs.Program.Place
import Notebook.Proofs.Program.Shape
import Notebook.Proofs.Program.Shown
import Notebook.Proofs.Program.Tail
import Notebook.Proofs.Program.Value
import Notebook.Proofs.Syntax.Closing
import Notebook.Proofs.Syntax.Edge
import Notebook.Proofs.Syntax.Ending
import Notebook.Proofs.Syntax.Exchange
import Notebook.Proofs.Syntax.Expression
import Notebook.Proofs.Syntax.Follow
import Notebook.Proofs.Syntax.Item
import Notebook.Proofs.Syntax.Joining
import Notebook.Proofs.Syntax.Literal
import Notebook.Proofs.Syntax.Lookahead
import Notebook.Proofs.Syntax.Open
import Notebook.Proofs.Syntax.Pattern
import Notebook.Proofs.Syntax.Piece
import Notebook.Proofs.Syntax.Position
import Notebook.Proofs.Syntax.Sequence
import Notebook.Proofs.Syntax.Settled
import Notebook.Proofs.Syntax.Spelling
import Notebook.Proofs.Syntax.Start
import Notebook.Proofs.Syntax.Statement
import Notebook.Proofs.Syntax.Track
import Notebook.Proofs.Syntax.Type
import Notebook.Proofs.Text.Split
import Notebook.Shell.Command
import Notebook.Shell.Interpreter
import Notebook.Shell.Parser
import Notebook.Shell.Regex
import Notebook.Shell.Tool
import Notebook.Syntax.Expression
import Notebook.Syntax.Grammar
import Notebook.Syntax.Item
import Notebook.Syntax.Lexer
import Notebook.Syntax.Literal
import Notebook.Syntax.Parser
import Notebook.Syntax.Pattern
import Notebook.Syntax.Position
import Notebook.Syntax.Statement
import Notebook.Syntax.Token
import Notebook.Syntax.Type
import Notebook.Text.Blank
import Notebook.Text.Identifier
import Notebook.Text.Quoted
import Notebook.Text.Utf8
