import Linewise.Args
import Linewise.Config
import Linewise.Entries
import Linewise.Error
import Linewise.Eval
import Linewise.Expr
import Linewise.Expr.Form
import Linewise.Json
import Linewise.Json.Reader
import Linewise.Json.Token
import Linewise.Limits
import Linewise.Log
import Linewise.Main
import Linewise.Number.Binary
import Linewise.Number.Layout
import Linewise.Number.Numeral
import Linewise.Number.Shortest
import Linewise.Program
import Linewise.Proofs.Args
import Linewise.Proofs.Config
import Linewise.Proofs.Evaluation
import Linewise.Proofs.Evaluation.Contexts
import Linewise.Proofs.Evaluation.Strict
import Linewise.Proofs.Evaluation.TextFree
import Linewise.Proofs.Grammar
import Linewise.Proofs.Json
import Linewise.Proofs.Log
import Linewise.Proofs.Messages
import Linewise.Proofs.Number.Literal
import Linewise.Proofs.Number.Points
import Linewise.Proofs.Number.Whole
import Linewise.Proofs.Number.Written
import Linewise.Proofs.Program.Ends
import Linewise.Proofs.Program.Verbose
import Linewise.Proofs.Reading.Agreement
import Linewise.Proofs.Reading.Balance
import Linewise.Proofs.Reading.Descent
import Linewise.Proofs.Reading.Dispatch
import Linewise.Proofs.Reading.Embedding
import Linewise.Proofs.Reading.Equality
import Linewise.Proofs.Reading.Errors
import Linewise.Proofs.Reading.Expression
import Linewise.Proofs.Reading.Form
import Linewise.Proofs.Reading.Height
import Linewise.Proofs.Reading.Levels
import Linewise.Proofs.Reading.Limits
import Linewise.Proofs.Reading.Line
import Linewise.Proofs.Reading.Moves
import Linewise.Proofs.Reading.Numerals
import Linewise.Proofs.Reading.Opens
import Linewise.Proofs.Reading.Places
import Linewise.Proofs.Reading.Progress
import Linewise.Proofs.Reading.Quotation
import Linewise.Proofs.Reading.Refusals
import Linewise.Proofs.Reading.Relocation
import Linewise.Proofs.Reading.Source
import Linewise.Proofs.Reading.Spine
import Linewise.Proofs.Reading.Stance
import Linewise.Proofs.Reading.Steps
import Linewise.Proofs.Reading.Tallest
import Linewise.Proofs.Results
import Linewise.Proofs.Schema
import Linewise.Proofs.Session.Attempts
import Linewise.Proofs.Session.Commands
import Linewise.Proofs.Session.Commuting
import Linewise.Proofs.Session.Composition
import Linewise.Proofs.Session.Definitions
import Linewise.Proofs.Session.Dispatch
import Linewise.Proofs.Session.Failures
import Linewise.Proofs.Session.Framing
import Linewise.Proofs.Session.Limits
import Linewise.Proofs.Session.Phrase
import Linewise.Proofs.Session.Presentation
import Linewise.Proofs.Session.Replay
import Linewise.Proofs.Session.Routes
import Linewise.Proofs.Session.Shell
import Linewise.Proofs.Session.Tree
import Linewise.Proofs.Store
import Linewise.Proofs.Text.Blank
import Linewise.Proofs.Text.Lines
import Linewise.Proofs.Text.Utf8
import Linewise.Proofs.Texts
import Linewise.Proofs.Token.Append
import Linewise.Proofs.Token.Columns
import Linewise.Proofs.Token.Cursor
import Linewise.Proofs.Token.Layout
import Linewise.Proofs.Token.Scan
import Linewise.Proofs.Token.Spelling
import Linewise.Reader
import Linewise.Reader.Configuration
import Linewise.Reader.Frame
import Linewise.Schema
import Linewise.Session
import Linewise.Shell
import Linewise.Store
import Linewise.Text.Blank
import Linewise.Text.Letter
import Linewise.Text.Lines
import Linewise.Text.Quoted
import Linewise.Text.Units
import Linewise.Text.Utf8
import Linewise.Token
import Linewise.Token.Cursor
import Linewise.Token.Stream
import Linewise.Value
