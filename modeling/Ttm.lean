import Ttm.Byte
import Ttm.Code
import Ttm.Command
import Ttm.Command.Help
import Ttm.Command.Options
import Ttm.Compile
import Ttm.Compile.Check
import Ttm.Compile.Error
import Ttm.Compile.Output
import Ttm.Compile.Overview
import Ttm.Compile.Report
import Ttm.Files.Path
import Ttm.Files.Volume
import Ttm.Lexeme.Kind
import Ttm.Lexeme.Table
import Ttm.Lexeme.Word
import Ttm.Limits
import Ttm.Limits.Listing
import Ttm.Limits.Profile
import Ttm.Log.Collector
import Ttm.Log.Event
import Ttm.Log.Memory
import Ttm.Log.Session
import Ttm.Log.Startup
import Ttm.Main
import Ttm.Position
import Ttm.Postfix
import Ttm.Postfix.Error
import Ttm.Postfix.Statement
import Ttm.Program
import Ttm.Program.Error
import Ttm.Program.Scan
import Ttm.Scope
import Ttm.Settings
import Ttm.Settings.File
import Ttm.Settings.Table
import Ttm.Source.Delimited
import Ttm.Source.Error
import Ttm.Source.Note
import Ttm.Source.Token
import Ttm.SourceFile
import Ttm.Symbol
import Ttm.Symbol.Library
import Ttm.Symbol.Table
import Ttm.Text.Cased
import Ttm.Text.Invisible
import Ttm.Text.Json
import Ttm.Text.Lowercase
import Ttm.Text.Pad
import Ttm.Text.Quoted
import Ttm.Text.Runs
import Ttm.Text.Size
import Ttm.Text.Timestamp
import Ttm.Toml.Document
import Ttm.Toml.Number
import Ttm.Toml.Quoted
import Ttm.Toml.Reader
import Ttm.Toml.Value
import Ttm.Proofs.Source.Munch
import Ttm.Proofs.Source.Segments
import Ttm.Proofs.Source.Written
import Ttm.Proofs.Source.Tokenize
import Ttm.Proofs.Symbol.Index
import Ttm.Proofs.Symbol.Library
import Ttm.Proofs.Program.Action
import Ttm.Proofs.Program.Step
import Ttm.Proofs.Program.Interruption
import Ttm.Proofs.Lexeme.Table
import Ttm.Proofs.Program.CrossReference
import Ttm.Proofs.Program.FirstReference
import Ttm.Proofs.Scope
import Ttm.Proofs.Program.History
import Ttm.Proofs.Lexeme.Sign
import Ttm.Proofs.Program.Piece
import Ttm.Proofs.Program.Nesting
import Ttm.Proofs.Program.Assembly
import Ttm.Proofs.Program.Fault
import Ttm.Proofs.Program.Bracket
import Ttm.Proofs.Program.Image
import Ttm.Proofs.Program.Unclosed
import Ttm.Proofs.Program.Declaration
import Ttm.Proofs.Program.Call
import Ttm.Proofs.Postfix.Shunt
import Ttm.Proofs.Postfix.Tally
import Ttm.Proofs.Postfix.Content
import Ttm.Proofs.Postfix.InPlace
import Ttm.Proofs.Postfix.Turn
import Ttm.Proofs.Postfix.Completed
import Ttm.Proofs.Postfix.Arguments
import Ttm.Proofs.Compile.Calls
import Ttm.Proofs.Core.Expr
import Ttm.Proofs.Core.Sign
import Ttm.Proofs.Core.Syntax
import Ttm.Proofs.Core.Place
import Ttm.Proofs.Lexeme.Word
import Ttm.Proofs.Core.Scan
import Ttm.Proofs.Core.Declare
import Ttm.Proofs.Core.Text
import Ttm.Proofs.Core.Output
import Ttm.Proofs.Core.Tables
import Ttm.Proofs.Core.Reorder
import Ttm.Proofs.Core.Convert
import Ttm.Proofs.Core.Compile
import Ttm.Proofs.Core.Bracket
import Ttm.Proofs.Core.Refusal
import Ttm.Proofs.Core.Acceptance
import Ttm.Proofs.Program.Recall
import Ttm.Proofs.Program.Effect
import Ttm.Proofs.Program.Enclosing
import Ttm.Proofs.Program.Layout
import Ttm.Proofs.Program.Signature
import Ttm.Proofs.Program.Interning
import Ttm.Proofs.Source.Run
import Ttm.Proofs.Source.Broken
import Ttm.Proofs.Source.Boundary
import Ttm.Proofs.Postfix.Operands
import Ttm.Proofs.Program.Text
import Ttm.Proofs.Compile.Strings
import Ttm.Proofs.Program.EntryPoint
import Ttm.Proofs.Lexeme.Rows
import Ttm.Proofs.Program.Lines
import Ttm.Proofs.Postfix.Origin
import Ttm.Proofs.Compile.Dump
import Ttm.Proofs.Program.Announced
import Ttm.Proofs.Postfix.Advance
import Ttm.Proofs.Postfix.Reference
import Ttm.Proofs.Compile.Positions
import Ttm.Proofs.Program.Raise
import Ttm.Proofs.Compile.Logged
import Ttm.Proofs.Source.Lines
import Ttm.Proofs.Compile.Lines
import Ttm.Proofs.Source.Reprint
import Ttm.Proofs.Source.LineEnding
import Ttm.Proofs.Compile.LineEnding
import Ttm.Proofs.Compile.Reported
import Ttm.Proofs.Compile.Traces
import Ttm.Proofs.Program.Room
import Ttm.Proofs.Program.Overflow
import Ttm.Proofs.Symbol.Renaming
import Ttm.Proofs.Program.Renaming
import Ttm.Proofs.Postfix.Expression
import Ttm.Proofs.Postfix.Balance
import Ttm.Proofs.Postfix.Placed
import Ttm.Proofs.Core.Numeral
import Ttm.Proofs.Files.Path
import Ttm.Proofs.Log.Event
import Ttm.Proofs.Log.Memory
import Ttm.Proofs.Log.Collector
import Ttm.Proofs.Log.Dispatch
import Ttm.Proofs.Postfix.Rearranged
import Ttm.Proofs.Source.Forbidden
import Ttm.Proofs.Symbol.Request
import Ttm.Proofs.Symbol.Registration
import Ttm.Proofs.Program.Registration
import Ttm.Proofs.Lexeme.Recognizer
import Ttm.Proofs.Log.Grouping
import Ttm.Proofs.Log.Overflow
import Ttm.Proofs.Source.Enclosed
import Ttm.Proofs.Compile.StringLength
import Ttm.Proofs.Source.LineCount
import Ttm.Proofs.Command.Options
import Ttm.Proofs.Source.Shape
import Ttm.Proofs.Scope.Restoration
