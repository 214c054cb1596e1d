import NullSafety.Analysis
import NullSafety.Builder.Account
import NullSafety.Builder.Basic
import NullSafety.Check
import NullSafety.Dereference
import NullSafety.Event
import NullSafety.Finding
import NullSafety.FunctionGraph
import NullSafety.Graph.Basic
import NullSafety.Graph.Dot
import NullSafety.Graph.Listing
import NullSafety.Graph.Traversal
import NullSafety.Issue
import NullSafety.Json.Basic
import NullSafety.Json.Printer
import NullSafety.Log
import NullSafety.Log.Display
import NullSafety.Nullability
import NullSafety.Options
import NullSafety.Proofs.Adjacency
import NullSafety.Proofs.Arrivals
import NullSafety.Proofs.BreadthOrder
import NullSafety.Proofs.BuilderGraph
import NullSafety.Proofs.Calls
import NullSafety.Proofs.Continuation
import NullSafety.Proofs.Cutting
import NullSafety.Proofs.Departures
import NullSafety.Proofs.DocumentOrder
import NullSafety.Proofs.DotReading
import NullSafety.Proofs.DotTitle
import NullSafety.Proofs.Entries
import NullSafety.Proofs.Equations
import NullSafety.Proofs.Exploration
import NullSafety.Proofs.Filtering
import NullSafety.Proofs.Finished
import NullSafety.Proofs.FunctionKeys
import NullSafety.Proofs.Grammar
import NullSafety.Proofs.Grown
import NullSafety.Proofs.Histories
import NullSafety.Proofs.Interpreter
import NullSafety.Proofs.JsonLines
import NullSafety.Proofs.JsonReading
import NullSafety.Proofs.Listing
import NullSafety.Proofs.Markup
import NullSafety.Proofs.Merging
import NullSafety.Proofs.Nesting
import NullSafety.Proofs.Notes
import NullSafety.Proofs.NullLiterals
import NullSafety.Proofs.Paths
import NullSafety.Proofs.Reading
import NullSafety.Proofs.Rendering
import NullSafety.Proofs.Reporting
import NullSafety.Proofs.Settling
import NullSafety.Proofs.Sites
import NullSafety.Proofs.Solution
import NullSafety.Proofs.Summary
import NullSafety.Proofs.Swapping
import NullSafety.Proofs.Termination
import NullSafety.Proofs.Traversal
import NullSafety.Proofs.Unknown
import NullSafety.Proofs.Verdicts
import NullSafety.Proofs.WellNested
import NullSafety.Report
import NullSafety.Report.Folder
import NullSafety.Report.Html
import NullSafety.Report.Line
import NullSafety.Report.Pathname
import NullSafety.Report.Sarif
import NullSafety.Report.Severity
import NullSafety.Report.Template
import NullSafety.Report.Terminal
import NullSafety.Snapshot
import NullSafety.State
import NullSafety.Statement
import NullSafety.Text.Blank
import NullSafety.Text.Digit
import NullSafety.Text.Hex
import NullSafety.Text.Numeral
import NullSafety.Text.Printable
import NullSafety.Text.Quoted
import NullSafety.Text.Ranges
import NullSafety.Text.Word
import NullSafety.Token.Basic
import NullSafety.Token.Piece
import NullSafety.Token.Reading
import NullSafety.Transfer
import NullSafety.Workspace
