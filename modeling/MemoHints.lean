import MemoHints.CommandLine.Reader
import MemoHints.Compiler.Checker
import MemoHints.Compiler.Node
import MemoHints.Debounce
import MemoHints.Document.Store
import MemoHints.Hint.Basic
import MemoHints.Main
import MemoHints.Program
import MemoHints.Protocol.Connection
import MemoHints.Protocol.Frame
import MemoHints.Report.Basic
import MemoHints.Server.Command
import MemoHints.Throttle
import MemoHints.TraceFilter
import MemoHints.Uri.Basic
import MemoHints.Proofs.Checker.Steps
import MemoHints.Proofs.Checker.Transparency
import MemoHints.Proofs.Checker.Overlap
import MemoHints.Proofs.Report.Account
import MemoHints.Proofs.Report.SourceFiles
import MemoHints.Proofs.Server.History
import MemoHints.Proofs.Report.Interleaving
import MemoHints.Proofs.DocumentStore
import MemoHints.Proofs.LeastRecent
import MemoHints.Proofs.Debounce.Calls
import MemoHints.Proofs.Debounce.Safety
import MemoHints.Proofs.Hint.HtmlTooltip
import MemoHints.Proofs.Hint.Stacking
import MemoHints.Proofs.Event.RoundTrip
import MemoHints.Proofs.Event.Leniency
import MemoHints.Proofs.CommandLine.MissingCommand
import MemoHints.Proofs.Hint.CommandLinks
import MemoHints.Proofs.Hint.Placement
import MemoHints.Proofs.Hint.FirstUsable
import MemoHints.Proofs.Report.WellFormedTree
import MemoHints.Proofs.Server.ReportProgress
import MemoHints.Proofs.Settings.RoundTrip
import MemoHints.Proofs.Hint.DisabledLine
import MemoHints.Proofs.Document.Ends
import MemoHints.Proofs.Hint.Label
import MemoHints.Proofs.Server.Commands
import MemoHints.Proofs.Compiler.Exchange
import MemoHints.Proofs.Uri.FileName
