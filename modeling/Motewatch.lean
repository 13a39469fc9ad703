import Motewatch.Catalog
import Motewatch.CommandLine.Arguments
import Motewatch.CommandLine.Run
import Motewatch.Decimal.Binary
import Motewatch.Decimal.Layout
import Motewatch.Decimal.Reading
import Motewatch.Decimal.Shortest
import Motewatch.Event
import Motewatch.Fault
import Motewatch.Instant
import Motewatch.Json.Number
import Motewatch.Json.Quoted
import Motewatch.Json.Reader
import Motewatch.Json.Record
import Motewatch.Json.Skip
import Motewatch.Json.Value
import Motewatch.Json.Writer
import Motewatch.LinkCount
import Motewatch.LinkReport
import Motewatch.Main
import Motewatch.Markers
import Motewatch.Monitor
import Motewatch.Output
import Motewatch.Proofs.CommandLine.Precedence
import Motewatch.Proofs.CommandLine.Rejection
import Motewatch.Proofs.Json.Cut
import Motewatch.Proofs.Json.Grammar
import Motewatch.Proofs.Json.Number
import Motewatch.Proofs.Json.Object
import Motewatch.Proofs.Json.Prefix
import Motewatch.Proofs.Json.Quoted
import Motewatch.Proofs.Json.Record
import Motewatch.Proofs.Json.Value
import Motewatch.Proofs.Json.Written
import Motewatch.Proofs.LinkCount
import Motewatch.Proofs.LinkReport
import Motewatch.Proofs.Monitor.Bare
import Motewatch.Proofs.Monitor.Calls
import Motewatch.Proofs.Monitor.Files
import Motewatch.Proofs.Monitor.Protocol
import Motewatch.Proofs.Monitor.Speed
import Motewatch.Proofs.Monitor.Stranding
import Motewatch.Proofs.Order
import Motewatch.Proofs.Output
import Motewatch.Proofs.Output.RawLog
import Motewatch.Proofs.Output.Written
import Motewatch.Proofs.Replay.Clock
import Motewatch.Proofs.Replay.Course
import Motewatch.Proofs.Replay.Ending
import Motewatch.Proofs.Replay.Files
import Motewatch.Proofs.Replay.Sum
import Motewatch.Proofs.Report
import Motewatch.Proofs.Settings.Given
import Motewatch.Proofs.Settings.Validation
import Motewatch.Proofs.Settings.Written
import Motewatch.Proofs.Simulation.Clock
import Motewatch.Proofs.Simulation.Heap
import Motewatch.Proofs.Simulation.Queue
import Motewatch.Proofs.Simulation.Rounds
import Motewatch.Proofs.Storage.Tree
import Motewatch.Proofs.Tally.Accounts
import Motewatch.Proofs.Tally.Exchange
import Motewatch.Proofs.Tally.Links
import Motewatch.Proofs.Tally.Operations
import Motewatch.Proofs.Tally.Record
import Motewatch.Proofs.Tally.Reports
import Motewatch.Proofs.Tally.Speed
import Motewatch.Proofs.Tally.Statistics
import Motewatch.Proofs.Tally.Steps
import Motewatch.Proofs.Trace.Grammar
import Motewatch.Proofs.Trace.Joined
import Motewatch.Proofs.Trace.Line
import Motewatch.Proofs.Trace.Text
import Motewatch.Replay
import Motewatch.Report
import Motewatch.Report.Json
import Motewatch.Settings
import Motewatch.Settings.Fault
import Motewatch.Signal
import Motewatch.Simulation.Agenda
import Motewatch.Simulation.Run
import Motewatch.Simulation.Script
import Motewatch.SpeedChange
import Motewatch.Storage.Fault
import Motewatch.Storage.Path
import Motewatch.Storage.Sink
import Motewatch.Storage.Tree
import Motewatch.Tally
import Motewatch.Text.Blank
import Motewatch.Text.Numeral
import Motewatch.Text.Search
import Motewatch.Trace.Line
import Motewatch.Trace.Text
import Motewatch.Word
