import SuiteRunner.Config.Basic
import SuiteRunner.Config.CommandLine
import SuiteRunner.Config.Duration
import SuiteRunner.Config.File
import SuiteRunner.Config.Options
import SuiteRunner.Config.Validation
import SuiteRunner.Coordinator
import SuiteRunner.Discovery
import SuiteRunner.Dispatch.Descriptors
import SuiteRunner.Dispatch.Machine
import SuiteRunner.Dispatch.Pending
import SuiteRunner.Dispatch.Simulation
import SuiteRunner.Dispatch.Trace
import SuiteRunner.Dispatch.Watchdog
import SuiteRunner.Dispatch.Worker
import SuiteRunner.Fault
import SuiteRunner.FileSystem
import SuiteRunner.Json.Decode
import SuiteRunner.Json.Node
import SuiteRunner.Json.Numeric
import SuiteRunner.Json.Value
import SuiteRunner.Main
import SuiteRunner.Number.Binary64
import SuiteRunner.Number.Fixed
import SuiteRunner.Number.Shortest
import SuiteRunner.Path
import SuiteRunner.Program
import SuiteRunner.Report.File
import SuiteRunner.Report.Json
import SuiteRunner.Report.Summary
import SuiteRunner.Report.Text
import SuiteRunner.Scene
import SuiteRunner.Suite
import SuiteRunner.Text.Blank
import SuiteRunner.Text.CaseTable
import SuiteRunner.Text.Lowercase
import SuiteRunner.Text.Numeral
import SuiteRunner.Text.Terminal
import SuiteRunner.Text.Utf8
import SuiteRunner.Time.Span
import SuiteRunner.Time.Stamp
import SuiteRunner.Toml.Document
import SuiteRunner.Toml.Scalar
import SuiteRunner.Toml.Value
import SuiteRunner.Transport.Connection
import SuiteRunner.Transport.Listener
import SuiteRunner.Transport.Pump
import SuiteRunner.Transport.Queue
import SuiteRunner.Transport.Session
import SuiteRunner.Transport.Upgrade
import SuiteRunner.Wire.Request
import SuiteRunner.Wire.Response
import SuiteRunner.Proofs.Dispatch.History
import SuiteRunner.Proofs.Dispatch.InFlight
import SuiteRunner.Proofs.Dispatch.Course
import SuiteRunner.Proofs.Dispatch.Failures
import SuiteRunner.Proofs.Dispatch.Continuations
import SuiteRunner.Proofs.Json.Spelling
import SuiteRunner.Proofs.Text.Utf8
import SuiteRunner.Proofs.Json.Reading
import SuiteRunner.Proofs.Dispatch.Sequence
import SuiteRunner.Proofs.Dispatch.Ledger
import SuiteRunner.Proofs.Dispatch.Abort
import SuiteRunner.Proofs.Dispatch.Exchange
import SuiteRunner.Proofs.Dispatch.AnswerOrder
import SuiteRunner.Proofs.Dispatch.Watchdog
import SuiteRunner.Proofs.Dispatch.Alone
import SuiteRunner.Proofs.Dispatch.DeadWorker
import SuiteRunner.Proofs.Json.Records
import SuiteRunner.Proofs.Wire.Response
import SuiteRunner.Proofs.Json.Reordering
import SuiteRunner.Proofs.FileSystem
import SuiteRunner.Proofs.Discovery.Manifest
import SuiteRunner.Proofs.Dispatch.Accounts
import SuiteRunner.Proofs.Dispatch.Counts
import SuiteRunner.Proofs.Report.Numbering
import SuiteRunner.Proofs.Dispatch.Modes
import SuiteRunner.Proofs.Dispatch.Scripted
import SuiteRunner.Proofs.Report.File
import SuiteRunner.Proofs.Causes
import SuiteRunner.Proofs.ExitStatus
import SuiteRunner.Proofs.Scene
import SuiteRunner.Proofs.Dispatch.Link
import SuiteRunner.Proofs.Dispatch.Unsendable
import SuiteRunner.Proofs.Discovery.Cycles
import SuiteRunner.Proofs.Discovery.Identifiers
import SuiteRunner.Proofs.Config.Duration
import SuiteRunner.Proofs.Config.Precedence
import SuiteRunner.Proofs.Config.Rules
import SuiteRunner.Proofs.Transport.Handover
import SuiteRunner.Proofs.Json.Pretty
import SuiteRunner.Proofs.Number.Binary64
import SuiteRunner.Proofs.Number.Shortest
import SuiteRunner.Proofs.Number.Fixed
import SuiteRunner.Proofs.Json.Doubles
import SuiteRunner.Proofs.Time.Stamp
import SuiteRunner.Proofs.Report.RoundTrip
import SuiteRunner.Proofs.Report.Calls
import SuiteRunner.Proofs.Report.Truncation
