import CodeReview.Handlers.Coverage
import CodeReview.Handlers.Partition
import CodeReview.Runner.Schedule
import CodeReview.Handlers.Degraded
import CodeReview.Handlers.Agreement
import CodeReview.Runner.Overflow
import CodeReview.Runner.Conforms
import CodeReview.Runner.Attribution
import CodeReview.Runner.Escape
import CodeReview.Runner.ShortCircuit
import CodeReview.Dispatch.Rank
import CodeReview.Handlers.Report
import CodeReview.Handlers.Conserves
import CodeReview.Runner.LoopBound
import CodeReview.Handlers.Pipeline
import CodeReview.Tracker.Ingest
import CodeReview.Tracker.PromoteGate
import CodeReview.Runner.Accounting
import CodeReview.Runner.CostRows
import CodeReview.Handlers.SizeGuard
import CodeReview.Handlers.Escalation
import CodeReview.Handlers.GlobGrammar
import CodeReview.Handlers.Components
import CodeReview.Dispatch.Survivors
import CodeReview.Dispatch.Leaves
import CodeReview.Py.JsonDump
import CodeReview.Dispatch.Prompt
import CodeReview.Dispatch.Specialist
import CodeReview.Dispatch.Response
import CodeReview.Dispatch.Dispatchers
import CodeReview.Lib.Agree
import CodeReview.Handlers.Shards
import CodeReview.Py.Path
import CodeReview.Verifier.Panel
import CodeReview.Dispatch.Extract
import CodeReview.Handlers.DedupKey
import CodeReview.Handlers.ReportTables
import CodeReview.Layout.Contract
import CodeReview.Runner.Emitted
import CodeReview.Tracker.Commands
import CodeReview.Handlers.WikiLeaves
import CodeReview.Source.BroadGlobs
import CodeReview.Runner.Reported
import CodeReview.Tracker.Goldens
import CodeReview.Tracker.Labels
