import Supercov.Library.PackedSet
import Supercov.Library.Outcome
import Supercov.Library.Bytes
import Supercov.Library.JsonText
import Supercov.Analysis.Independence
import Supercov.Analysis.Witnesses
import Supercov.Analysis.Core
import Supercov.Analysis.Completeness
import Supercov.Index.Container
import Supercov.Index.Safety
import Supercov.Archive.Framing
import Supercov.Archive.RoundTrip
import Supercov.Archive.Exact
import Supercov.Library.ShortCircuit
import Supercov.Library.Evaluations
import Supercov.Runtime.Vectors
import Supercov.Runtime.Ledger
import Supercov.Runtime.Jvm
import Supercov.Runtime.JvmVectors
import Supercov.Runtime.Go
import Supercov.Runtime.GoVectors
import Supercov.Library.Sweep
import Supercov.Runtime.GoSheet
import Supercov.Runtime.GoTests
import Supercov.Library.JsonValue
import Supercov.Library.Ordered
import Supercov.Merge.Currency
import Supercov.Merge.Runs
import Supercov.Merge.Conservation
import Supercov.Owned.Conservation
import Supercov.Library.Pointwise
import Supercov.Analysis.Growth
import Supercov.Report.Ingest
import Supercov.Report.Noted
import Supercov.Report.View
import Supercov.Report.Built
import Supercov.Report.Growth
import Supercov.Report.Counted
import Supercov.Report.Unordered
import Supercov.Report.Credited
import Supercov.Owned.Reported
import Supercov.Index.Tables
import Supercov.Index.Kept
import Supercov.Query.Test
import Supercov.Query.TestSafety
import Supercov.Library.Template
import Supercov.Units.Build
import Supercov.Units.Placed
import Supercov.Units.Nested
import Supercov.Units.Changes
import Supercov.Library.Codec
import Supercov.Owned.Transport
import Supercov.Owned.Written
import Supercov.Library.Tally
import Supercov.Index.Gaps
import Supercov.Query.Decision
import Supercov.Analysis.Shown
import Supercov.Index.Selected
import Supercov.Index.Projections
import Supercov.DecisionShape.Possible
import Supercov.Jvm.Measured
import Supercov.Affected.Unaffected
import Supercov.Index.RoundTrip
import Supercov.Ruby.Killed
import Supercov.Lifecycle.Crashes
import Supercov.Lifecycle.Held
import Supercov.Python.Vectors
import Supercov.Ruby.Vectors
import Supercov.Ruby.Executions
import Supercov.Js.Recorded
import Supercov.Units.Lookup
import Supercov.Units.Blank
import Supercov.Units.Completed
import Supercov.Query.Needed
import Supercov.Affected.Settled
import Supercov.Request.Separated
import Supercov.Owned.Attempts
import Supercov.Go.Jumps
import Supercov.Go.Switches
import Supercov.Go.Execution
import Supercov.Go.Anchored
import Supercov.Go.Selected
import Supercov.Go.Clauses
import Supercov.Report.Compact
import Supercov.PatchView.Attributed
import Supercov.DockerProxy.Exact
import Supercov.OutsideEvidence.Imported
import Supercov.OutsideEvidence.Exported
import Supercov.DockerProxy.Recorded
import Supercov.Discovery.Stripped
import Supercov.Query.Asked
import Supercov.DockerProxy.Timed
import Supercov.TypescriptImports.Covered
import Supercov.Lifecycle.Cleaned
import Supercov.Rust.Overflow
import Supercov.Js.Epochs
import Supercov.TestLoads.Closed
import Supercov.Js.Entered
import Supercov.Rust.NeverEmpty
import Supercov.Js.Outcomes
import Supercov.Js.Taken
import Supercov.Owned.InProcess
import Supercov.Report.Numbered
import Supercov.Go.NewValues
import Supercov.Library.Measured
import Supercov.Js.Positions
import Supercov.Js.Restored
import Supercov.Query.Diff
import Supercov.Query.AllTests
import Supercov.Workspace.Copies
import Supercov.Workspace.Prepared
