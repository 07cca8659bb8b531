import WorkflowEngine.ActionParams
import WorkflowEngine.ActionResult
import WorkflowEngine.Api
import WorkflowEngine.Api.Documents
import WorkflowEngine.Api.Resource
import WorkflowEngine.Api.Response
import WorkflowEngine.Api.Site
import WorkflowEngine.Api.Target
import WorkflowEngine.Call
import WorkflowEngine.Call.Cancel
import WorkflowEngine.Call.Intake
import WorkflowEngine.Call.Pass
import WorkflowEngine.Call.Poll
import WorkflowEngine.Call.Request
import WorkflowEngine.Call.Run
import WorkflowEngine.Call.Sweep
import WorkflowEngine.Choice
import WorkflowEngine.Defect
import WorkflowEngine.Diagram
import WorkflowEngine.Digest
import WorkflowEngine.Engine
import WorkflowEngine.EngineConfig
import WorkflowEngine.Error
import WorkflowEngine.Error.Kind
import WorkflowEngine.Graph
import WorkflowEngine.Graph.Authoring
import WorkflowEngine.Graph.Checks
import WorkflowEngine.Graph.Search
import WorkflowEngine.GraphStore
import WorkflowEngine.Instance
import WorkflowEngine.Invoker
import WorkflowEngine.Keyed
import WorkflowEngine.Kinds
import WorkflowEngine.Number.Binary64
import WorkflowEngine.Number.Rounding
import WorkflowEngine.Number.Shortest
import WorkflowEngine.Path
import WorkflowEngine.PathPattern
import WorkflowEngine.Plan
import WorkflowEngine.Plan.Compilation
import WorkflowEngine.Predicate
import WorkflowEngine.Predicate.Authoring
import WorkflowEngine.Proofs.Action.Checked
import WorkflowEngine.Proofs.Action.Rechecked
import WorkflowEngine.Proofs.Action.Rendered
import WorkflowEngine.Proofs.Call.Polling
import WorkflowEngine.Proofs.Call.Sweeping
import WorkflowEngine.Proofs.Call.Tours
import WorkflowEngine.Proofs.Graph.Acyclic
import WorkflowEngine.Proofs.Graph.Agreement
import WorkflowEngine.Proofs.Graph.Canonical
import WorkflowEngine.Proofs.Graph.Colouring
import WorkflowEngine.Proofs.Graph.Cycles
import WorkflowEngine.Proofs.Graph.Found
import WorkflowEngine.Proofs.Graph.Legible
import WorkflowEngine.Proofs.Graph.Reports
import WorkflowEngine.Proofs.Graph.Traversal
import WorkflowEngine.Proofs.Graph.WellFormed
import WorkflowEngine.Proofs.Number.ReadBack
import WorkflowEngine.Proofs.Plan.Accepted
import WorkflowEngine.Proofs.Plan.Charts
import WorkflowEngine.Proofs.Plan.Content
import WorkflowEngine.Proofs.Plan.Histories
import WorkflowEngine.Proofs.Plan.Image
import WorkflowEngine.Proofs.Plan.Latest
import WorkflowEngine.Proofs.Plan.Registration
import WorkflowEngine.Proofs.Plan.Reload
import WorkflowEngine.Proofs.Plan.Runnable
import WorkflowEngine.Proofs.Plan.Walk
import WorkflowEngine.Proofs.Store.Effect
import WorkflowEngine.Proofs.Store.Keys
import WorkflowEngine.Proofs.Store.Mirror
import WorkflowEngine.Proofs.Store.Pages
import WorkflowEngine.Proofs.Store.Twins
import WorkflowEngine.Proofs.System
import WorkflowEngine.Proofs.System.Aftermath
import WorkflowEngine.Proofs.System.Attempts
import WorkflowEngine.Proofs.System.Attendance
import WorkflowEngine.Proofs.System.Audit
import WorkflowEngine.Proofs.System.Budget
import WorkflowEngine.Proofs.System.Calls
import WorkflowEngine.Proofs.System.Cancellation
import WorkflowEngine.Proofs.System.Claims
import WorkflowEngine.Proofs.System.Condemned
import WorkflowEngine.Proofs.System.Consistency
import WorkflowEngine.Proofs.System.Deduplication
import WorkflowEngine.Proofs.System.Deeds
import WorkflowEngine.Proofs.System.Deliveries
import WorkflowEngine.Proofs.System.FanOut
import WorkflowEngine.Proofs.System.Fencing
import WorkflowEngine.Proofs.System.Grants
import WorkflowEngine.Proofs.System.Handover
import WorkflowEngine.Proofs.System.LastWrites
import WorkflowEngine.Proofs.System.Ledger
import WorkflowEngine.Proofs.System.Life
import WorkflowEngine.Proofs.System.Listing
import WorkflowEngine.Proofs.System.OneWorker
import WorkflowEngine.Proofs.System.Outcomes
import WorkflowEngine.Proofs.System.Passes
import WorkflowEngine.Proofs.System.Polls
import WorkflowEngine.Proofs.System.Premises
import WorkflowEngine.Proofs.System.Retries
import WorkflowEngine.Proofs.System.Rounds
import WorkflowEngine.Proofs.System.Running
import WorkflowEngine.Proofs.System.Serialization
import WorkflowEngine.Proofs.System.Served
import WorkflowEngine.Proofs.System.Shown
import WorkflowEngine.Proofs.System.Soundness
import WorkflowEngine.Proofs.System.Spacing
import WorkflowEngine.Proofs.System.Stages
import WorkflowEngine.Proofs.System.Standing
import WorkflowEngine.Proofs.System.Sweeps
import WorkflowEngine.Proofs.System.Tally
import WorkflowEngine.Proofs.System.Tending
import WorkflowEngine.Proofs.System.Trace
import WorkflowEngine.Proofs.System.Tries
import WorkflowEngine.Proofs.System.Turns
import WorkflowEngine.Proofs.System.Undisturbed
import WorkflowEngine.Proofs.System.Unrunnable
import WorkflowEngine.Proofs.System.Verdicts
import WorkflowEngine.Proofs.System.Writes
import WorkflowEngine.Proofs.Template.Substitution
import WorkflowEngine.Proofs.Value.Agreement
import WorkflowEngine.Proofs.Value.ReadBack
import WorkflowEngine.Proofs.Visit.Branches
import WorkflowEngine.Proofs.Visit.ExactMatches
import WorkflowEngine.Proofs.Visit.Stepped
import WorkflowEngine.Proofs.Visit.Stumped
import WorkflowEngine.Registry
import WorkflowEngine.ShapeError
import WorkflowEngine.Simulation
import WorkflowEngine.Simulation.Execution
import WorkflowEngine.Simulation.Script
import WorkflowEngine.Simulation.Task
import WorkflowEngine.Simulation.Workbench
import WorkflowEngine.Span
import WorkflowEngine.Store
import WorkflowEngine.Store.Memory
import WorkflowEngine.Store.Table
import WorkflowEngine.Template
import WorkflowEngine.Text.Blank
import WorkflowEngine.Text.Hex
import WorkflowEngine.Text.Integer
import WorkflowEngine.Text.LowerCase
import WorkflowEngine.Text.Numeral
import WorkflowEngine.Text.Percent
import WorkflowEngine.Text.Printable
import WorkflowEngine.Text.Quoted
import WorkflowEngine.Text.Ranges
import WorkflowEngine.Text.Search
import WorkflowEngine.Text.UpperCase
import WorkflowEngine.Text.Utf8
import WorkflowEngine.Text.Word
import WorkflowEngine.Time
import WorkflowEngine.Time.Fraction
import WorkflowEngine.Time.IsoDuration
import WorkflowEngine.Time.IsoReader
import WorkflowEngine.Time.Timestamp
import WorkflowEngine.TriggerFilters
import WorkflowEngine.Uuid
import WorkflowEngine.Value
import WorkflowEngine.Value.Equality
import WorkflowEngine.Value.Integer
import WorkflowEngine.Value.Json
import WorkflowEngine.Value.JsonReader
import WorkflowEngine.Value.Text
import WorkflowEngine.Version
import WorkflowEngine.Visit
