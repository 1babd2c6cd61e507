import Rollout.Build
import Rollout.Clock
import Rollout.Clock.Utc
import Rollout.Cloud.Bucket
import Rollout.Cloud.Hook
import Rollout.Cloud.ObjectStore
import Rollout.Cloud.OnDisk
import Rollout.Cloud.Service
import Rollout.Cloud.Snapshot
import Rollout.Cloud.StackProvider
import Rollout.Cloud.Template
import Rollout.CommandLine.Arguments
import Rollout.CommandLine.Context
import Rollout.CommandLine.Invocation
import Rollout.CommandLine.Usage
import Rollout.Config
import Rollout.Config.Environment
import Rollout.Config.Format
import Rollout.Config.Json
import Rollout.Config.Load
import Rollout.Config.Settings
import Rollout.Config.Warning
import Rollout.Digest.Sha256
import Rollout.Event
import Rollout.Event.Json
import Rollout.Event.Log
import Rollout.Failure
import Rollout.Failure.Kind
import Rollout.Files.Lock
import Rollout.Files.Path
import Rollout.Files.Place
import Rollout.Files.Source
import Rollout.Files.Tree
import Rollout.Files.Update
import Rollout.Function
import Rollout.Json.Access
import Rollout.Json.Fields
import Rollout.Json.Number
import Rollout.Json.Parser
import Rollout.Json.Printer
import Rollout.Json.Value
import Rollout.Log.Filter
import Rollout.Number.Binary64
import Rollout.Number.Decimal
import Rollout.Policy
import Rollout.Project
import Rollout.Project.Files
import Rollout.Project.Format
import Rollout.Proofs.Build.Collected
import Rollout.Proofs.Build.Fingerprint
import Rollout.Proofs.Build.Unambiguous
import Rollout.Proofs.Cloud.AllOrNothing
import Rollout.Proofs.Cloud.Bucket
import Rollout.Proofs.Cloud.CrashAtomicity
import Rollout.Proofs.Cloud.Deletion
import Rollout.Proofs.Cloud.Emptying
import Rollout.Proofs.Cloud.Exclusive
import Rollout.Proofs.Cloud.Existence
import Rollout.Proofs.Cloud.Exports
import Rollout.Proofs.Cloud.Growth
import Rollout.Proofs.Cloud.IdOrder
import Rollout.Proofs.Cloud.Invocation
import Rollout.Proofs.Cloud.Ledger
import Rollout.Proofs.Cloud.Legible
import Rollout.Proofs.Cloud.Listings
import Rollout.Proofs.Cloud.ObjectStore
import Rollout.Proofs.Cloud.Orderly
import Rollout.Proofs.Cloud.Records
import Rollout.Proofs.Cloud.Refinement
import Rollout.Proofs.Cloud.Represented
import Rollout.Proofs.Cloud.StackCalls
import Rollout.Proofs.Cloud.StackDocument
import Rollout.Proofs.Cloud.StackProvider
import Rollout.Proofs.Cloud.Steadiness
import Rollout.Proofs.Cloud.Undone
import Rollout.Proofs.Cloud.VersionId
import Rollout.Proofs.Cloud.VersionRemoval
import Rollout.Proofs.Cloud.VersionedStore
import Rollout.Proofs.CommandLine.Precedence
import Rollout.Proofs.Config.Suggestion
import Rollout.Proofs.Config.UnknownKeys
import Rollout.Proofs.Event.Stream
import Rollout.Proofs.Files.Apart
import Rollout.Proofs.Files.Around
import Rollout.Proofs.Files.Beyond
import Rollout.Proofs.Files.Exact
import Rollout.Proofs.Files.Listing
import Rollout.Proofs.Files.Naming
import Rollout.Proofs.Files.Path
import Rollout.Proofs.Files.Pruned
import Rollout.Proofs.Files.Tree
import Rollout.Proofs.Files.Update
import Rollout.Proofs.Json.Compact
import Rollout.Proofs.Json.Fields
import Rollout.Proofs.Json.Nesting
import Rollout.Proofs.Json.Numerals
import Rollout.Proofs.Json.Reading
import Rollout.Proofs.Json.Written
import Rollout.Proofs.Number.Digits
import Rollout.Proofs.Number.Rounding
import Rollout.Proofs.Number.ShortestDecimal
import Rollout.Proofs.Outcome
import Rollout.Proofs.Paging
import Rollout.Proofs.Record.Faithful
import Rollout.Proofs.Record.Format
import Rollout.Proofs.Record.Store
import Rollout.Proofs.Redeploy
import Rollout.Proofs.Redeploy.Decision
import Rollout.Proofs.Redeploy.Issued
import Rollout.Proofs.Redeploy.Replanning
import Rollout.Proofs.Redeploy.Tokens
import Rollout.Proofs.Run.Batch
import Rollout.Proofs.Run.Cautious
import Rollout.Proofs.Run.Commit
import Rollout.Proofs.Run.CommitSafety
import Rollout.Proofs.Run.Crew
import Rollout.Proofs.Run.Destruction
import Rollout.Proofs.Run.Evaluation
import Rollout.Proofs.Run.Exchanges
import Rollout.Proofs.Run.ExportScan
import Rollout.Proofs.Run.ExportSearch
import Rollout.Proofs.Run.Fleet
import Rollout.Proofs.Run.FleetSafety
import Rollout.Proofs.Run.Forecast
import Rollout.Proofs.Run.HalfEmptied
import Rollout.Proofs.Run.Hosting
import Rollout.Proofs.Run.Installed
import Rollout.Proofs.Run.Interleaved
import Rollout.Proofs.Run.Live
import Rollout.Proofs.Run.Looking
import Rollout.Proofs.Run.Meant
import Rollout.Proofs.Run.Oracle
import Rollout.Proofs.Run.Prediction
import Rollout.Proofs.Run.Protocol
import Rollout.Proofs.Run.Resumption
import Rollout.Proofs.Run.Scheduling
import Rollout.Proofs.Run.SharedDeploy
import Rollout.Proofs.Run.Sharing
import Rollout.Proofs.Run.Site
import Rollout.Proofs.Run.Succeeding
import Rollout.Proofs.Run.Teardown
import Rollout.Proofs.Run.Trust
import Rollout.Proofs.Run.Uploads
import Rollout.Proofs.Run.Vouched
import Rollout.Proofs.Run.Waited
import Rollout.Proofs.Substitution
import Rollout.Proofs.Text.EditDistance
import Rollout.Proofs.Text.Joined
import Rollout.Proofs.Text.Lines
import Rollout.Proofs.Text.Order
import Rollout.Proofs.Text.Split
import Rollout.Proofs.Text.Utf8
import Rollout.Proofs.TextMap
import Rollout.Proofs.Toml.Lines
import Rollout.Proofs.Toml.Places
import Rollout.Proofs.Toml.Quoting
import Rollout.Proofs.Toml.Suffix
import Rollout.Record
import Rollout.Record.Format
import Rollout.Record.Store
import Rollout.Redeploy
import Rollout.Rehearsal.Fault
import Rollout.Rehearsal.Format
import Rollout.Rehearsal.Script
import Rollout.Report.Json
import Rollout.Report.Text
import Rollout.Run.Artifacts
import Rollout.Run.Deploy
import Rollout.Run.Destroy
import Rollout.Run.Lifecycle
import Rollout.Run.Plan
import Rollout.Run.Program
import Rollout.Run.Request
import Rollout.Run.Schedule
import Rollout.Run.Tracking
import Rollout.Run.World
import Rollout.Stack.Status
import Rollout.Stage
import Rollout.Substitution
import Rollout.Text.Blank
import Rollout.Text.EditDistance
import Rollout.Text.Hex
import Rollout.Text.Lowercase
import Rollout.Text.Order
import Rollout.Text.Split
import Rollout.Text.Utf8
import Rollout.TextMap
import Rollout.Toml.Document
import Rollout.Toml.Parser
import Rollout.Toml.Printer
import Rollout.Toml.Scalar
import Rollout.Toml.Value
import Rollout.Main
