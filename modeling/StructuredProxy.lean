import StructuredProxy.Auth.Answered
import StructuredProxy.Auth.CacheSlots
import StructuredProxy.Auth.Forging
import StructuredProxy.Auth.Jwks
import StructuredProxy.Auth.JwksAge
import StructuredProxy.ClientAddress.Chained
import StructuredProxy.ClientAddress.Influence
import StructuredProxy.Codec.Required
import StructuredProxy.Cors.Policy
import StructuredProxy.Lib.Commute
import StructuredProxy.Lib.Compact
import StructuredProxy.Lib.Group
import StructuredProxy.Lib.KeyMap
import StructuredProxy.Lib.KeyedList
import StructuredProxy.Lib.Lists
import StructuredProxy.Lib.Machine
import StructuredProxy.Lib.Placement
import StructuredProxy.Lib.Registry
import StructuredProxy.Lib.Schedules
import StructuredProxy.Lib.Worklist
import StructuredProxy.Metadata.Binary
import StructuredProxy.Metadata.Forward
import StructuredProxy.Metadata.Forwarded
import StructuredProxy.Metadata.Trace
import StructuredProxy.OpenApi.Closed
import StructuredProxy.OpenApi.Document
import StructuredProxy.OpenApi.Operation
import StructuredProxy.OpenApi.OperationIds
import StructuredProxy.OpenApi.OwnSchema
import StructuredProxy.OpenApi.Schema
import StructuredProxy.OpenApi.Tasks
import StructuredProxy.OpenApi.Walk
import StructuredProxy.Request.Bind
import StructuredProxy.Request.Binding
import StructuredProxy.Request.BodySets
import StructuredProxy.Request.BodyWins
import StructuredProxy.Request.BoundValues
import StructuredProxy.Request.Build
import StructuredProxy.Request.Descriptor
import StructuredProxy.Request.Erased
import StructuredProxy.Request.Json
import StructuredProxy.Request.Message
import StructuredProxy.Request.Outcome
import StructuredProxy.Request.Overwritten
import StructuredProxy.Request.Pairs
import StructuredProxy.Request.PathWins
import StructuredProxy.Request.Paths
import StructuredProxy.Request.Presence
import StructuredProxy.Request.Recorder
import StructuredProxy.Request.Reordered
import StructuredProxy.Request.Respelled
import StructuredProxy.Request.Scalar
import StructuredProxy.Request.Spelling
import StructuredProxy.Response.Ndjson
import StructuredProxy.Response.Upstream
import StructuredProxy.Serve.Idle
import StructuredProxy.Serve.IdleRuns
import StructuredProxy.Shield.FleetBudget
import StructuredProxy.Shield.FleetGate
import StructuredProxy.Shield.Gcra
import StructuredProxy.Shield.GcraRuns
import StructuredProxy.Shield.GcraStore
import StructuredProxy.Shield.Global
import StructuredProxy.Shield.LimitAnswers
import StructuredProxy.Shield.LimitFlights
import StructuredProxy.Shield.LimitService
import StructuredProxy.Shield.Publish
import StructuredProxy.Shield.Published
import StructuredProxy.Status.Render
import StructuredProxy.Status.Scrubbed
import StructuredProxy.Transcode.Admission
import StructuredProxy.Transcode.Admitted
import StructuredProxy.Transcode.Bindings
import StructuredProxy.Transcode.Choose
import StructuredProxy.Transcode.CleanPath
import StructuredProxy.Transcode.Declared
import StructuredProxy.Transcode.Decode
import StructuredProxy.Transcode.Grammar
import StructuredProxy.Transcode.GrammarText
import StructuredProxy.Transcode.Index
import StructuredProxy.Transcode.IndexListing
import StructuredProxy.Transcode.IndexTree
import StructuredProxy.Transcode.Mounted
import StructuredProxy.Transcode.Params
import StructuredProxy.Transcode.Path
import StructuredProxy.Transcode.Pattern
import StructuredProxy.Transcode.Ranked
import StructuredProxy.Transcode.RouterPath
import StructuredProxy.Transcode.Routes
import StructuredProxy.Transcode.RoutesIndex
import StructuredProxy.Transcode.Rule
import StructuredProxy.Transcode.Served
import StructuredProxy.Transcode.Startup
import StructuredProxy.Transcode.Table
import StructuredProxy.Transcode.Text
import StructuredProxy.Transcode.TopLevel
import StructuredProxy.Transcode.VerbValue
import StructuredProxy.Guard.Rejection
import StructuredProxy.Guard.Scope
import StructuredProxy.Shield.Report
import StructuredProxy.Transcode.Number
import StructuredProxy.Guard.Gate
import StructuredProxy.Guard.Stack
import StructuredProxy.Guard.InFlight
import StructuredProxy.Guard.Grpc
import StructuredProxy.Guard.Native
import StructuredProxy.Shield.Rule
import StructuredProxy.Shield.Charge
