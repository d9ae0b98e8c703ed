import PilotLanggraph.AccessControl
import PilotLanggraph.Address
import PilotLanggraph.Agreement
import PilotLanggraph.Answers
import PilotLanggraph.CallSteps
import PilotLanggraph.Channel
import PilotLanggraph.ChannelReconnect
import PilotLanggraph.CheckpointAncestry
import PilotLanggraph.CheckpointDelivery
import PilotLanggraph.CheckpointFilter
import PilotLanggraph.CheckpointHistory
import PilotLanggraph.CheckpointListing
import PilotLanggraph.CheckpointPaging
import PilotLanggraph.CheckpointRefinement
import PilotLanggraph.CheckpointRetries
import PilotLanggraph.CheckpointRoundTrip
import PilotLanggraph.CheckpointSaver
import PilotLanggraph.CheckpointWorker
import PilotLanggraph.Commands
import PilotLanggraph.ConcurrencyCap
import PilotLanggraph.Connection
import PilotLanggraph.ConnectionRegistry
import PilotLanggraph.ConnectionScope
import PilotLanggraph.Counters
import PilotLanggraph.Datagrams
import PilotLanggraph.Discovery
import PilotLanggraph.Doings
import PilotLanggraph.Drive
import PilotLanggraph.DriverLoop
import PilotLanggraph.Echo
import PilotLanggraph.Encoders
import PilotLanggraph.Endpoints
import PilotLanggraph.EventLimits
import PilotLanggraph.EventSource
import PilotLanggraph.EventStream
import PilotLanggraph.Fanout
import PilotLanggraph.FanoutFailFast
import PilotLanggraph.Frames
import PilotLanggraph.GracefulStop
import PilotLanggraph.Ipc
import PilotLanggraph.Lib.Async
import PilotLanggraph.Lib.AtLeastOnce
import PilotLanggraph.Lib.Awaitable
import PilotLanggraph.Lib.Base64
import PilotLanggraph.Lib.Coroutine
import PilotLanggraph.Lib.Decimal
import PilotLanggraph.Lib.Dict
import PilotLanggraph.Lib.Exposition
import PilotLanggraph.Lib.Framing
import PilotLanggraph.Lib.Incremental
import PilotLanggraph.Lib.Json
import PilotLanggraph.Lib.JsonBytes
import PilotLanggraph.Lib.JsonLocal
import PilotLanggraph.Lib.JsonText
import PilotLanggraph.Lib.JsonWf
import PilotLanggraph.Lib.Keyed
import PilotLanggraph.Lib.LengthPrefix
import PilotLanggraph.Lib.Machine
import PilotLanggraph.Lib.Numeral
import PilotLanggraph.Lib.Precedes
import PilotLanggraph.Lib.PubSub
import PilotLanggraph.Lib.SlidingWindow
import PilotLanggraph.Lib.Table
import PilotLanggraph.Lib.TaskSet
import PilotLanggraph.Lib.Utf8
import PilotLanggraph.Lifecycle
import PilotLanggraph.ListenerAccept
import PilotLanggraph.LogFormat
import PilotLanggraph.LoopsApart
import PilotLanggraph.Metrics
import PilotLanggraph.Middleware
import PilotLanggraph.MiddlewareCoverage
import PilotLanggraph.MiddlewareRetry
import PilotLanggraph.Outbound
import PilotLanggraph.Periodic
import PilotLanggraph.RateLimit
import PilotLanggraph.RateWindow
import PilotLanggraph.ReadUntilEof
import PilotLanggraph.ReconnectSessions
import PilotLanggraph.Refusals
import PilotLanggraph.Registration
import PilotLanggraph.RegistryLoops
import PilotLanggraph.Reload
import PilotLanggraph.RemoteCall
import PilotLanggraph.ReplyBytes
import PilotLanggraph.ReplyFraming
import PilotLanggraph.ReplyGrammar
import PilotLanggraph.RequestAssembly
import PilotLanggraph.Requests
import PilotLanggraph.Retries
import PilotLanggraph.RetryLaw
import PilotLanggraph.Router
import PilotLanggraph.Runnables
import PilotLanggraph.ServeForever
import PilotLanggraph.Server
import PilotLanggraph.StreamClose
import PilotLanggraph.StreamDelivery
import PilotLanggraph.StreamEof
import PilotLanggraph.StreamPipe
import PilotLanggraph.StreamRetries
import PilotLanggraph.SyncLoop
import PilotLanggraph.SyncMiddleware
import PilotLanggraph.SyncStream
import PilotLanggraph.Teardown
import PilotLanggraph.TestingHelper
import PilotLanggraph.Trust
import PilotLanggraph.WorkerStall
