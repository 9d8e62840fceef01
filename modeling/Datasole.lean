import Datasole.Client.ClientRouter
import Datasole.Client.Connection
import Datasole.Client.ConnectionCalls
import Datasole.Client.ConnectionClose
import Datasole.Client.ConnectionRpc
import Datasole.Client.Crdt.CrdtStore
import Datasole.Client.Crdt.MessageTypes
import Datasole.Client.Crdt.PendingOps
import Datasole.Client.Events.ClientEventEmitter
import Datasole.Client.MessageHandler
import Datasole.Client.Reconnects
import Datasole.Client.Rpc.Answers
import Datasole.Client.Rpc.CorrelationIds
import Datasole.Client.Rpc.RpcClient
import Datasole.Client.Rpc.RpcRun
import Datasole.Client.SharedBuffer
import Datasole.Client.SharedBufferInv
import Datasole.Client.SharedBufferRun
import Datasole.Client.SharedBufferSteps
import Datasole.Client.State.FirstWrite
import Datasole.Client.State.StateStore
import Datasole.Client.State.Subscriptions
import Datasole.Client.Transport
import Datasole.Client.WorkerLink
import Datasole.Common.Binary64
import Datasole.Common.Bytes
import Datasole.Common.EventEmitter
import Datasole.Common.JsMap
import Datasole.Common.JsString
import Datasole.Common.JsValue
import Datasole.Common.Json
import Datasole.Common.JsonEdit
import Datasole.Common.JsonPointer
import Datasole.Common.LiveSet
import Datasole.Common.Machine
import Datasole.Common.Newest
import Datasole.Common.PrefixCode
import Datasole.Common.Rounds
import Datasole.Common.SharedStore
import Datasole.Common.Transducer
import Datasole.Common.Windows
import Datasole.Server.Backend.Delivery
import Datasole.Server.Backend.MemoryBackend
import Datasole.Server.Backend.Namespaces
import Datasole.Server.Backend.PostgresBackend
import Datasole.Server.Backend.Publications
import Datasole.Server.Backend.RedisBackend
import Datasole.Server.Backend.Snapshots
import Datasole.Server.Broadcasts
import Datasole.Server.ConnectionRun
import Datasole.Server.Crdt.CrdtCluster
import Datasole.Server.Crdt.CrdtManager
import Datasole.Server.Crdt.PersistedState
import Datasole.Server.Crdt.UntrustedFrames
import Datasole.Server.DataFlow.ChannelManager
import Datasole.Server.DatasoleServer
import Datasole.Server.Events.EventBus
import Datasole.Server.Executor.ConnectionExecutor
import Datasole.Server.InboundPipeline
import Datasole.Server.Metrics.OpenTelemetry
import Datasole.Server.Pipeline.ConnectionLimits
import Datasole.Server.Pipeline.ConnectionVerdicts
import Datasole.Server.Pipeline.FramePipeline
import Datasole.Server.Pipeline.Interceptors
import Datasole.Server.Pipeline.MethodLimits
import Datasole.Server.Pipeline.RateLimitInterceptor
import Datasole.Server.Pipeline.RuleSelection
import Datasole.Server.Pipeline.ServerPipeline
import Datasole.Server.Protocol.BroadcastDelivery
import Datasole.Server.Protocol.CrdtOpHandler
import Datasole.Server.Protocol.ProtocolAdapter
import Datasole.Server.Protocol.PublishedReceiver
import Datasole.Server.Protocol.RemoteCalls
import Datasole.Server.Protocol.RemoteCallsKept
import Datasole.Server.Protocol.RemoteCallsRun
import Datasole.Server.Protocol.RemoteCallsWork
import Datasole.Server.Protocol.WireRoundTrip
import Datasole.Server.RateLimit.ConsumeRun
import Datasole.Server.RateLimit.DefaultLimiter
import Datasole.Server.RateLimit.FixedWindow
import Datasole.Server.RateLimit.PureCheck
import Datasole.Server.RateLimit.SequentialLimiter
import Datasole.Server.RateLimit.SequentialRun
import Datasole.Server.RateLimit.SharedLimiter
import Datasole.Server.RateLimit.SlidingWindow
import Datasole.Server.RateLimit.UntypedLimiter
import Datasole.Server.State.DataChannels
import Datasole.Server.State.LiveStateAwaited
import Datasole.Server.State.LiveStateChannels
import Datasole.Server.State.LiveStateCluster
import Datasole.Server.State.LiveStateFailures
import Datasole.Server.State.LiveStateJoin
import Datasole.Server.State.LiveStateRun
import Datasole.Server.State.SessionCalls
import Datasole.Server.State.SessionManager
import Datasole.Server.State.SessionRecords
import Datasole.Server.State.SessionRun
import Datasole.Server.State.StateDelivery
import Datasole.Server.Sync.SyncChannel
import Datasole.Server.Sync.SyncChannelRun
import Datasole.Server.Transport.Listeners
import Datasole.Server.Transport.ServerTransport
import Datasole.Server.Transport.UpgradeAnswers
import Datasole.Server.Transport.WsServer
import Datasole.Shared.Codec.Compression
import Datasole.Shared.Codec.Message
import Datasole.Shared.Crdt.LWWMap
import Datasole.Shared.Crdt.LWWMapMerge
import Datasole.Shared.Crdt.LWWMapOrder
import Datasole.Shared.Crdt.LWWMapTransfer
import Datasole.Shared.Crdt.LWWRegister
import Datasole.Shared.Crdt.LWWRegisterCausality
import Datasole.Shared.Crdt.LWWRegisterMerge
import Datasole.Shared.Crdt.LWWRegisterOrder
import Datasole.Shared.Crdt.LWWRegisterStar
import Datasole.Shared.Crdt.PNCounter
import Datasole.Shared.Crdt.PNCounterGossip
import Datasole.Shared.Crdt.PNCounterStar
import Datasole.Shared.Crdt.Types
import Datasole.Shared.Crdt.UntrustedOps
import Datasole.Shared.Diff.Compare
import Datasole.Shared.Diff.DiffRoundTrip
import Datasole.Shared.Diff.JsonPatch
import Datasole.Shared.Diff.PatchValidation
import Datasole.Shared.Protocol.FrameCodec
import Datasole.Shared.Protocol.Frames
import Datasole.Shared.Types.Events
import Datasole.Shared.Types.Rpc
