import IndustrialRuntime.Admin.AdminCommand
import IndustrialRuntime.Admin.AdminServer
import IndustrialRuntime.Admin.CliMain
import IndustrialRuntime.Admin.IrpCli
import IndustrialRuntime.Admin.OwnOutput
import IndustrialRuntime.Codec.Canonical
import IndustrialRuntime.Codec.Consumed
import IndustrialRuntime.Codec.Grammar
import IndustrialRuntime.Codec.Irsp1Codec
import IndustrialRuntime.Codec.IrspValue
import IndustrialRuntime.Codec.LineRead
import IndustrialRuntime.Codec.Lines
import IndustrialRuntime.Codec.Progress
import IndustrialRuntime.Codec.RoundTrip
import IndustrialRuntime.Codec.Streaming
import IndustrialRuntime.Core.Config
import IndustrialRuntime.Core.EventBus
import IndustrialRuntime.Core.EventBusClaims
import IndustrialRuntime.Core.EventBusDelivery
import IndustrialRuntime.Core.EventBusRoles
import IndustrialRuntime.Core.EventBusSteps
import IndustrialRuntime.Core.EventBusStop
import IndustrialRuntime.Core.EventBusUnsubscribe
import IndustrialRuntime.Core.FailedLoad
import IndustrialRuntime.Core.FlatMap
import IndustrialRuntime.Core.HotUnload
import IndustrialRuntime.Core.InitRollback
import IndustrialRuntime.Core.Lifecycle
import IndustrialRuntime.Core.LifecycleHandles
import IndustrialRuntime.Core.LifecyclePhases
import IndustrialRuntime.Core.ManagerRuns
import IndustrialRuntime.Core.ManagerSteps
import IndustrialRuntime.Core.MemoryStore
import IndustrialRuntime.Core.MemoryStoreCounts
import IndustrialRuntime.Core.MpmcInvariant
import IndustrialRuntime.Core.MpmcPreserve
import IndustrialRuntime.Core.MpmcQueue
import IndustrialRuntime.Core.MpmcRecord
import IndustrialRuntime.Core.MpmcSafety
import IndustrialRuntime.Core.MpmcSequential
import IndustrialRuntime.Core.MpmcSteps
import IndustrialRuntime.Core.MpmcThreads
import IndustrialRuntime.Core.PluginAbi
import IndustrialRuntime.Core.PluginHost
import IndustrialRuntime.Core.PluginIdentity
import IndustrialRuntime.Core.PluginManager
import IndustrialRuntime.Core.PluginOwners
import IndustrialRuntime.Core.PluginTable
import IndustrialRuntime.Core.RegistrationOwners
import IndustrialRuntime.Core.Reroute
import IndustrialRuntime.Core.Scheduler
import IndustrialRuntime.Core.SchedulerPacing
import IndustrialRuntime.Core.SchedulerRounds
import IndustrialRuntime.Core.TagEngine
import IndustrialRuntime.Core.TagPresence
import IndustrialRuntime.Core.Types
import IndustrialRuntime.Core.WriteRoutes
import IndustrialRuntime.Core.WriteThreads
import IndustrialRuntime.Lib.Atomic
import IndustrialRuntime.Lib.BigEndian
import IndustrialRuntime.Lib.Bytes
import IndustrialRuntime.Lib.Chunks
import IndustrialRuntime.Lib.Decimal
import IndustrialRuntime.Lib.Draining
import IndustrialRuntime.Lib.Locks
import IndustrialRuntime.Lib.Machine
import IndustrialRuntime.Lib.Sharded
import IndustrialRuntime.Lib.Spaced
import IndustrialRuntime.Lib.Split
import IndustrialRuntime.Lib.Tickets
import IndustrialRuntime.Lib.Unwinding
import IndustrialRuntime.Lib.Utf8
import IndustrialRuntime.Sdk.ClientAgreement
import IndustrialRuntime.Sdk.ClientCalls
import IndustrialRuntime.Sdk.ClientCodec
import IndustrialRuntime.Sdk.ClientDecode
import IndustrialRuntime.Sdk.ClientDialects
import IndustrialRuntime.Sdk.ClientLink
import IndustrialRuntime.Sdk.ClientRecords
import IndustrialRuntime.Sdk.ClientReplies
import IndustrialRuntime.Sdk.ClientScan
import IndustrialRuntime.Sdk.ClientTags
import IndustrialRuntime.Sdk.ClientTold
import IndustrialRuntime.Sdk.Correlation
import IndustrialRuntime.Sdk.ExamplePlugin
import IndustrialRuntime.Sdk.IrspClient
import IndustrialRuntime.Sdk.PluginPush
import IndustrialRuntime.Sdk.PluginWrites
import IndustrialRuntime.Semantic.Branches
import IndustrialRuntime.Semantic.Dispatcher
import IndustrialRuntime.Semantic.DispatcherSubs
import IndustrialRuntime.Semantic.Effects
import IndustrialRuntime.Semantic.Handshake
import IndustrialRuntime.Semantic.Interests
import IndustrialRuntime.Semantic.Replies
import IndustrialRuntime.Semantic.SessionCleanup
import IndustrialRuntime.Semantic.SessionView
import IndustrialRuntime.Semantic.Sessions
import IndustrialRuntime.Semantic.TagSource
import IndustrialRuntime.Semantic.Topic
import IndustrialRuntime.Semantic.TopicLemmas
import IndustrialRuntime.Semantic.TopicMeaning
import IndustrialRuntime.Semantic.TopicTrie
import IndustrialRuntime.Semantic.TrieIndex
import IndustrialRuntime.Semantic.TriePaths
import IndustrialRuntime.Semantic.TrieRefinement
import IndustrialRuntime.Semantic.TrieRegistry
import IndustrialRuntime.Server.Closing
import IndustrialRuntime.Server.CoreTagSource
import IndustrialRuntime.Server.CoreTagWriter
import IndustrialRuntime.Server.Discovery
import IndustrialRuntime.Server.Errands
import IndustrialRuntime.Server.EventShutdown
import IndustrialRuntime.Server.Fragments
import IndustrialRuntime.Server.Frames
import IndustrialRuntime.Server.IrspServer
import IndustrialRuntime.Server.LockCycle
import IndustrialRuntime.Server.LockOrder
import IndustrialRuntime.Server.PushConvergence
import IndustrialRuntime.Server.PushDelivery
import IndustrialRuntime.Server.PushRouting
import IndustrialRuntime.Server.PushStored
import IndustrialRuntime.Server.Pushing
import IndustrialRuntime.Server.Runtime
import IndustrialRuntime.Server.RuntimeLocks
import IndustrialRuntime.Server.RuntimeSteps
import IndustrialRuntime.Server.ScanConcurrent
import IndustrialRuntime.Server.ScanIteration
import IndustrialRuntime.Server.SetStatus
import IndustrialRuntime.Server.ValueBytes
import IndustrialRuntime.Server.Wakeups
import IndustrialRuntime.Server.WriteBack
import IndustrialRuntime.Server.WriteLoop
import IndustrialRuntime.Server.WriteRouting
import IndustrialRuntime.Tools.S7Driver
