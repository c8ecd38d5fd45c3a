import GrafeoLoro.Constants
import GrafeoLoro.Types.Values
import GrafeoLoro.Proofs.ValueRoundTrip
import GrafeoLoro.Lib.Inverse
import GrafeoLoro.Bridge.GrafeoTx
import GrafeoLoro.Proofs.ApplyLoroOp
import GrafeoLoro.Proofs.BridgeOk
import GrafeoLoro.Proofs.UpsertEdge
import GrafeoLoro.Proofs.Idempotence
import GrafeoLoro.Lib.Exec
import GrafeoLoro.Lib.Fair
import GrafeoLoro.Bridge.Pipeline
import GrafeoLoro.Proofs.Pipeline
import GrafeoLoro.Proofs.BatcherLoop
import GrafeoLoro.Lib.Batching
import GrafeoLoro.Proofs.BatcherConservation
import GrafeoLoro.Proofs.Shutdown
import GrafeoLoro.Bridge.OriginTag
import GrafeoLoro.Proofs.OriginTag
import GrafeoLoro.Bridge.EpochChannel
import GrafeoLoro.Proofs.EpochChannel
import GrafeoLoro.Proofs.Echo
import GrafeoLoro.Lib.Acyclic
import GrafeoLoro.Lib.Search
import GrafeoLoro.Schema.TreeMove
import GrafeoLoro.Proofs.TreeMove
import GrafeoLoro.Bridge.SyncEngine
import GrafeoLoro.Proofs.Parity
import GrafeoLoro.Bridge.Batcher
import GrafeoLoro.Hydration
import GrafeoLoro.Lib.KeyTags
import GrafeoLoro.Proofs.Loops
import GrafeoLoro.Proofs.FailedBatch
import GrafeoLoro.Proofs.VertexFormat
import GrafeoLoro.App
import GrafeoLoro.Proofs.ColdBoot
import GrafeoLoro.Bridge.Queue
import GrafeoLoro.Proofs.EpochTracker
import GrafeoLoro.Proofs.EdgeKey
import GrafeoLoro.Bridge.ChangeEvent
import GrafeoLoro.Proofs.OutboundMerge
import GrafeoLoro.Bridge.SyncRun
import GrafeoLoro.Proofs.Bijection
import GrafeoLoro.Proofs.BijectionDrift
import GrafeoLoro.Bridge.NodeLocks
import GrafeoLoro.Proofs.NodeLocks
import GrafeoLoro.Bridge.WipeCache
import GrafeoLoro.Proofs.WipeCache
import GrafeoLoro.Proofs.Reparent
import GrafeoLoro.Proofs.EdgeHydration
import GrafeoLoro.Proofs.EpochBound
import GrafeoLoro.Lib.Windows
import GrafeoLoro.Proofs.PollerWindows
import GrafeoLoro.Proofs.GraphIsolation
import GrafeoLoro.Ffi.Merge
import GrafeoLoro.Lib.Alignment
import GrafeoLoro.Proofs.LcsMatches
import GrafeoLoro.Lib.Lcs
import GrafeoLoro.Lib.Grid
import GrafeoLoro.Ffi.LcsLoops
import GrafeoLoro.Proofs.LcsOptimal
import GrafeoLoro.Proofs.TextMerge
import GrafeoLoro.Proofs.MergeSources
import GrafeoLoro.Proofs.MergeConflict
import GrafeoLoro.Bridge.Subscriber
import GrafeoLoro.Proofs.Subscriber
import GrafeoLoro.Lib.Fuel
import GrafeoLoro.Lib.Chain
import GrafeoLoro.Schema.CycleGuard
import GrafeoLoro.Proofs.CycleGuard
import GrafeoLoro.Proofs.CycleCheck
import GrafeoLoro.Schema.RootTracker
import GrafeoLoro.Proofs.RootTracker
import GrafeoLoro.Proofs.TreeRoots
import GrafeoLoro.Proofs.OfflineQueue
import GrafeoLoro.Lib.Bytes
import GrafeoLoro.Compression.Wrapper
import GrafeoLoro.Proofs.SnapshotWire
import GrafeoLoro.Presence.Socket
import GrafeoLoro.Proofs.PresenceEnvelope
import GrafeoLoro.Runtime.MemoryCeiling
import GrafeoLoro.Proofs.MemoryCeiling
import GrafeoLoro.Proofs.TryAlloc
import GrafeoLoro.Lib.LinkedStack
import GrafeoLoro.Shadow.RefStore
import GrafeoLoro.Proofs.ShadowStore
import GrafeoLoro.Lib.SortedVec
import GrafeoLoro.Fts.InvertedIndex
import GrafeoLoro.Proofs.InvertedIndex
import GrafeoLoro.Lib.Words
import GrafeoLoro.Proofs.Tokenize
import GrafeoLoro.Lib.FirstOccurrence
import GrafeoLoro.Types.NodeIdTable
import GrafeoLoro.Proofs.NodeIdTable
import GrafeoLoro.Lib.Records
import GrafeoLoro.Sab.LayoutWriter
import GrafeoLoro.Proofs.SabLayout
import GrafeoLoro.Lib.Interleave
import GrafeoLoro.Hydration.Schedule
import GrafeoLoro.Proofs.HydrationAgree
import GrafeoLoro.Lib.Preorder
import GrafeoLoro.TreeAdapter
import GrafeoLoro.Proofs.TreeAdapter
import GrafeoLoro.Lib.ThreeColor
import GrafeoLoro.Schema.EdgeSpec
import GrafeoLoro.Proofs.EdgeBatch
import GrafeoLoro.Observability.Invariants
import GrafeoLoro.Proofs.InvariantMonitor
import GrafeoLoro.Lib.Keyed
import GrafeoLoro.Proofs.TranslationOrder
import GrafeoLoro.Proofs.ShadowReset
import GrafeoLoro.Ffi.BatcherRegistry
import GrafeoLoro.Proofs.BatcherRegistry
import GrafeoLoro.Fts.Search
import GrafeoLoro.Proofs.Search
import GrafeoLoro.Proofs.GrafeoRoundTrip
import GrafeoLoro.Runtime.Mailbox
import GrafeoLoro.Proofs.Mailbox
import GrafeoLoro.Bridge.TwoWay
import GrafeoLoro.Proofs.SyncViews
import GrafeoLoro.Proofs.TwoWay
import GrafeoLoro.TreeEdits
import GrafeoLoro.Proofs.TreeEdits
import GrafeoLoro.Storage.Shared
import GrafeoLoro.Proofs.SharedCalls
import GrafeoLoro.Proofs.SharedStorage
import GrafeoLoro.Fuzz.Consistency
import GrafeoLoro.Proofs.FuzzConsistency
import GrafeoLoro.Lib.LastWrite
import GrafeoLoro.Presence.Registry
import GrafeoLoro.Proofs.PresenceRegistry
import GrafeoLoro.Ffi.NodeBatch
import GrafeoLoro.Proofs.NodeBatch
import GrafeoLoro.Lib.SingleWalk
import GrafeoLoro.Proofs.TreeSearch
import GrafeoLoro.Lib.Reserve
import GrafeoLoro.Runtime.SharedCeiling
import GrafeoLoro.Proofs.CeilingCalls
import GrafeoLoro.Proofs.SharedCeiling
