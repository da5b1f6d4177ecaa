import Creek.Tight.WirePacket
import Creek.Tight.Fec
import Creek.Tight.Crypto.AesGcm
import Creek.Tight.Crypto.Sha256
import Creek.Tight.Crypto.X25519
import Creek.Library.LinearSystems
import Creek.Proofs.Tight.GaloisField
import Creek.Tight.Reassembler
import Creek.Proofs.Tight.CommandOrder
import Creek.Proofs.Tight.WireRoundTrip
import Creek.Proofs.Tight.Assembly
import Creek.Proofs.Tight.ErasureShape
import Creek.Proofs.Tight.ReassemblerSafety
import Creek.Proofs.Tight.ErasureRecovery
import Creek.Tight.Fragmenter
import Creek.Proofs.Tight.Fragments
import Creek.Proofs.Tight.MessageIntegrity
import Creek.Tight.Report
import Creek.Tight.Link
import Creek.Tight.Handlers
import Creek.Library.Runs
import Creek.Tight.Transport
import Creek.Proofs.Tight.LinkFrames
import Creek.Proofs.Tight.HandlerFrames
import Creek.Mesh.Directory
import Creek.Library.LastWriter
import Creek.Proofs.Mesh.Convergence
import Creek.Proofs.Mesh.Snapshots
import Creek.Proofs.Mesh.Replication
import Creek.Proofs.Mesh.TombstoneLifetime
import Creek.Mesh.Node
import Creek.Proofs.Mesh.NodeDirectory
import Creek.Proofs.Mesh.LeafAuthority
import Creek.Proofs.Mesh.OwnershipIsolation
import Creek.Mesh.Routing
import Creek.Proofs.Mesh.RoutingTermination
import Creek.Leaf.IngressStream
import Creek.Leaf.BackendStream
import Creek.Leaf.StreamPath
import Creek.Proofs.Leaf.BackendCalls
import Creek.Proofs.Leaf.IngressMoves
import Creek.Proofs.Leaf.LocalPath
import Creek.Proofs.Leaf.RoutedPath
import Creek.Proofs.Leaf.PathAgreement
import Creek.Proofs.Leaf.IngressSends
import Creek.Proofs.Leaf.StreamOrder
import Creek.Tight.Exchange
import Creek.Tight.LossTable
import Creek.Proofs.Tight.GapTracking
import Creek.Proofs.Tight.LossTable
import Creek.Proofs.Tight.CursorStall
import Creek.Proofs.Tight.CommandDelivery
import Creek.Mesh.Balancer
import Creek.Proofs.Mesh.LiveRouting
import Creek.Proofs.Mesh.ShardAgreement
import Creek.Proofs.Mesh.Stickiness
import Creek.Proofs.Mesh.RefusalDelivery
import Creek.Leaf.LocalEndpoints
import Creek.Proofs.Leaf.OwnEndpoints
import Creek.Leaf.CircuitBreaker
import Creek.Proofs.Leaf.BreakerRecovery
import Creek.Proofs.Leaf.BreakerThresholds
import Creek.Framework.Cycle
import Creek.Proofs.Framework.ChangeNotices
import Creek.Proofs.Framework.MessageReentry
import Creek.Library.BlockMemory
import Creek.Wasm.Runtime
import Creek.Proofs.Wasm.SandboxBounds
import Creek.Wasm.Modules
import Creek.Proofs.Wasm.ModuleCalls
import Creek.Proofs.Wasm.CleanErrors
import Creek.Proofs.Tight.ErasureCorrectness
import Creek.Proofs.Tight.SendDisposal
import Creek.Proofs.Tight.PendingInterleaving
import Creek.Proofs.Tight.Handshake
import Creek.Proofs.Tight.MalformedGroups
import Creek.Proofs.Tight.ClockOffset
import Creek.Proofs.Tight.DatagramSize
import Creek.Proofs.Tight.MtuBound
import Creek.Proofs.Tight.Authentication
import Creek.Proofs.Tight.AddressIndex
import Creek.Library.ShiftRegister
import Creek.Library.Curve25519
import Creek.Library.BinaryPolynomials
import Creek.Library.Rijndael
import Creek.Library.GaloisCounter
import Creek.Tight.Crypto.CheckedX25519
import Creek.Library.Chains
import Creek.Tight.LinkedQueue
import Creek.Tight.PeerHandles
import Creek.Proofs.Tight.QueuedHandles
import Creek.Proofs.Tight.QueueOrder
import Creek.Proofs.Tight.ChecksumBursts
import Creek.Proofs.Tight.FieldLimbs
import Creek.Proofs.Tight.FieldBytes
import Creek.Proofs.Tight.X25519
import Creek.Proofs.Tight.ReportRoundTrip
import Creek.Library.Locks
import Creek.Tight.Threads
import Creek.Leaf.LeafLocks
import Creek.Mesh.NodeLocks
import Creek.Proofs.Tight.CallbackLocks
import Creek.Proofs.Tight.AesCipher
import Creek.Proofs.Tight.GaloisCounterMode
import Creek.Proofs.Tight.TokenGate
import Creek.Leaf.BackendCall
import Creek.Proofs.Leaf.WriteDiscipline
import Creek.Proofs.Leaf.Classification
import Creek.Proofs.Leaf.Deregistration
import Creek.Leaf.PendingCalls
import Creek.Proofs.Leaf.ResponseMatching
import Creek.Library.Lookups
import Creek.Leaf.StreamLifetime
import Creek.Proofs.Leaf.StreamDeletion
import Creek.Library.LockPrograms
import Creek.Leaf.LeafMutexes
import Creek.Proofs.Leaf.LockOrder
import Creek.Library.PriorityQueues
import Creek.Framework.Timer
import Creek.Proofs.Framework.TimerOperations
import Creek.Proofs.Framework.TimerDelivery
import Creek.Proofs.Framework.PeriodicTasks
import Creek.Framework.Reactor
import Creek.Proofs.Framework.Cancellation
import Creek.Framework.Stage4
import Creek.Proofs.Framework.CallAccounting
import Creek.Library.Numerals
import Creek.Library.Separated
import Creek.Library.Json
import Creek.Telemetry.Metrics
import Creek.Telemetry.MetricsStore
import Creek.Proofs.Telemetry.MetricKeys
import Creek.Proofs.Telemetry.MetricWindows
import Creek.Proofs.Telemetry.MetricAccounts
import Creek.Proofs.Telemetry.ExposedCounters
import Creek.Proofs.Telemetry.MetricsJson
import Creek.Proofs.Telemetry.TraceHops
import Creek.Telemetry.TraceContext
import Creek.Leaf.JsonRpc
import Creek.Proofs.Leaf.JsonRpcAnswers
import Creek.Leaf.JsonRpcHttp
import Creek.Proofs.Leaf.RequestChunks
import Creek.Library.BinaryRounding
import Creek.Tight.Bandwidth
import Creek.Tight.Pacer
import Creek.Proofs.Tight.Pacing
import Creek.Proofs.Tight.HandedDatagrams
import Creek.Library.RingWindows
import Creek.Proofs.Tight.BandwidthFilters
import Creek.Proofs.Tight.ParityReuse
import Creek.Framework.LinkedChannel
import Creek.Proofs.Framework.ChannelOrder
import Creek.Library.SecureHash
import Creek.Proofs.Tight.HashCompression
import Creek.Proofs.Tight.HashStream
import Creek.Proofs.Tight.AnnouncedKeys
import Creek.Proofs.Tight.KeyAgreement
import Creek.Tight.Repair
import Creek.Proofs.Tight.CursorGuard
import Creek.Proofs.Tight.SilentLoss
import Creek.Proofs.Tight.VouchedPackets
import Creek.Proofs.Tight.NonceReuse
import Creek.Proofs.Tight.SentMessages
import Creek.Proofs.Tight.MessageTransfer
import Creek.Proofs.Tight.BufferOwnership
import Creek.Proofs.Leaf.WorkerShutdown
import Creek.Proofs.Tight.CommandTransfer
import Creek.Tight.CallbackQueues
import Creek.Proofs.Tight.CallbackOrder
import Creek.Mesh.Discovery
import Creek.Proofs.Mesh.AddressTexts
import Creek.Proofs.Mesh.DiscoveryPasses
