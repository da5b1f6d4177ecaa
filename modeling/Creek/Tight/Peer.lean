import Creek.Tight.Types
import Std.Data.TreeMap
import Std.Data.TreeSet

/-! The per-peer record shared by the transport units.
The source keeps one flat `Peer`; here its fields are grouped by the unit that owns them, so
that a unit is a function of its own group. The mutex and the two fields that only rate-limit
and enable log lines are left out.
-/

namespace Creek.Tight

/-- A sent packet kept until it is acknowledged. -/
structure PendingSend where
  header : PacketHeader := {}
  payload : Bytes := []
  lastSend : TimePoint := 0
  bytes : Nat := 0
  retries : Nat := 0
  deriving DecidableEq, Repr

/-- A message under reassembly. -/
structure IncomingMessage where
  messageId : Nat := 0
  totalCount : Nat := 0
  dataCount : Nat := 0
  fragments : List (Option Bytes) := []
  sizes : List Nat := []
  firstSeen : TimePoint := 0
  deriving DecidableEq, Repr

/-- Receive-sequence gap tracking (`m_missing_seqs`, `m_recv_seqs`,
`m_next_expected_seq`, `m_seq_initialized`).
-/
structure SequenceTracker where
  missingSeqs : Std.TreeMap Nat TimePoint := ∅
  recvSeqs : Std.TreeSet Nat := ∅
  nextExpectedSeq : Nat := 0
  seqInitialized : Bool := false

/-- Late-packet accounting of one report interval. -/
structure LateSamples where
  transitSamples : Nat := 0
  lateSamples : Nat := 0
  deriving DecidableEq, Repr

/-- Fragment collection (`m_incoming`, `m_completed`). -/
structure Collection where
  incoming : Std.TreeMap Nat IncomingMessage := ∅
  completed : Std.TreeMap Nat TimePoint := ∅

/-- The command channel fields `m_cmd_*`. -/
structure CommandState where
  seqOut : Nat := 1
  nextExpected : Nat := 0
  initialized : Bool := false
  held : Std.TreeMap Nat Bytes := ∅
  gapSince : TimePoint := 0

/-- Clock synchronization with the peer, in microseconds. -/
structure ClockSync where
  offsetUs : Int := 0
  synced : Bool := false
  pending : Bool := false
  hsTick : UInt32 := 0
  hsArrivalMs : Nat := 0
  deriving DecidableEq, Repr

/-- The inbound speed-test train. -/
structure ProbeTrain where
  first : TimePoint := 0
  last : TimePoint := 0
  bytes : Nat := 0
  count : Nat := 0
  bwBps : Nat := 0
  deriving DecidableEq, Repr

/-- One remote end. `peerLateRatio` is the late ratio in ten-thousandths. -/
structure Peer where
  id : Bytes := []
  addr : AddrKey := { addr := 0, port := 0 }
  addrSet : Bool := false
  role : LinkRole := .leaf
  state : LinkState := .closed
  peerClientId : UInt32 := 0
  peerSessionId : UInt64 := 0
  lastRecv : TimePoint := 0
  lastHeartbeatSent : TimePoint := 0
  lastHandshakeSent : TimePoint := 0
  handshakeBackoff : Int := 500000000
  lastReportSent : TimePoint := 0
  sequenceOut : Nat := 1
  msgIdOut : Nat := 1
  pending : Std.TreeMap Nat PendingSend := ∅
  collection : Collection := {}
  tracker : SequenceTracker := {}
  senderRttUs : Nat := 0
  reconnect : Bool := false
  clock : ClockSync := {}
  late : LateSamples := {}
  peerLateRatio : Nat := 0
  probe : ProbeTrain := {}
  command : CommandState := {}
  cryptoReady : Bool := false
  cryptoKey : Bytes := List.replicate 32 0
  retransmit : Bool := true
  peerRetransmit : Bool := true

/-- The values the source computes in floating point: the late threshold for an RTT, the
ratio of two counters in ten-thousandths, the bandwidth of a probe train from its bytes and
span, and the parity count before clamping from a late ratio and a fragment count.
-/
structure Numerics where
  lateThreshold : Nat → Nat
  lateRatio : Nat → Nat → Nat
  probeRate : Nat → Nat → Nat
  redundancy : Nat → Nat → Nat

/-- Integer arithmetic in place of the floating-point computations. -/
instance : Inhabited Numerics :=
  ⟨{
    lateThreshold := fun rttUs => 4 * rttUs
    lateRatio := fun late total => late * 10000 / total
    probeRate := fun bytes spanUs => bytes * 1000000 / spanUs
    redundancy := fun ratio count => ratio * count / 10000
  }⟩

/-- A quotient of nanoseconds truncated toward zero, as `duration_cast` does. -/
def microseconds (duration : Int) : Int := duration.tdiv 1000

def kProbeTrainGap : Int := 20000000

/-- Closes the probe train once the gap after its last packet has elapsed. -/
def finalizeProbeTrain (numerics : Numerics) (probe : ProbeTrain) (now : TimePoint)
    : ProbeTrain :=
  if probe.count = 0 then probe
  else if now - probe.last ≤ kProbeTrainGap then probe
  else
    let spanUs := microseconds (probe.last - probe.first)
    {
      probe with
      bwBps :=
        if probe.count ≥ 2 ∧ spanUs > 0 then numerics.probeRate probe.bytes spanUs.toNat
        else probe.bwBps
      count := 0
      bytes := 0
    }

/-- The signed difference of two 32-bit millisecond clocks. -/
def signedDifference (left right : UInt32) : Int := (left - right).toBitVec.toInt

/-- One-way transit time of a packet in the local clock, or -1 when it is unknown. -/
def transitTimeUs (clock : ClockSync) (tick : UInt32) (arrivalMs : Nat) : Int :=
  if ¬clock.synced ∨ tick = 0 then -1
  else
    let t := signedDifference (UInt32.ofNat arrivalMs) tick * 1000 + clock.offsetUs
    if t ≥ 0 then t else 0

end Creek.Tight
