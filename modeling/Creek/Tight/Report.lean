import Creek.Tight.PacketCodec
import Creek.Tight.Reassembler

/-! Receiver reports: the ack cursor, the late ratio and the lost sequences, and what the
sender does with them.
-/

namespace Creek.Tight.Report

def kMaxRetries : Nat := 10

/-- The most entries of the missing table a report leaves behind. -/
def kMaxMissing : Nat := 4096

/-- The most lost sequences one report lists. -/
def kMaxLost : Nat := 256

/-- The age in microseconds beyond which a gap is reported. -/
def lossThreshold (senderRttUs : Nat) : Nat :=
  let rttThreshold := if senderRttUs > 0 then senderRttUs else 10000
  if rttThreshold < 10000 then 100000 else u32 (rttThreshold * 7) / 2

/-- The age in microseconds beyond which a gap is no longer reported. -/
def giveUpUs (reportInterval : Int) : Int := microseconds (reportInterval * (kMaxRetries + 2))

/-- Moves the cursor over a gap and the received sequences behind it. -/
def skipGap (tracker : SequenceTracker) (gap : Nat) : SequenceTracker :=
  if tracker.seqInitialized ∧ gap = tracker.nextExpectedSeq then
    Reassembler.advance { tracker with nextExpectedSeq := u32 (tracker.nextExpectedSeq + 1) }
  else
    tracker

/-- One entry of the missing table: forgotten, left for later, or listed as lost. -/
def scanGap (negotiated : Bool) (giveUp threshold : Int) (now : TimePoint)
    (state : SequenceTracker × List Nat) (entry : Nat × TimePoint)
    : SequenceTracker × List Nat :=
  let (tracker, lost) := state
  let forget (tracker : SequenceTracker) : SequenceTracker :=
    { tracker with missingSeqs := tracker.missingSeqs.erase entry.1 }
  let elapsedUs := microseconds (now - entry.2)
  if ¬negotiated then (forget (skipGap tracker entry.1), lost)
  else if elapsedUs > giveUp then (forget tracker, lost)
  else if elapsedUs > threshold then (skipGap tracker entry.1, lost ++ [entry.1])
  else (tracker, lost)

/-- Drops the least entries until the missing table fits. -/
def capMissing : Nat → Std.TreeMap Nat TimePoint → Std.TreeMap Nat TimePoint
  | 0, missing => missing
  | fuel + 1, missing =>
      if missing.size > kMaxMissing then capMissing fuel (missing.erase (missing.minKeyD 0))
      else missing

/-- The scan of the whole missing table, in sequence order, and the lost sequences. -/
def scan (peer : Peer) (reportInterval : Int) (now : TimePoint) : SequenceTracker × List Nat :=
  let (tracker, lost) := peer.tracker.missingSeqs.toList.foldl
    (scanGap (peer.retransmit && peer.peerRetransmit) (giveUpUs reportInterval)
      (lossThreshold peer.senderRttUs) now)
    (peer.tracker, [])
  ({ tracker with missingSeqs := capMissing tracker.missingSeqs.size tracker.missingSeqs }, lost)

/-- The last sequence before the cursor. -/
def ackSeq (tracker : SequenceTracker) : Nat :=
  if tracker.seqInitialized then tracker.nextExpectedSeq - 1 else 0

/-- How many lost sequences a report lists; the count is cut to 16 bits first. -/
def lostCount (lost : List Nat) : Nat := min (u16 lost.length) kMaxLost

/-- The bytes of a report. -/
def encode (ack : Nat) (ratio : Nat) (lost : List Nat) (probeBw : Nat) : Bytes :=
  put32 (UInt32.ofNat ack)
  ++ put16 (UInt16.ofNat ratio)
  ++ put16 (UInt16.ofNat (lostCount lost))
  ++ put32 0
  ++ (lost.take (lostCount lost)).flatMap (fun seq => put32 (UInt32.ofNat seq))
  ++ put32 (UInt32.ofNat probeBw)

/-- Builds a report and resets the counters of the interval. -/
def buildPayload (numerics : Numerics) (peer : Peer) (reportInterval : Int) (now : TimePoint)
    : Peer × Bytes :=
  let (tracker, lost) := scan peer reportInterval now
  let ratio :=
    if peer.late.transitSamples > 0 then
      numerics.lateRatio peer.late.lateSamples peer.late.transitSamples
    else 0
  let probe := finalizeProbeTrain numerics peer.probe now
  (
    {
      peer with
      tracker := tracker
      late := {}
      probe := { probe with bwBps := 0 }
    },
    encode (ackSeq tracker) ratio lost probe.bwBps
  )

/-- The fields of a received report. -/
structure Contents where
  ackSeq : Nat
  lateRatio : Nat
  lost : List Nat
  probeBw : Nat
  deriving DecidableEq, Repr

/-- Reads a report; `none` where the source returns early. -/
def parse (payload : Bytes) : Option Contents :=
  if payload.length < 12 then none
  else
    let lostCount := (get16 payload 6).toNat
    let expected := 12 + lostCount * 4
    if payload.length < expected then none
    else
      some {
        ackSeq := (get32 payload 0).toNat
        lateRatio := min 10000 (get16 payload 4).toNat
        lost := (List.range lostCount).map fun i => (get32 payload (12 + i * 4)).toNat
        probeBw := if payload.length ≥ expected + 4 then (get32 payload expected).toNat else 0
      }

/-- The pending packets a report has resent. -/
def resent (pending : Std.TreeMap Nat PendingSend) (report : Contents)
    : List (Nat × PendingSend) :=
  pending.toList.filter fun entry =>
    report.lost.contains entry.1 && entry.2.retries < kMaxRetries

/-- A pending packet is pruned when it is acknowledged or out of retries. -/
def pruned (report : Contents) (seq : Nat) (entry : PendingSend) : Bool :=
  (seq ≤ report.ackSeq && !report.lost.contains seq) || kMaxRetries ≤ entry.retries

/-- Counts a resend of a packet that is still pending. -/
def countResend (now : TimePoint) (pending : Std.TreeMap Nat PendingSend) (seq : Nat)
    : Std.TreeMap Nat PendingSend :=
  match pending[seq]? with
  | some entry =>
      if entry.retries < kMaxRetries then
        pending.insert seq { entry with lastSend := now, retries := entry.retries + 1 }
      else pending
  | none => pending

/-- Handles a received report: the pruned peer and the packets to resend, in order. -/
def handle (peer : Peer) (payload : Bytes) (now : TimePoint) : Peer × List PendingSend :=
  match parse payload with
  | none => (peer, [])
  | some report =>
      let resends := resent peer.pending report
      let kept := peer.pending.filter fun seq entry => !pruned report seq entry
      (
        {
          peer with
          peerLateRatio := report.lateRatio
          pending := resends.foldl (fun pending entry => countResend now pending entry.1) kept
        },
        resends.map Prod.snd
      )

end Creek.Tight.Report
