import Creek.Library.CheckedAccess
import Creek.Tight.Fec
import Creek.Tight.PacketCodec
import Creek.Tight.Peer

/-! The inbound data path: gap tracking, late accounting, fragment collection, recovery.
Every access of the source to the fragments, their sizes, a fragment's bytes and the result
buffer is a checked access.
-/

namespace Creek.Tight.Reassembler

open Library

/-- What a call finds around it: the clocks, the RTT and the configured limits. -/
structure Context where
  now : TimePoint
  arrivalMs : Nat
  rttUs : Nat
  maxMessageBytes : Nat

-- Sequence tracking

/-- Moves the cursor over received sequences; every pass removes one. -/
def advanceLoop : Nat → SequenceTracker → SequenceTracker
  | 0, tracker => tracker
  | fuel + 1, tracker =>
      if tracker.recvSeqs.contains tracker.nextExpectedSeq then
        advanceLoop fuel
          {
            tracker with
            recvSeqs := tracker.recvSeqs.erase tracker.nextExpectedSeq
            nextExpectedSeq := u32 (tracker.nextExpectedSeq + 1)
          }
      else
        tracker

def advance (tracker : SequenceTracker) : SequenceTracker :=
  advanceLoop tracker.recvSeqs.size tracker

/-- Notes every sequence skipped between the cursor and an arrival as missing. -/
def noteMissing (tracker : SequenceTracker) (seq : Nat) (now : TimePoint)
    : Std.TreeMap Nat TimePoint :=
  (List.range' tracker.nextExpectedSeq (seq - tracker.nextExpectedSeq)).foldl
    (fun missing gap =>
      if tracker.recvSeqs.contains gap then missing else missing.insertIfNew gap now)
    tracker.missingSeqs

/-- Sequence tracking of one arrival. An unnumbered packet is not tracked. -/
def trackSequence (tracker : SequenceTracker) (seq : Nat) (now : TimePoint) : SequenceTracker :=
  if seq = 0 then tracker
  else if ¬tracker.seqInitialized then
    { tracker with nextExpectedSeq := u32 (seq + 1), seqInitialized := true }
  else if seq ≥ tracker.nextExpectedSeq then
    advance
      {
        tracker with
        missingSeqs := noteMissing tracker seq now
        recvSeqs := tracker.recvSeqs.insert seq
      }
  else
    advance { tracker with missingSeqs := tracker.missingSeqs.erase seq }

/-- Late-packet accounting; an unsynchronized clock gives no sample. -/
def accountTransit (late : LateSamples) (transitUs : Int) (thresholdUs : Nat) : LateSamples :=
  if transitUs ≥ 0 then
    {
      transitSamples := late.transitSamples + 1
      lateSamples := if transitUs.toNat > thresholdUs then late.lateSamples + 1
        else late.lateSamples
    }
  else
    late

-- Assembly

/-- A fragment and the number of its bytes that count. -/
def extent (message : IncomingMessage) (i : Nat) : Except Fault (Bytes × Nat) := do
  let size ← fetch message.sizes i
  let fragment ← deref (← fetch message.fragments i)
  return (fragment, min size fragment.length)

/-- The total length of the stream. -/
def streamLength (message : IncomingMessage) (dataCount : Nat) : Except Fault Nat :=
  (List.range dataCount).foldlM
    (fun length i => do return length + (← extent message i).2) 0

/-- The first four stream bytes, which may straddle fragments, with how many are needed. -/
def readPrefix (message : IncomingMessage) (dataCount : Nat) : Except Fault (Bytes × Nat) :=
  (List.range dataCount).foldlM
    (fun (state : Bytes × Nat) i => do
      let (lengthPrefix, need) := state
      if need = 0 then return state
      let (fragment, n) ← extent message i
      let take := min n need
      let lengthPrefix ← writeSlice lengthPrefix (4 - need) (← readSlice fragment 0 take)
      return (lengthPrefix, need - take))
    (List.replicate 4 0, 4)

/-- The state of the copy loop. -/
structure CopyState where
  result : Bytes
  skip : Nat
  outOff : Nat
  deriving DecidableEq, Repr

/-- One fragment of the copy loop. -/
def copyFragment (message : IncomingMessage) (total : Nat) (state : CopyState) (i : Nat)
    : Except Fault CopyState := do
  if ¬state.outOff < total then return state
  let (fragment, n) ← extent message i
  if state.skip ≥ n then return { state with skip := state.skip - n }
  let n := n - state.skip
  let n := if state.outOff + n > total then total - state.outOff else n
  let result ← writeSlice state.result state.outOff (← readSlice fragment state.skip n)
  return { result := result, skip := 0, outOff := state.outOff + n }

/-- The message behind the length prefix; empty when the stream is too short or announces
more than the limit.
-/
def buildMsg (message : IncomingMessage) (dataCount maxMessageBytes : Nat)
    : Except Fault Bytes := do
  let length ← streamLength message dataCount
  if length < 4 then return []
  let (lengthPrefix, _) ← readPrefix message dataCount
  let total := (get32 lengthPrefix 0).toNat
  if total > maxMessageBytes then return []
  let total := if total > length - 4 then length - 4 else total
  let state ← (List.range dataCount).foldlM (copyFragment message total)
    { result := List.replicate total 0, skip := 4, outOff := 0 }
  return state.result

/-- How many of the first `dataCount` fragments are present. -/
def countPresent (message : IncomingMessage) (dataCount : Nat) : Except Fault Nat :=
  (List.range dataCount).foldlM
    (fun present i => do
      return if (← fetch message.fragments i).isSome then present + 1 else present)
    0

/-- The widest fragment that has arrived. -/
def maxWidth (message : IncomingMessage) : Nat :=
  message.fragments.foldl
    (fun width fragment =>
      match fragment with
      | some bytes => max width bytes.length
      | none => width)
    0

/-- The parity fragments that have arrived, with their parity indices. -/
def arrivedParities (message : IncomingMessage) (dataCount parityCount : Nat)
    : List (Nat × Bytes) :=
  (List.range parityCount).filterMap fun p =>
    match message.fragments[dataCount + p]? with
    | some (some fragment) => some (p, fragment)
    | _ => none

/-- Fills the gaps with recovered fragments, each of full width. -/
def fillRecovered (message : IncomingMessage) (dataCount width : Nat)
    (recovered : List (Option Bytes))
    : Except Fault IncomingMessage :=
  (List.range dataCount).foldlM
    (fun (message : IncomingMessage) i => do
      let present ← fetch message.fragments i
      if present.isSome then return message
      match ← fetch recovered i with
      | none => return message
      | some fragment =>
          return {
            message with
            fragments := ← store message.fragments i (some fragment)
            sizes := ← store message.sizes i (u16 width)
          })
    message

/-- The data count assembly works with; a group that announces none has one parity. -/
def effectiveDataCount (message : IncomingMessage) : Nat :=
  if message.dataCount > 0 then message.dataCount else message.totalCount - 1

/-- Recovers `gaps` missing data fragments from the parities that have arrived. -/
def recover (message : IncomingMessage) (dataCount parityCount gaps maxMessageBytes : Nat)
    : Except Fault (Option Bytes) := do
  if gaps > parityCount then return none
  let width := maxWidth message
  if width = 0 then return none
  let fragments ← (List.range dataCount).mapM (fetch message.fragments)
  let parities := arrivedParities message dataCount parityCount
  if gaps > parities.length then return none
  match ReedSolomon.decode fragments parities width with
  | none => return none
  | some recovered =>
      let message ← fillRecovered message dataCount width recovered
      return some (← buildMsg message dataCount maxMessageBytes)

/-- The payload to deliver, or `none` where the source returns `false`. The unsigned
difference of the counts is checked like an access: where it wraps, the loop after it reads
past the fragments.
-/
def tryAssemble (message : IncomingMessage) (maxMessageBytes : Nat)
    : Except Fault (Option Bytes) := do
  if message.totalCount < 2 then return none
  let dataCount := effectiveDataCount message
  let parityCount ← difference message.totalCount dataCount
  let present ← countPresent message dataCount
  if present = dataCount then
    return some (← buildMsg message dataCount maxMessageBytes)
  recover message dataCount parityCount (dataCount - present) maxMessageBytes

-- Collection

/-- The most fragments a message within the limit can have. -/
def maxFragments (maxMessageBytes : Nat) : Nat := maxMessageBytes / 64 + 8

/-- The checks a packet passes before its group is looked up. -/
def admits (collection : Collection) (header : PacketHeader) (maxMessageBytes : Nat) : Bool :=
  header.fragmentCount.toNat ≠ 0
  && !collection.completed.contains header.messageId.toNat
  && header.fragmentIndex.toNat < header.fragmentCount.toNat
  && header.fragmentCount.toNat ≤ maxFragments maxMessageBytes

/-- The group of a packet, opened by it when the entry is new. -/
def openGroup (collection : Collection) (header : PacketHeader) (now : TimePoint)
    : IncomingMessage :=
  let message := collection.incoming.getD header.messageId.toNat {}
  if message.messageId = 0 then
    {
      messageId := header.messageId.toNat
      totalCount := header.fragmentCount.toNat
      dataCount := header.flags.toNat
      fragments := List.replicate header.fragmentCount.toNat none
      sizes := List.replicate header.fragmentCount.toNat 0
      firstSeen := now
    }
  else
    message

/-- Stores a fragment unless its place is taken. -/
def storeFragment (message : IncomingMessage) (header : PacketHeader) (payload : Bytes)
    : IncomingMessage :=
  let i := header.fragmentIndex.toNat
  if (message.fragments.getD i none).isSome then message
  else
    {
      message with
      fragments := message.fragments.set i (some payload)
      sizes := message.sizes.set i header.reserved.toNat
    }

/-- Collects the fragment of an admitted packet and assembles its message when possible. -/
def collect (collection : Collection) (header : PacketHeader) (payload : Bytes)
    (context : Context)
    : Except Fault (Collection × Option Bytes) := do
  let messageId := header.messageId.toNat
  let message := openGroup collection header context.now
  let opened := { collection with incoming := collection.incoming.insert messageId message }
  if message.totalCount ≠ header.fragmentCount.toNat then return (opened, none)
  if header.fragmentIndex.toNat ≥ message.fragments.length then return (opened, none)
  let message := storeFragment message header payload
  match ← tryAssemble message context.maxMessageBytes with
  | none =>
      return ({ collection with incoming := collection.incoming.insert messageId message }, none)
  | some delivered =>
      return (
        {
          incoming := collection.incoming.erase messageId
          completed := collection.completed.insert messageId context.now
        },
        some delivered)

/-- A Data or Parity packet, and the message it completes, if any. -/
def handleData (numerics : Numerics) (peer : Peer) (header : PacketHeader) (payload : Bytes)
    (context : Context)
    : Except Fault (Peer × Option Bytes) := do
  let seq := header.sequence.toNat
  let transitUs := transitTimeUs peer.clock header.tick context.arrivalMs
  let rttUs := if context.rttUs > 0 then context.rttUs else 10000
  let peer :=
    {
      peer with
      late := accountTransit peer.late transitUs (numerics.lateThreshold rttUs)
      tracker := trackSequence peer.tracker seq context.now
    }
  if ¬admits peer.collection header context.maxMessageBytes then return (peer, none)
  let (collection, delivered) ← collect peer.collection header payload context
  return ({ peer with collection := collection }, delivered)

end Creek.Tight.Reassembler
