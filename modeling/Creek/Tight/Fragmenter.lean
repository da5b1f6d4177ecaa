import Creek.Tight.Fec
import Creek.Tight.PacketCodec
import Creek.Tight.Peer

/-! The outbound data path: splitting a message and adding parity fragments. -/

namespace Creek.Tight

/-- The arguments of one call of the fragment callback. -/
structure FragmentCall where
  msgId : UInt32
  idx : UInt16
  cnt : UInt16
  dataCnt : UInt16
  realSize : UInt16
  data : Bytes
  width : Nat
  deriving DecidableEq, Repr

/-- The payload a fragment travels with: its bytes, zero padded to the common width. -/
def FragmentCall.payload (call : FragmentCall) : Bytes :=
  call.data.take call.width ++ List.replicate (call.width - call.data.length) 0

/-- The header fields a fragment travels with. -/
def FragmentCall.header (call : FragmentCall) : PacketHeader where
  magic := kMagic
  version := kVersion
  type :=
    if call.idx.toNat + 1 = call.cnt.toNat then PacketType.parity.code else PacketType.data.code
  flags := call.dataCnt
  messageId := call.msgId
  fragmentIndex := call.idx
  fragmentCount := call.cnt
  reserved := call.realSize
  payloadSize := UInt16.ofNat call.payload.length

namespace Fragmenter

/-- The parity count, between one and three, for a late ratio in ten-thousandths. -/
def computeParityCountFor (numerics : Numerics) (lateRatio dataCount : Nat) : Nat :=
  if lateRatio ≤ 1 ∨ lateRatio ≥ 9999 then 1
  else min 3 (max 1 (numerics.redundancy lateRatio dataCount))

/-- The bytes of a message each fragment carries. -/
def fragPayload (mtu : Nat) : Nat :=
  let size := if mtu > kHeaderSize then mtu - kHeaderSize else 64
  if size ≤ 4 then 64 else size

/-- The next nonzero 31-bit message id and the counter after it; zero is drawn at most once. -/
def nextMsgId (msgIdOut : Nat) : Nat × Nat :=
  let msgId := msgIdOut % 2 ^ 31
  let msgIdOut := u32 (msgIdOut + 1)
  if msgId = 0 then (msgIdOut % 2 ^ 31, u32 (msgIdOut + 1)) else (msgId, msgIdOut)

/-- A message behind its total length. -/
def full (payload : Bytes) : Bytes := put32 (UInt32.ofNat payload.length) ++ payload

/-- How many data fragments a message needs. -/
def dataCount (payload : Bytes) (mtu : Nat) : Nat :=
  ((full payload).length + fragPayload mtu - 1) / fragPayload mtu

/-- Data fragment `i` as a slice of the whole buffer. -/
def span (payload : Bytes) (mtu i : Nat) : Bytes :=
  ((full payload).drop (i * fragPayload mtu)).take (fragPayload mtu)

/-- What `fragment_and_send` leaves behind: the message id counter, the reused parity buffers
and the calls of the fragment callback.
-/
structure Outcome where
  msgIdOut : Nat
  scratch : List Bytes
  calls : List FragmentCall

def fragmentAndSend (numerics : Numerics) (peer : Peer) (payload : Bytes) (mtu : Nat)
    (scratch : List Bytes)
    : Outcome :=
  let (msgId, msgIdOut) := nextMsgId peer.msgIdOut
  let width := fragPayload mtu
  let dataCount := dataCount payload mtu
  let parityCount := computeParityCountFor numerics peer.peerLateRatio dataCount
  let spans := (List.range dataCount).map (span payload mtu)
  let parities := ReedSolomon.encodeInto spans parityCount width scratch
  let cnt := UInt16.ofNat (dataCount + parityCount)
  let dataCalls := (List.range dataCount).map fun i => {
    msgId := UInt32.ofNat msgId
    idx := UInt16.ofNat i
    cnt := cnt
    dataCnt := UInt16.ofNat dataCount
    realSize := UInt16.ofNat (span payload mtu i).length
    data := span payload mtu i
    width := width
  }
  let parityCalls := (List.range parityCount).map fun p => {
    msgId := UInt32.ofNat msgId
    idx := UInt16.ofNat (dataCount + p)
    cnt := cnt
    dataCnt := UInt16.ofNat dataCount
    realSize := UInt16.ofNat width
    data := (parities.getD p []).take width
    width := width
  }
  { msgIdOut := msgIdOut, scratch := parities, calls := dataCalls ++ parityCalls }

end Fragmenter

end Creek.Tight
