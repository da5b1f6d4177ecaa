import Creek.Tight.Command
import Creek.Tight.Crypto.Sha256
import Creek.Tight.Crypto.X25519
import Creek.Tight.Fragmenter
import Creek.Tight.Report
import Creek.Tight.WirePacket

/-! One link of a transport: the handlers of received packets and the packets it sends.
A handler runs on the record of one peer. What it hands to the outbound queue and to the
callbacks is collected as effects.
-/

namespace Creek.Tight

/-- The configuration fields the link logic reads; intervals are in nanoseconds. -/
structure Config where
  id : Bytes := []
  role : LinkRole := .leaf
  token : Bytes := []
  encryptionEnabled : Bool := true
  retransmitEnabled : Bool := true
  mtu : Nat := 1350
  maxMessageBytes : Nat := 65536
  heartbeat : Int := 0
  reportInterval : Int := 0
  deadTimeout : Int := 0
  retransmitTimeout : Int := 0
  speedTestEnabled : Bool := false
  speedTestBytes : Nat := 0

/-- The identity a transport draws when it is constructed. -/
structure Identity where
  config : Config := {}
  clientId : UInt32 := 1
  sessionId : UInt64 := 0
  privateKey : Bytes := []
  publicKey : Bytes := []

/-- The limit of one message, clamped to 8 KB and 10 MB. -/
def Identity.maxMessageBytes (identity : Identity) : Nat :=
  max (8 * 1024) (min identity.config.maxMessageBytes (10 * 1024 * 1024))

/-- The two clocks at an instant. -/
structure Moment where
  now : TimePoint
  unixMs : Nat
  deriving DecidableEq, Repr

/-- The low half of the wall clock, as packets carry it. -/
def Moment.tick (moment : Moment) : UInt32 := UInt32.ofNat moment.unixMs

/-- What a step hands to the outside. `peer` is the record the effect belongs to, by its key
in the peer table. A sent datagram comes with the encryption call that made it, if any.
-/
inductive Effect where
  | send (peer : Bytes) (addr : AddrKey) (datagram : Bytes) (sealed : Option Seal)
  | message (peer id payload : Bytes)
  | command (peer id payload : Bytes)
  | peerEvent (peer : Bytes) (event : PeerEvent)
  deriving DecidableEq, Repr

/-- A peer record under a handler, with the shared RTT estimate and the effects so far. -/
structure Link where
  key : Bytes
  peer : Peer
  rttUs : Nat
  effects : List Effect := []

namespace Link

/-- The estimate of the source's `BandwidthEstimator::on_ack`: a smoothed RTT. -/
def onAck (link : Link) (rtt : Int) : Link :=
  if rtt ≤ 0 then link
  else { link with rttUs := if link.rttUs = 0 then rtt.toNat else (link.rttUs * 7 + rtt.toNat) / 8 }

def fire (link : Link) (effect : Effect) : Link :=
  { link with effects := link.effects ++ [effect] }

def firePeerEvent (link : Link) (state : LinkState) : Link :=
  link.fire (.peerEvent link.key
    {
      id := link.peer.id
      role := link.peer.role
      state := state
      clientId := link.peer.peerClientId
    })

def deliverMessage (link : Link) (payload : Bytes) : Link :=
  link.fire (.message link.key link.peer.id payload)

def fireCommand (link : Link) (payload : Bytes) : Link :=
  link.fire (.command link.key link.peer.id payload)

-- Sending

/-- Queues a datagram; a peer without an address gets none. -/
def sendRaw (link : Link) (datagram : Bytes) (sealed : Option Seal) : Link :=
  if link.peer.addrSet then link.fire (.send link.key link.peer.addr datagram sealed) else link

/-- A packet through `build_wire_packet`. -/
def sendWire (identity : Identity) (header : PacketHeader) (payload : Bytes) (link : Link)
    : Link :=
  let encryptionEnabled := identity.config.encryptionEnabled
  link.sendRaw (buildWirePacket encryptionEnabled link.peer header payload)
    (sealOf encryptionEnabled link.peer header payload)

/-- Keeps a sent packet until it is acknowledged. -/
def keepPending (header : PacketHeader) (payload : Bytes) (now : TimePoint) (bytes : Nat)
    (link : Link)
    : Link :=
  let seq := header.sequence.toNat
  let entry :=
    {
      header := header
      payload := payload
      lastSend := now
      bytes := bytes
      retries := (link.peer.pending.getD seq {}).retries
    }
  { link with peer := { link.peer with pending := link.peer.pending.insert seq entry } }

/-- The header fields every packet of this end carries. -/
def header (identity : Identity) (moment : Moment) (type : PacketType) : PacketHeader where
  magic := kMagic
  version := kVersion
  type := type.code
  clientId := identity.clientId
  sessionId := identity.sessionId
  tick := moment.tick

/-- A control packet, always in plaintext; an ackable one draws a sequence and is kept. -/
def sendControl (identity : Identity) (moment : Moment) (type : PacketType) (payload : Bytes)
    (ackable : Bool) (link : Link)
    : Link :=
  let header := { header identity moment type with payloadSize := UInt16.ofNat payload.length }
  if ackable then
    let header := { header with sequence := UInt32.ofNat link.peer.sequenceOut }
    let link :=
      { link with peer := { link.peer with sequenceOut := u32 (link.peer.sequenceOut + 1) } }
    let datagram := PacketCodec.encode header payload
    (link.sendRaw datagram none).keepPending header payload moment.now datagram.length
  else
    link.sendRaw (PacketCodec.encode header payload) none

def sendAckPacket (identity : Identity) (moment : Moment) (ack : UInt32) (link : Link) : Link :=
  let header := { header identity moment .ack with acknowledgment := ack }
  link.sendRaw (PacketCodec.encode header []) none

/-- The byte with the capability flags. -/
def capabilities (identity : Identity) : Bytes :=
  [if identity.config.retransmitEnabled then 0x01 else 0x00]

/-- The public key as it is appended to handshakes. -/
def announcedKey (identity : Identity) : Bytes :=
  if identity.config.encryptionEnabled then identity.publicKey else []

def handshakePayload (identity : Identity) : Bytes :=
  let idSize := min identity.config.id.length 65535
  [identity.config.role.code, UInt8.ofNat (idSize / 256), UInt8.ofNat idSize]
  ++ identity.config.id.take idSize
  ++ identity.config.token
  ++ announcedKey identity
  ++ capabilities identity

def sendHandshake (identity : Identity) (moment : Moment) (link : Link) : Link :=
  sendControl identity moment .handshake (handshakePayload identity) true
    { link with peer := { link.peer with lastHandshakeSent := moment.now } }

/-- The probe datagrams of a speed test that is to send `remaining` more bytes. -/
def probeDatagrams (identity : Identity) (moment : Moment) (fragment : Nat) (remaining : Nat)
    : Nat → List Bytes
  | 0 => []
  | fuel + 1 =>
      if remaining = 0 then []
      else
        let n := min fragment remaining
        let header := { header identity moment .probe with payloadSize := UInt16.ofNat n }
        PacketCodec.encode header (List.replicate n 0)
        :: probeDatagrams identity moment fragment (remaining - n) fuel

/-- A train of blank packets, sent past the outbound queue. -/
def sendSpeedTest (identity : Identity) (moment : Moment) (link : Link) : Link :=
  if identity.config.speedTestEnabled then
    let mtu := identity.config.mtu
    let fragment := if mtu > kHeaderSize then mtu - kHeaderSize else 1152
    let total := identity.config.speedTestBytes
    (probeDatagrams identity moment fragment total total).foldl
      (fun link datagram => link.sendRaw datagram none) link
  else
    link

/-- One call of the fragment callback: a Data or Parity packet. -/
def sendDataPacket (identity : Identity) (moment : Moment) (call : FragmentCall) (link : Link)
    : Link :=
  let payload := call.payload
  let header :=
    {
      call.header with
      clientId := identity.clientId
      sessionId := identity.sessionId
      tick := moment.tick
    }
  if header.type = PacketType.data.code then
    let header := { header with sequence := UInt32.ofNat link.peer.sequenceOut }
    let link :=
      { link with peer := { link.peer with sequenceOut := u32 (link.peer.sequenceOut + 1) } }
    let datagram := buildWirePacket identity.config.encryptionEnabled link.peer header payload
    if identity.config.retransmitEnabled && link.peer.peerRetransmit then
      (link.keepPending header payload moment.now datagram.length).sendWire identity header payload
    else
      link.sendWire identity header payload
  else
    link.sendWire identity header payload

-- Clock

/-- Records the offset of the peer's clock, or remembers the sample until the RTT is known. -/
def syncClock (tick : UInt32) (arrivalMs : Nat) (link : Link) : Link :=
  if tick = 0 then link
  else if link.rttUs = 0 then
    {
      link with
      peer := {
        link.peer with
        clock := { link.peer.clock with hsTick := tick, hsArrivalMs := arrivalMs, pending := true }
      }
    }
  else
    let clock := link.peer.clock
    let sampleUs := signedDifference tick (UInt32.ofNat arrivalMs) * 1000 - link.rttUs / 2
    let offsetUs := if clock.synced then (clock.offsetUs * 7 + sampleUs).tdiv 8 else sampleUs
    {
      link with
      peer := {
        link.peer with
        clock := { clock with offsetUs := offsetUs, synced := true, pending := false }
      }
    }

def trySyncClock (link : Link) : Link :=
  if link.peer.clock.pending then
    link.syncClock link.peer.clock.hsTick link.peer.clock.hsArrivalMs
  else
    link

/-- An RTT sample from the one-way transit of a packet. -/
def feedRttFromTick (tick : UInt32) (moment : Moment) (link : Link) : Link :=
  let transitUs := transitTimeUs link.peer.clock tick moment.unixMs
  if transitUs < 0 ∨ transitUs > 10000000 then link else link.onAck (transitUs * 2)

end Link

end Creek.Tight
