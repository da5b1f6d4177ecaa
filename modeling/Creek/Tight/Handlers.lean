import Creek.Tight.Link

/-! The handlers of received packets, from the opened payload to the acknowledgement. -/

namespace Creek.Tight.Link

open Crypto

/-- The label of the key derivation, `tight-data-key-v1`. -/
def kKeyInfo : Bytes :=
  [0x74, 0x69, 0x67, 0x68, 0x74, 0x2D, 0x64, 0x61, 0x74, 0x61, 0x2D, 0x6B, 0x65, 0x79, 0x2D,
    0x76, 0x31]

/-- The derivation salt: the two client ids in ascending order, low byte first. -/
def keySalt (left right : UInt32) : Bytes := store32 (min left right) ++ store32 (max left right)

/-- The session key of a shared secret. -/
def sessionKey (identity : Identity) (shared : Bytes) (peerClientId : UInt32) : Bytes :=
  hkdfSha256 shared (keySalt identity.clientId peerClientId) kKeyInfo

/-- The session key two ends derive from a public key, unless it is a low-order point. -/
def derivedKey (identity : Identity) (peerPub : Bytes) (peerClientId : UInt32) : Option Bytes :=
  (x25519 identity.privateKey peerPub).map fun shared => sessionKey identity shared peerClientId

/-- Installs a session key. -/
def installKey (key : Option Bytes) (link : Link) : Link :=
  match key with
  | none => link
  | some key => { link with peer := { link.peer with cryptoKey := key, cryptoReady := true } }

/-- Derives the session key; a low-order point leaves the link as it is. -/
def deriveSessionKey (identity : Identity) (peerPub : Bytes) (peerClientId : UInt32)
    (link : Link)
    : Link :=
  link.installKey (derivedKey identity peerPub peerClientId)

def resetCommands (link : Link) : Link :=
  { link with peer := { link.peer with command := CommandChannel.reset link.peer.command } }

def setState (state : LinkState) (link : Link) : Link :=
  { link with peer := { link.peer with state := state } }

/-- The parts of a handshake payload: role, id, token, public key and capability flag. -/
structure HandshakeContents where
  role : UInt8
  id : Bytes
  token : Bytes
  peerPub : Option Bytes
  peerRetransmit : Option Bool
  deriving DecidableEq, Repr

/-- Reads a handshake payload; `none` where the source returns early. -/
def parseHandshake (encryptionEnabled : Bool) (payload : Bytes) : Option HandshakeContents :=
  if payload.length < 3 then none
  else
    let idSize := (payload.getD 1 0).toNat * 256 + (payload.getD 2 0).toNat
    if payload.length < 3 + idSize then none
    else
      let flagged := payload.length > 3 + idSize
      let tokenEnd := if flagged then payload.length - 1 else payload.length
      let havePub := encryptionEnabled && decide (tokenEnd ≥ 3 + idSize + 32)
      let end_ := if havePub then tokenEnd - 32 else tokenEnd
      some {
        role := payload.getD 0 0
        id := (payload.drop 3).take idSize
        token := (payload.take end_).drop (3 + idSize)
        peerPub := if havePub then some ((payload.drop end_).take 32) else none
        peerRetransmit :=
          if flagged then some ((payload.getD (payload.length - 1) 0) &&& 0x01 ≠ 0) else none
      }

/-- Adopts the announced capability. -/
def adoptRetransmit (announced : Option Bool) (link : Link) : Link :=
  match announced with
  | some flag => { link with peer := { link.peer with peerRetransmit := flag } }
  | none => link

/-- Adopts the announced id and role; an empty id keeps the anonymous one. -/
def adoptIdentity (contents : HandshakeContents) (link : Link) : Link :=
  {
    link with
    peer := {
      link.peer with
      id := if contents.id.isEmpty then link.peer.id else contents.id
      role := if contents.role = LinkRole.node.code then .node else .leaf
    }
  }

/-- Derives the session key from an announced public key, if any. -/
def adoptKey (identity : Identity) (peerPub : Option Bytes) (peerClientId : UInt32)
    (link : Link)
    : Link :=
  match peerPub with
  | some pub => link.deriveSessionKey identity pub peerClientId
  | none => link

/-- An accepted handshake raises the link to Established, with an event. -/
def establish (link : Link) : Link :=
  if link.peer.state ≠ .established ∧ link.peer.state ≠ .online then
    (link.setState .established).firePeerEvent .established
  else
    link

/-- What follows once the token of a handshake matches. -/
def acceptHandshake (identity : Identity) (moment : Moment) (header : PacketHeader)
    (contents : HandshakeContents) (link : Link)
    : Link :=
  let link := (link.syncClock header.tick moment.unixMs).resetCommands
  let link := (link.adoptIdentity contents).adoptKey identity contents.peerPub header.clientId
  let link :=
    if ¬link.peer.reconnect ∧ link.peer.addrSet then link.sendHandshake identity moment else link
  link.establish.sendControl identity moment .handshakeAck
    (announcedKey identity ++ capabilities identity) true

/-- The only handler that checks the token. The capability flag is adopted before the check. -/
def handleHandshake (identity : Identity) (moment : Moment) (header : PacketHeader)
    (payload : Bytes) (link : Link)
    : Link :=
  match parseHandshake identity.config.encryptionEnabled payload with
  | none => link
  | some contents =>
      let link := link.adoptRetransmit contents.peerRetransmit
      if contents.token = identity.config.token then
        link.acceptHandshake identity moment header contents
      else
        link

/-- The public key at the tail of a handshake acknowledgement. -/
def acknowledgedKey (encryptionEnabled : Bool) (payload : Bytes) : Option Bytes :=
  if encryptionEnabled ∧ 33 ≤ payload.length then
    some ((payload.drop (payload.length - 33)).take 32)
  else
    none

/-- Announces the link online and tests its speed. -/
def goOnline (identity : Identity) (moment : Moment) (link : Link) : Link :=
  ((link.setState .online).firePeerEvent .online).sendSpeedTest identity moment

def handleHandshakeAck (identity : Identity) (moment : Moment) (header : PacketHeader)
    (payload : Bytes) (link : Link)
    : Link :=
  let link := (link.syncClock header.tick moment.unixMs).resetCommands
  let link :=
    match payload.getLast? with
    | none => link
    | some flags =>
        (link.adoptRetransmit (some (flags &&& 0x01 ≠ 0))).adoptKey identity
          (acknowledgedKey identity.config.encryptionEnabled payload) header.clientId
  if link.peer.state = .handshake ∨ link.peer.state = .established then
    let link := link.sendControl identity moment .online [] true
    let link := { link with peer := { link.peer with handshakeBackoff := 500000000 } }
    link.goOnline identity moment
  else
    link

def handleOnline (identity : Identity) (moment : Moment) (link : Link) : Link :=
  if link.peer.state ≠ .online then link.goOnline identity moment else link

def handleHeartbeat (moment : Moment) (header : PacketHeader) (payload : Bytes) (link : Link)
    : Link :=
  let link :=
    if payload.length ≥ 4 then
      { link with peer := { link.peer with senderRttUs := (get32 payload 0).toNat } }
    else
      link
  (link.syncClock header.tick moment.unixMs).feedRttFromTick header.tick moment

/-- A packet of a speed test. -/
def handleProbe (numerics : Numerics) (moment : Moment) (header : PacketHeader) (link : Link)
    : Link :=
  let probe := finalizeProbeTrain numerics link.peer.probe moment.now
  let probe :=
    {
      probe with
      first := if probe.count = 0 then moment.now else probe.first
      last := moment.now
      count := probe.count + 1
      bytes := probe.bytes + kHeaderSize + header.payloadSize.toNat
    }
  { link with peer := { link.peer with probe := probe } }

def handleBye (link : Link) : Link :=
  if link.peer.state ≠ .closed then (link.setState .closed).firePeerEvent .closed else link

def handleData (numerics : Numerics) (identity : Identity) (moment : Moment)
    (header : PacketHeader) (payload : Bytes) (link : Link)
    : Except Library.Fault Link := do
  let (peer, delivered) ← Reassembler.handleData numerics link.peer header payload
    {
      now := moment.now
      arrivalMs := moment.unixMs
      rttUs := u32 link.rttUs
      maxMessageBytes := identity.maxMessageBytes
    }
  let link := { link with peer := peer }
  match delivered with
  | some message => return link.deliverMessage message
  | none => return link

def handleCommand (moment : Moment) (header : PacketHeader) (payload : Bytes) (link : Link)
    : Link :=
  let (command, ready) :=
    CommandChannel.handle link.peer.command header payload (u32 link.rttUs) moment.now
  ready.foldl fireCommand { link with peer := { link.peer with command := command } }

/-- An acknowledgement frees its packet and samples the RTT. -/
def handleAck (moment : Moment) (header : PacketHeader) (link : Link) : Link :=
  let ack := header.acknowledgment.toNat
  if ack = 0 then link
  else
    match link.peer.pending[ack]? with
    | none => link
    | some entry =>
        let link := { link with peer := { link.peer with pending := link.peer.pending.erase ack } }
        (link.onAck (max 0 (microseconds (moment.now - entry.lastSend)))).trySyncClock

def handleReport (identity : Identity) (moment : Moment) (header : PacketHeader)
    (payload : Bytes) (link : Link)
    : Link :=
  let link := link.feedRttFromTick header.tick moment
  let (peer, resends) := Report.handle link.peer payload moment.now
  resends.foldl (fun link entry => link.sendWire identity entry.header entry.payload)
    { link with peer := peer }

/-- What every packet leaves in the record before it is opened. -/
def touch (moment : Moment) (header : PacketHeader) (link : Link) : Link :=
  let peer := link.peer
  {
    link with
    peer := {
      peer with
      lastRecv := moment.now
      peerClientId := if peer.peerClientId = 0 then header.clientId else peer.peerClientId
      peerSessionId := if peer.peerSessionId = 0 then header.sessionId else peer.peerSessionId
    }
  }

/-- The dispatch on the packet type; an unknown type is ignored. -/
def dispatch (numerics : Numerics) (identity : Identity) (moment : Moment)
    (header : PacketHeader) (payload : Bytes) (link : Link)
    : Except Library.Fault Link :=
  match PacketType.ofCode? header.type with
  | some .handshake =>
      .ok ((link.handleHandshake identity moment header payload).sendAckPacket identity moment
        header.sequence)
  | some .handshakeAck =>
      .ok ((link.handleHandshakeAck identity moment header payload).sendAckPacket identity moment
        header.sequence)
  | some .online =>
      .ok ((link.handleOnline identity moment).sendAckPacket identity moment header.sequence)
  | some .heartbeat => .ok (link.handleHeartbeat moment header payload)
  | some .bye => .ok link.handleBye
  | some .data => link.handleData numerics identity moment header payload
  | some .parity => link.handleData numerics identity moment header payload
  | some .ack => .ok (link.handleAck moment header)
  | some .report => .ok (link.handleReport identity moment header payload)
  | some .probe => .ok (link.handleProbe numerics moment header)
  | some .command => .ok (link.handleCommand moment header payload)
  | none => .ok link

/-- A received packet: a marked payload that does not open is dropped. -/
def handlePacket (numerics : Numerics) (identity : Identity) (moment : Moment)
    (header : PacketHeader) (payload : Bytes) (link : Link)
    : Except Library.Fault Link :=
  let link := link.touch moment header
  match openPayload link.peer header payload with
  | none => .ok link
  | some (header, payload) => link.dispatch numerics identity moment header payload

end Creek.Tight.Link
