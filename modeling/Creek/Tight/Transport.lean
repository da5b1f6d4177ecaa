import Creek.Library.Runs
import Creek.Tight.Handlers

/-! The transport: the peer table, the queues between its threads and one step for each thing
that can happen to it.
A thread takes one step at a time, in any interleaving with the others; a pass of the reactor
over the table is one step for each record. Queue limits and the token bucket only drop or
delay packets and are left out.
-/

namespace Creek.Tight

/-- The state of a transport. `tasks` is the encode queue; `encoding` holds the fragments the
encode thread still has to send; a record is named by its key in the table.
-/
structure Transport where
  identity : Identity
  peers : Std.TreeMap Bytes Peer := ∅
  peerByAddr : AddrKey → Option Bytes := fun _ => none
  rttUs : Nat := 0
  tasks : List (Bytes × Bytes) := []
  encoding : List (Bytes × FragmentCall) := []
  scratch : List Bytes := []

/-- What can happen to a transport. `draw` is the random number of an anonymous id. -/
inductive Event where
  | connect (remoteId : Bytes) (addr : AddrKey)
  | datagram (source : AddrKey) (bytes : Bytes) (draw : Nat)
  | sendCommand (peerId payload : Bytes)
  | processSend (peerId payload : Bytes)
  | encode
  | fragment
  | sendHandshakes (key : Bytes)
  | sendHeartbeats (key : Bytes)
  | sendReports (key : Bytes)
  | checkOffline (key : Bytes)
  | flushCommands (key : Bytes)
  deriving DecidableEq, Repr

/-- An event and its instant. -/
structure Occurrence where
  moment : Moment
  event : Event
  deriving DecidableEq, Repr

-- What the reactor and the callers do with one record

namespace Link

/-- `send_command` on the record it found. -/
def sendCommand (identity : Identity) (moment : Moment) (payload : Bytes) (link : Link) : Link :=
  if link.peer.state ≠ .online then link
  else
    let seq := link.peer.command.seqOut
    let header :=
      {
        header identity moment .command with
        sequence := UInt32.ofNat seq
        payloadSize := UInt16.ofNat payload.length
      }
    let command := { link.peer.command with seqOut := u32 (seq + 1) }
    { link with peer := { link.peer with command := command } }.sendWire identity header payload

/-- Repeats an unanswered handshake, at growing intervals. The stale handshakes among the
pending packets are dropped first.
-/
def sendHandshakes (identity : Identity) (moment : Moment) (link : Link) : Link :=
  if link.peer.state ≠ .handshake then link
  else
    let pending :=
      link.peer.pending.filter fun _ entry => entry.header.type ≠ PacketType.handshake.code
    let link := { link with peer := { link.peer with pending := pending } }
    if moment.now - link.peer.lastHandshakeSent < link.peer.handshakeBackoff then link
    else
      let link := link.sendHandshake identity moment
      let backoff := min (link.peer.handshakeBackoff * 2) 5000000000
      { link with peer := { link.peer with handshakeBackoff := backoff } }

/-- Whether the link is up. -/
def linked (peer : Peer) : Bool := peer.state = .established || peer.state = .online

def sendHeartbeats (identity : Identity) (moment : Moment) (link : Link) : Link :=
  if ¬linked link.peer then link
  else if moment.now - link.peer.lastHeartbeatSent < identity.config.heartbeat then link
  else
    let payload := put32 (UInt32.ofNat (u32 link.rttUs))
    let link := link.sendControl identity moment .heartbeat payload false
    { link with peer := { link.peer with lastHeartbeatSent := moment.now } }

/-- Sends a report when one is due. -/
def sendReports (numerics : Numerics) (identity : Identity) (moment : Moment) (link : Link)
    : Link :=
  if ¬linked link.peer then link
  else if moment.now - link.peer.lastReportSent < identity.config.reportInterval then link
  else
    let (peer, payload) :=
      Report.buildPayload numerics link.peer identity.config.reportInterval moment.now
    let header := { header identity moment .report with payloadSize := UInt16.ofNat payload.length }
    let link := { link with peer := peer }.sendRaw (PacketCodec.encode header payload) none
    { link with peer := { link.peer with lastReportSent := moment.now } }

/-- Forgets the groups and completions that are too old. -/
def expireCollection (deadTimeout : Int) (now : TimePoint) (collection : Collection)
    : Collection where
  incoming := collection.incoming.filter fun _ message => now - message.firstSeen < deadTimeout
  completed := collection.completed.filter fun _ since => now - since < deadTimeout

/-- Clears a dead link; one this end connected starts over. -/
def checkOffline (identity : Identity) (moment : Moment) (link : Link) : Link :=
  let deadTimeout := identity.config.deadTimeout
  let collection := expireCollection deadTimeout moment.now link.peer.collection
  let link := { link with peer := { link.peer with collection := collection } }
  if ¬linked link.peer then link
  else if moment.now - link.peer.lastRecv < deadTimeout then link
  else
    let link := { link with peer := { link.peer with state := .closed, pending := ∅ } }
    let link := link.firePeerEvent .closed
    if link.peer.reconnect then
      {
        link with
        peer := {
          link.peer with
          state := .handshake
          lastHandshakeSent := moment.now - identity.config.retransmitTimeout
          handshakeBackoff := 500000000
          lastRecv := moment.now
        }
      }
    else
      link

/-- Delivers the held commands whose wait is over. -/
def flushCommands (moment : Moment) (link : Link) : Link :=
  let (command, ready) :=
    CommandChannel.flushExpired link.peer.command (u32 link.rttUs) moment.now
  ready.foldl fireCommand { link with peer := { link.peer with command := command } }

end Link

-- The peer table

namespace Transport

/-- A handler at work on the record under a key; without a record nothing happens. -/
def visit (key : Bytes) (body : Link → Except Library.Fault Link) (transport : Transport)
    : Except Library.Fault (Transport × List Effect) :=
  match transport.peers[key]? with
  | none => .ok (transport, [])
  | some peer =>
      match body { key := key, peer := peer, rttUs := transport.rttUs } with
      | .error fault => .error fault
      | .ok link =>
          .ok (
            {
              transport with
              peers := transport.peers.insert key link.peer
              rttUs := link.rttUs
            },
            link.effects
          )

/-- A number as `std::to_string` writes it. -/
def decimal (value : Nat) : Bytes :=
  (Nat.toDigits 10 value).map fun digit => UInt8.ofNat digit.toNat

/-- The id of an unknown source: `anon-`, its port and a random number. -/
def anonymousId (source : AddrKey) (draw : Nat) : Bytes :=
  [0x61, 0x6E, 0x6F, 0x6E, 0x2D] ++ decimal (toBe16 source.port).toNat ++ [0x2D]
  ++ decimal (u32 draw)

/-- Points an address at a record. -/
def mapAddr (peerByAddr : AddrKey → Option Bytes) (addr : AddrKey) (key : Bytes)
    : AddrKey → Option Bytes :=
  fun other => if other = addr then some key else peerByAddr other

/-- The record a packet from an address belongs to, by its key. -/
def known (transport : Transport) (source : AddrKey) : Option Bytes :=
  (transport.peerByAddr source).filter transport.peers.contains

/-- `find_or_create_peer_by_addr`: the table and the key of the record. -/
def findOrCreatePeerByAddr (moment : Moment) (source : AddrKey) (draw : Nat)
    (transport : Transport)
    : Transport × Bytes :=
  match transport.known source with
  | some key => (transport, key)
  | none =>
      let id := anonymousId source draw
      let peer :=
        {
          transport.peers.getD id {} with
          id := id
          addr := source
          addrSet := true
          role := .leaf
          retransmit := transport.identity.config.retransmitEnabled
          state := .handshake
          lastHandshakeSent := moment.now - 3600000000000
        }
      (
        {
          transport with
          peers := transport.peers.insert id peer
          peerByAddr := mapAddr transport.peerByAddr source id
        },
        id
      )

/-- Removes a record, with the queued work that belongs to it. -/
def removePeer (key : Bytes) (transport : Transport) : Transport :=
  {
    transport with
    peers := transport.peers.erase key
    tasks := transport.tasks.filter fun task => task.1 ≠ key
    encoding := transport.encoding.filter fun call => call.1 ≠ key
  }

/-- The key of the record that `connect` replaces: one the address led to under another
id.
-/
def replaced (transport : Transport) (remoteId : Bytes) (addr : AddrKey) : Option Bytes :=
  (transport.peerByAddr addr).filter fun key => key ≠ remoteId

/-- The table part of `connect`. -/
def addPeer (moment : Moment) (remoteId : Bytes) (addr : AddrKey) (transport : Transport)
    : Transport :=
  let transport :=
    match transport.replaced remoteId addr with
    | some key => transport.removePeer key
    | none => transport
  let base := transport.peers.getD remoteId {}
  let peer :=
    {
      base with
      id := remoteId
      addr := addr
      addrSet := true
      role := .node
      reconnect := true
      retransmit := transport.identity.config.retransmitEnabled
      state := if base.state = .closed then .handshake else base.state
      lastHandshakeSent :=
        if base.state = .closed then moment.now - 3600000000000 else base.lastHandshakeSent
      handshakeBackoff := if base.state = .closed then 500000000 else base.handshakeBackoff
    }
  {
    transport with
    peers := transport.peers.insert remoteId peer
    peerByAddr := mapAddr transport.peerByAddr addr remoteId
  }

/-- The record a caller names: by key, else by the id the remote announced. -/
def findPeer (transport : Transport) (peerId : Bytes) : Option Bytes :=
  if transport.peers.contains peerId then some peerId
  else (transport.peers.toList.find? fun entry => entry.2.id = peerId).map Prod.fst

/-- The longest command: one datagram. -/
def maxCommandBytes (transport : Transport) : Nat := transport.identity.config.mtu - kHeaderSize

/-- Queues a message for encoding, when its record is online. -/
def queueMessage (peerId payload : Bytes) (transport : Transport) : Transport :=
  if payload.length > transport.identity.maxMessageBytes then transport
  else
    match transport.findPeer peerId with
    | none => transport
    | some key =>
        if (transport.peers.getD key {}).state = .online then
          { transport with tasks := transport.tasks ++ [(key, payload)] }
        else
          transport

/-- The encode thread takes the next message, once the last one is sent, and splits it. -/
def encodeNext (numerics : Numerics) (transport : Transport) : Transport :=
  match transport.encoding, transport.tasks with
  | [], (key, payload) :: tasks =>
      match transport.peers[key]? with
      | none => { transport with tasks := tasks }
      | some peer =>
          let outcome :=
            Fragmenter.fragmentAndSend numerics peer payload transport.identity.config.mtu
              transport.scratch
          {
            transport with
            peers := transport.peers.insert key { peer with msgIdOut := outcome.msgIdOut }
            tasks := tasks
            encoding := outcome.calls.map fun call => (key, call)
            scratch := outcome.scratch
          }
  | _, _ => transport

-- Steps

/-- A datagram that decodes is handled on the record of its source. -/
def receive (numerics : Numerics) (moment : Moment) (source : AddrKey) (bytes : Bytes)
    (draw : Nat) (transport : Transport)
    : Except Library.Fault (Transport × List Effect) :=
  match PacketCodec.decode (bytes.take 2048) with
  | none => .ok (transport, [])
  | some (header, payload) =>
      let (transport, key) := transport.findOrCreatePeerByAddr moment source draw
      transport.visit key (Link.handlePacket numerics transport.identity moment header payload)

def step (numerics : Numerics) (transport : Transport) (occurrence : Occurrence)
    : Except Library.Fault (Transport × List Effect) :=
  let identity := transport.identity
  let moment := occurrence.moment
  match occurrence.event with
  | .connect remoteId addr =>
      (transport.addPeer moment remoteId addr).visit remoteId fun link =>
        .ok (link.sendHandshake identity moment)
  | .datagram source bytes draw => transport.receive numerics moment source bytes draw
  | .sendCommand peerId payload =>
      if payload.length > transport.maxCommandBytes then .ok (transport, [])
      else
        match transport.findPeer peerId with
        | none => .ok (transport, [])
        | some key =>
            transport.visit key fun link => .ok (link.sendCommand identity moment payload)
  | .processSend peerId payload => .ok (transport.queueMessage peerId payload, [])
  | .encode => .ok (transport.encodeNext numerics, [])
  | .fragment =>
      match transport.encoding with
      | [] => .ok (transport, [])
      | (key, call) :: encoding =>
          { transport with encoding := encoding }.visit key fun link =>
            .ok (link.sendDataPacket identity moment call)
  | .sendHandshakes key =>
      transport.visit key fun link => .ok (link.sendHandshakes identity moment)
  | .sendHeartbeats key =>
      transport.visit key fun link => .ok (link.sendHeartbeats identity moment)
  | .sendReports key =>
      transport.visit key fun link => .ok (link.sendReports numerics identity moment)
  | .checkOffline key => transport.visit key fun link => .ok (link.checkOffline identity moment)
  | .flushCommands key => transport.visit key fun link => .ok (link.flushCommands moment)

/-- A transport as it is constructed. -/
def initial (identity : Identity) : Transport := { identity := identity }

end Transport

end Creek.Tight
