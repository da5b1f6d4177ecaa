import Creek.Tight.SendQueue

/-! The peer records as allocations, and the queues that hold pointers to them.
A node of the peer map keeps its place until it is erased, so a pointer to a record is modelled as the
number of its allocation; numbers are not used again. What a datagram says and when the reactor sends
one does not matter here: datagrams are arguments, and so is what a thread reads from a record that
is gone. A thread that has found a record keeps the pointer while it works without the mutex.
-/

namespace Creek.Tight

/-- A node of the peer map: its allocation, and what decides whether something is queued for it. -/
structure PeerNode where
  handle : Nat
  id : Bytes := []
  addrSet : Bool := false
  state : LinkState := .closed
  deriving DecidableEq, Repr

structure EncodeTask where
  peer : Nat
  payload : Bytes
  deriving DecidableEq, Repr

structure OutboundPacket where
  peer : Nat
  datagram : Bytes
  deriving DecidableEq, Repr

/-- A transport with its queues. `pass` holds what the reactor has taken from the send queue and not yet
disposed of, `hands` the records that the receiver and the encode thread are at work on.
-/
structure HandledTransport where
  identity : Identity
  queueLimit : Nat
  running : Bool := true
  lite : Bool := false
  peers : Std.TreeMap Bytes PeerNode := ∅
  peerByAddr : AddrKey → Option Bytes := fun _ => none
  allocated : Nat := 0
  sendQueue : SendQueue := ∅
  pass : List QueuedMessage := []
  encodeQueue : BlockingQueue EncodeTask := {}
  outboundQueue : BlockingQueue OutboundPacket := {}
  litePending : Option OutboundPacket := none
  hands : List Nat := []

/-- What a call returns, and what goes to the socket. -/
inductive HandledOutput where
  | returned (accepted : Bool)
  | sent (packet : OutboundPacket)
  deriving DecidableEq, Repr

namespace HandledTransport

/-- The longest send queue; in lite mode it is shorter. -/
def sendLimit (transport : HandledTransport) : Nat :=
  if transport.lite then min transport.queueLimit 128 else transport.queueLimit

/-- The record of an allocation, while it is in the map. -/
def nodeOf (transport : HandledTransport) (handle : Nat) : Option PeerNode :=
  (transport.peers.toList.find? fun entry => entry.2.handle = handle).map Prod.snd

/-- Whether an address is set in the record of an allocation; `stale` is what a read finds after it is
gone.
-/
def addrSetOf (transport : HandledTransport) (handle : Nat) (stale : Bool) : Bool :=
  match transport.nodeOf handle with
  | some node => node.addrSet
  | none => stale

/-- `operator[]` of the map: the record under a key, made if there is none. -/
def obtain (key : Bytes) (transport : HandledTransport) : HandledTransport × PeerNode :=
  match transport.peers[key]? with
  | some node => (transport, node)
  | none =>
      let node : PeerNode := { handle := transport.allocated }
      (
        {
          transport with
          peers := transport.peers.insert key node
          allocated := transport.allocated + 1
        },
        node
      )

/-- Stores what is written into a record. -/
def write (key : Bytes) (node : PeerNode) (transport : HandledTransport) : HandledTransport :=
  { transport with peers := transport.peers.insert key node }

/-- Queues a datagram for a record whose address is set; a full or closed queue drops it. -/
def sendRaw (handle : Nat) (addrSet : Bool) (datagram : Bytes) (transport : HandledTransport)
    : HandledTransport :=
  if addrSet then
    {
      transport with
      outboundQueue := (transport.outboundQueue.tryPush { peer := handle, datagram }).1
    }
  else transport

/-- The key of the record that `connect` erases: one the address leads to under another id. -/
def replaced (transport : HandledTransport) (remoteId : Bytes) (addr : AddrKey) : Option Bytes :=
  (transport.peerByAddr addr).filter fun key => key ≠ remoteId

/-- The erasure in `connect`. Nothing is done about the queues. -/
def eraseReplaced (remoteId : Bytes) (addr : AddrKey) (transport : HandledTransport)
    : HandledTransport :=
  match transport.replaced remoteId addr with
  | some key => { transport with peers := transport.peers.erase key }
  | none => transport

/-- `connect` to a resolved address. -/
def connect (remoteId : Bytes) (addr : AddrKey) (datagram : Bytes) (transport : HandledTransport)
    : HandledTransport × List HandledOutput :=
  if !transport.running then (transport, [.returned false])
  else
    let (transport, node) := (transport.eraseReplaced remoteId addr).obtain remoteId
    let node :=
      {
        node with
        id := remoteId
        addrSet := true
        state := if node.state = .closed then .handshake else node.state
      }
    let transport :=
      {
        transport.write remoteId node with
        peerByAddr := Transport.mapAddr transport.peerByAddr addr remoteId
      }
    (transport.sendRaw node.handle node.addrSet datagram, [.returned true])

def sendMessage (message : QueuedMessage) (transport : HandledTransport)
    : HandledTransport × List HandledOutput :=
  if !transport.running then (transport, [.returned false])
  else if message.payload.length > transport.identity.maxMessageBytes then
    (transport, [.returned false])
  else if transport.sendQueue.total ≥ transport.sendLimit then (transport, [.returned false])
  else ({ transport with sendQueue := transport.sendQueue.push message }, [.returned true])

/-- The record a caller names: by key, else by the id the remote announced. -/
def findPeer (transport : HandledTransport) (peerId : Bytes) : Option PeerNode :=
  match transport.peers[peerId]? with
  | some node => some node
  | none => (transport.peers.toList.find? fun entry => entry.2.id = peerId).map Prod.snd

def sendCommand (peerId payload datagram : Bytes) (transport : HandledTransport)
    : HandledTransport × List HandledOutput :=
  if !transport.running then (transport, [.returned false])
  else if payload.length > transport.identity.config.mtu - kHeaderSize then
    (transport, [.returned false])
  else
    match transport.findPeer peerId with
    | none => (transport, [.returned false])
    | some node =>
        if node.state ≠ .online then (transport, [.returned false])
        else (transport.sendRaw node.handle node.addrSet datagram, [.returned true])

/-- Puts a message back into the send queue unless the limit is reached. -/
def putBack (message : QueuedMessage) (transport : HandledTransport) : HandledTransport :=
  if transport.sendQueue.total < transport.sendLimit then
    { transport with sendQueue := transport.sendQueue.push message }
  else transport

/-- What `process_send_queue` does with one message it has taken. -/
def dispose (message : QueuedMessage) (transport : HandledTransport) : HandledTransport :=
  match transport.findPeer message.peerId with
  | none => transport
  | some node =>
      if node.state ≠ .online then
        if node.state ≠ .closed then transport.putBack message else transport
      else
        let (encodeQueue, accepted) :=
          transport.encodeQueue.tryPush { peer := node.handle, payload := message.payload }
        if accepted then { transport with encodeQueue := encodeQueue }
        else transport.putBack { priority := 0, peerId := message.peerId, payload := [] }

/-- `find_or_create_peer_by_addr`; the receiver goes on with the record in hand. -/
def receive (source : AddrKey) (draw : Nat) (transport : HandledTransport) : HandledTransport :=
  match (transport.peerByAddr source).bind fun key => transport.peers[key]? with
  | some node => { transport with hands := transport.hands ++ [node.handle] }
  | none =>
      let id := Transport.anonymousId source draw
      let (transport, node) := transport.obtain id
      {
        transport.write id { node with id := id, addrSet := true, state := .handshake } with
        peerByAddr := Transport.mapAddr transport.peerByAddr source id
        hands := transport.hands ++ [node.handle]
      }

/-- Writes an id and a link state into the record of an allocation, while it is in the map. -/
def writeHandle (handle : Nat) (id : Bytes) (state : LinkState) (transport : HandledTransport)
    : HandledTransport :=
  match transport.peers.toList.find? fun entry => entry.2.handle = handle with
  | some (key, node) => transport.write key { node with id := id, state := state }
  | none => transport

end HandledTransport

/-- What the threads and the callers do, one step for each time they hold a mutex or a queue. -/
inductive HandleEvent where
  | connect (remoteId : Bytes) (addr : AddrKey) (datagram : Bytes)
  | sendMessage (message : QueuedMessage)
  | sendCommand (peerId payload datagram : Bytes)
  | takeSendQueue
  | dispose
  | reactorSend (key datagram : Bytes)
  | reactorWrite (key : Bytes) (state : LinkState)
  | takeTask
  | receive (source : AddrKey) (draw : Nat)
  | handSend (index : Nat) (datagram : Bytes) (stale : Bool)
  | handWrite (index : Nat) (id : Bytes) (state : LinkState)
  | handDone (index : Nat)
  | takePacket (stale : Bool)
  | litePoll
  | liteSend (stale : Bool)
  | setLiteMode (lite : Bool)
  | stop
  deriving DecidableEq, Repr

/-- One step of a transport. -/
def HandledTransport.step (transport : HandledTransport)
    : HandleEvent → Except Unit (HandledTransport × List HandledOutput)
  | .connect remoteId addr datagram => .ok (transport.connect remoteId addr datagram)
  | .sendMessage message => .ok (transport.sendMessage message)
  | .sendCommand peerId payload datagram => .ok (transport.sendCommand peerId payload datagram)
  | .takeSendQueue =>
      if transport.pass.isEmpty then
        .ok ({ transport with sendQueue := ∅, pass := transport.sendQueue.taken }, [])
      else .error ()
  | .dispose =>
      match transport.pass with
      | [] => .error ()
      | message :: rest => .ok ({ transport with pass := rest }.dispose message, [])
  | .reactorSend key datagram =>
      match transport.peers[key]? with
      | none => .error ()
      | some node => .ok (transport.sendRaw node.handle node.addrSet datagram, [])
  | .reactorWrite key state =>
      match transport.peers[key]? with
      | none => .error ()
      | some node => .ok (transport.write key { node with state := state }, [])
  | .takeTask =>
      match transport.encodeQueue.items with
      | [] => .error ()
      | task :: rest =>
          .ok (
            {
              transport with
              encodeQueue := { transport.encodeQueue with items := rest }
              hands := transport.hands ++ [task.peer]
            },
            []
          )
  | .receive source draw => .ok (transport.receive source draw, [])
  | .handSend index datagram stale =>
      match transport.hands[index]? with
      | none => .error ()
      | some handle =>
          .ok (transport.sendRaw handle (transport.addrSetOf handle stale) datagram, [])
  | .handWrite index id state =>
      match transport.hands[index]? with
      | none => .error ()
      | some handle => .ok (transport.writeHandle handle id state, [])
  | .handDone index => .ok ({ transport with hands := transport.hands.eraseIdx index }, [])
  | .takePacket stale =>
      match transport.outboundQueue.items with
      | [] => .error ()
      | packet :: rest =>
          .ok (
            { transport with outboundQueue := { transport.outboundQueue with items := rest } },
            if transport.addrSetOf packet.peer stale then [.sent packet] else []
          )
  | .litePoll =>
      match transport.litePending, transport.outboundQueue.items with
      | none, packet :: rest =>
          .ok (
            {
              transport with
              outboundQueue := { transport.outboundQueue with items := rest }
              litePending := some packet
            },
            []
          )
      | _, _ => .error ()
  | .liteSend stale =>
      match transport.litePending with
      | none => .error ()
      | some packet =>
          .ok (
            { transport with litePending := none },
            if transport.addrSetOf packet.peer stale then [.sent packet] else []
          )
  | .setLiteMode lite => .ok ({ transport with lite := lite }, [])
  | .stop =>
      .ok (
        {
          transport with
          running := false
          encodeQueue := { transport.encodeQueue with closed := true }
          outboundQueue := { transport.outboundQueue with closed := true }
        },
        []
      )

end Creek.Tight
