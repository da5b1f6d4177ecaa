import Creek.Tight.Transport

/-! What one operation on a link changes: its record as an update of the old one, and what it
shows to the outside beyond plain datagrams.
-/

namespace Creek.Tight

/-- Whether an effect hands a payload to a callback. -/
def Effect.isDelivery : Effect → Bool
  | .message .. => true
  | .command .. => true
  | _ => false

/-- The encryption call behind a sent datagram. -/
def Effect.seal? : Effect → Option Seal
  | .send _ _ _ sealed => sealed
  | _ => none

/-- The event an effect hands to the peer callback. -/
def Effect.event? : Effect → Option PeerEvent
  | .peerEvent _ event => some event
  | _ => none

/-- What the steps of a link show of themselves, apart from plain datagrams. -/
structure View where
  key : Bytes
  deliveries : List Effect
  seals : List Seal
  events : List PeerEvent

namespace Link

def deliveries (link : Link) : List Effect := link.effects.filter Effect.isDelivery
def seals (link : Link) : List Seal := link.effects.filterMap Effect.seal?
def events (link : Link) : List PeerEvent := link.effects.filterMap Effect.event?

def view (link : Link) : View where
  key := link.key
  deliveries := link.deliveries
  seals := link.seals
  events := link.events

variable {identity : Identity} {moment : Moment} {link : Link}

@[simp] theorem view_with_peer (peer : Peer) : { link with peer := peer }.view = link.view := rfl

-- Sending

@[simp] theorem onAck_peer (rtt : Int) : (link.onAck rtt).peer = link.peer := by
  unfold onAck
  split <;> rfl

@[simp] theorem onAck_view (rtt : Int) : (link.onAck rtt).view = link.view := by
  unfold onAck
  split <;> rfl

@[simp] theorem fire_peer (effect : Effect) : (link.fire effect).peer = link.peer := rfl

@[simp] theorem fire_key (effect : Effect) : (link.fire effect).key = link.key := rfl

@[simp] theorem firePeerEvent_peer (state : LinkState)
    : (link.firePeerEvent state).peer = link.peer :=
  rfl

theorem firePeerEvent_view (state : LinkState)
    : (link.firePeerEvent state).view =
      {
        link.view with
        events := link.events ++ [{
          id := link.peer.id
          role := link.peer.role
          state := state
          clientId := link.peer.peerClientId
        }]
      } := by
  simp [firePeerEvent, fire, view, deliveries, seals, events, Effect.isDelivery, Effect.seal?,
    Effect.event?]

@[simp] theorem sendRaw_peer (datagram : Bytes) (sealed : Option Seal)
    : (link.sendRaw datagram sealed).peer = link.peer := by
  unfold sendRaw
  split <;> rfl

theorem sendRaw_view_sealed (datagram : Bytes) (sealed : Option Seal)
    : (link.sendRaw datagram sealed).view =
      {
        link.view with
        seals := link.seals ++ if link.peer.addrSet then sealed.toList else []
      } := by
  unfold sendRaw
  rcases sealed with _ | input
  all_goals
    split
    · simp [*, fire, view, deliveries, seals, events, Effect.isDelivery, Effect.seal?,
        Effect.event?]
    · simp [*, view]

@[simp] theorem sendRaw_view (datagram : Bytes) : (link.sendRaw datagram none).view = link.view := by
  rw [sendRaw_view_sealed]
  simp [view]

@[simp] theorem sendWire_peer (header : PacketHeader) (payload : Bytes)
    : (link.sendWire identity header payload).peer = link.peer :=
  sendRaw_peer _ _

/-- The encryption calls of one packet through `build_wire_packet`. -/
def sealsOf (identity : Identity) (peer : Peer) (header : PacketHeader) (payload : Bytes)
    : List Seal :=
  if peer.addrSet then (sealOf identity.config.encryptionEnabled peer header payload).toList
  else []

/-- A packet through `build_wire_packet` adds its encryption call to the view. -/
theorem sendWire_view (identity : Identity) (link : Link) (header : PacketHeader) (payload : Bytes)
    : (link.sendWire identity header payload).view =
      { link.view with seals := link.seals ++ sealsOf identity link.peer header payload } :=
  sendRaw_view_sealed _ _

@[simp] theorem keepPending_view (header : PacketHeader) (payload : Bytes) (now : TimePoint)
    (bytes : Nat)
    : (link.keepPending header payload now bytes).view = link.view :=
  rfl

@[simp] theorem keepPending_command (header : PacketHeader) (payload : Bytes) (now : TimePoint)
    (bytes : Nat)
    : (link.keepPending header payload now bytes).peer.command = link.peer.command :=
  rfl

@[simp] theorem sendControl_view (type : PacketType) (payload : Bytes) (ackable : Bool)
    : (link.sendControl identity moment type payload ackable).view = link.view := by
  cases ackable
  · exact sendRaw_view _
  · simp [sendControl]

/-- The header of the control packet that is sent next. -/
def controlHeader (identity : Identity) (moment : Moment) (type : PacketType) (payload : Bytes)
    (sequence : Nat)
    : PacketHeader :=
  {
    header identity moment type with
    payloadSize := UInt16.ofNat payload.length
    sequence := UInt32.ofNat sequence
  }

/-- The record after a control packet: an ackable one takes a sequence and becomes pending. -/
theorem sendControl_peer (type : PacketType) (payload : Bytes) (ackable : Bool)
    : (link.sendControl identity moment type payload ackable).peer =
      if ackable then
        {
          link.peer with
          sequenceOut := u32 (link.peer.sequenceOut + 1)
          pending := (keepPending (controlHeader identity moment type payload link.peer.sequenceOut)
            payload moment.now
            (PacketCodec.encode (controlHeader identity moment type payload link.peer.sequenceOut)
              payload).length link).peer.pending
        }
      else link.peer := by
  cases ackable
  · exact sendRaw_peer _ _
  · simp [sendControl, keepPending, controlHeader]

@[simp] theorem sendAckPacket_peer (ack : UInt32)
    : (link.sendAckPacket identity moment ack).peer = link.peer :=
  sendRaw_peer _ _

@[simp] theorem sendAckPacket_view (ack : UInt32)
    : (link.sendAckPacket identity moment ack).view = link.view :=
  sendRaw_view _

@[simp] theorem sendHandshake_view : (link.sendHandshake identity moment).view = link.view :=
  sendControl_view _ _ _

theorem mem_probeDatagrams {fragment remaining fuel : Nat} {datagram : Bytes}
    (member : datagram ∈ probeDatagrams identity moment fragment remaining fuel)
    : ∃ n, datagram = PacketCodec.encode
        { header identity moment .probe with payloadSize := UInt16.ofNat n } (List.replicate n 0) := by
  induction fuel generalizing remaining with
  | zero => exact absurd member List.not_mem_nil
  | succ fuel ih =>
      rw [probeDatagrams] at member
      split at member
      · exact absurd member List.not_mem_nil
      · rcases List.mem_cons.mp member with same | later
        · exact ⟨_, same⟩
        · exact ih later

/-- Plain datagrams in a row change neither the record nor the view. -/
theorem foldl_sendRaw (datagrams : List Bytes)
    : (datagrams.foldl (fun link datagram => link.sendRaw datagram none) link).peer = link.peer
      ∧ (datagrams.foldl (fun link datagram => link.sendRaw datagram none) link).view
        = link.view := by
  induction datagrams generalizing link with
  | nil => exact ⟨rfl, rfl⟩
  | cons datagram rest ih =>
      obtain ⟨peer, view⟩ := @ih (link.sendRaw datagram none)
      exact ⟨peer.trans (sendRaw_peer _ _), view.trans (sendRaw_view _)⟩

@[simp] theorem sendSpeedTest_peer : (link.sendSpeedTest identity moment).peer = link.peer := by
  unfold sendSpeedTest
  split
  · exact (foldl_sendRaw _).1
  · rfl

@[simp] theorem sendSpeedTest_view : (link.sendSpeedTest identity moment).view = link.view := by
  unfold sendSpeedTest
  split
  · exact (foldl_sendRaw _).2
  · rfl

-- Clock

theorem syncClock_peer (link : Link) (tick : UInt32) (arrivalMs : Nat)
    : ∃ clock, (link.syncClock tick arrivalMs).peer = { link.peer with clock := clock } := by
  unfold syncClock
  split
  · exact ⟨_, rfl⟩
  · split <;> exact ⟨_, rfl⟩

@[simp] theorem syncClock_view (tick : UInt32) (arrivalMs : Nat)
    : (link.syncClock tick arrivalMs).view = link.view := by
  unfold syncClock
  split
  · rfl
  · split <;> rfl

theorem trySyncClock_peer (link : Link)
    : ∃ clock, link.trySyncClock.peer = { link.peer with clock := clock } := by
  unfold trySyncClock
  split
  · exact syncClock_peer _ _ _
  · exact ⟨_, rfl⟩

@[simp] theorem trySyncClock_view : link.trySyncClock.view = link.view := by
  unfold trySyncClock
  split
  · exact syncClock_view _ _
  · rfl

@[simp] theorem feedRttFromTick_peer (tick : UInt32)
    : (link.feedRttFromTick tick moment).peer = link.peer := by
  simp only [feedRttFromTick]
  split
  · rfl
  · exact onAck_peer _

@[simp] theorem feedRttFromTick_view (link : Link) (moment : Moment) (tick : UInt32)
    : (link.feedRttFromTick tick moment).view = link.view := by
  simp only [feedRttFromTick]
  split
  · rfl
  · exact onAck_view _

end Link

/-- A visit finds no record, or stores what its handler makes of one. -/
theorem Transport.visit_cases {transport after : Transport} {key : Bytes}
    {body : Link → Except Library.Fault Link} {outputs : List Effect}
    (taken : transport.visit key body = .ok (after, outputs))
    : transport.peers[key]? = none ∧ after = transport ∧ outputs = []
      ∨ ∃ peer next, transport.peers[key]? = some peer
          ∧ body { key := key, peer := peer, rttUs := transport.rttUs } = .ok next
          ∧ after = {
              transport with
              peers := transport.peers.insert key next.peer
              rttUs := next.rttUs
            }
          ∧ outputs = next.effects := by
  rw [Transport.visit] at taken
  rcases found : transport.peers[key]? with - | peer
  · rw [found] at taken
    cases taken
    exact .inl ⟨rfl, rfl, rfl⟩
  · rw [found] at taken
    rcases ran : body { key := key, peer := peer, rttUs := transport.rttUs } with fault | next
    · simp only [ran] at taken
      cases taken
    · simp only [ran] at taken
      cases taken
      exact .inr ⟨peer, next, rfl, ran, rfl, rfl⟩

end Creek.Tight
