import Creek.Proofs.Tight.HandlerFrames
import Creek.Proofs.Tight.MtuBound
import Creek.Proofs.Tight.WireRoundTrip

/-! Which datagrams hand a payload to a callback. Only packets with user data do. A marked one is
opened first; one without the mark is taken as it is, also where the session key is ready.
-/

namespace Creek.Tight

open Library

-- Handlers that hand nothing over

namespace Link

variable {numerics : Numerics} {identity : Identity} {moment : Moment} {header : PacketHeader}
  {payload : Bytes} {link after : Link}

theorem goOnline_deliveries
    : (link.goOnline identity moment).deliveries = link.deliveries := by
  have view := congrArg View.deliveries (@goOnline_view identity moment link)
  rw [firePeerEvent_view] at view
  exact view

theorem acceptHandshake_deliveries (contents : HandshakeContents)
    : (link.acceptHandshake identity moment header contents).deliveries = link.deliveries := by
  change (link.acceptHandshake identity moment header contents).view.deliveries
    = link.view.deliveries
  rw [acceptHandshake]
  split <;> simp

theorem handleHandshake_deliveries
    : (link.handleHandshake identity moment header payload).deliveries = link.deliveries := by
  have adopted (announced : Option Bool)
      : (link.adoptRetransmit announced).deliveries = link.deliveries :=
    congrArg View.deliveries (adoptRetransmit_view announced)
  unfold handleHandshake
  split
  · rfl
  · dsimp only
    split
    · rw [acceptHandshake_deliveries, adopted]
    · exact adopted _

theorem handleHandshakeAck_deliveries
    : (link.handleHandshakeAck identity moment header payload).deliveries = link.deliveries := by
  have opened (next : Link) (same : next.deliveries = link.deliveries)
      : (if next.peer.state = .handshake ∨ next.peer.state = .established then
          let link := next.sendControl identity moment .online [] true
          let link := { link with peer := { link.peer with handshakeBackoff := 500000000 } }
          link.goOnline identity moment
        else next).deliveries
        = link.deliveries := by
    split
    · have sent : (next.sendControl identity moment .online [] true).deliveries
          = next.deliveries :=
        congrArg View.deliveries (sendControl_view _ _ _)
      rw [goOnline_deliveries]
      exact sent.trans same
    · exact same
  unfold handleHandshakeAck
  refine opened _ ?_
  split
  · exact congrArg View.deliveries
      ((resetCommands_view).trans (syncClock_view header.tick moment.unixMs))
  · refine congrArg View.deliveries (?_ : Link.view _ = link.view)
    rw [adoptKey_view, adoptRetransmit_view, resetCommands_view, syncClock_view]

theorem handleOnline_deliveries
    : (link.handleOnline identity moment).deliveries = link.deliveries := by
  unfold handleOnline
  split
  · exact goOnline_deliveries
  · rfl

theorem handleBye_deliveries : link.handleBye.deliveries = link.deliveries := by
  unfold handleBye
  split
  · exact congrArg View.deliveries (@firePeerEvent_view (link.setState .closed) .closed)
  · rfl

theorem dispatch_deliveries (control : carriesUserData header.type = false)
    (dispatched : link.dispatch numerics identity moment header payload = .ok after)
    : after.deliveries = link.deliveries := by
  have acked (next : Link) (ack : UInt32) (same : next.deliveries = link.deliveries)
      : (next.sendAckPacket identity moment ack).deliveries = link.deliveries :=
    (congrArg View.deliveries (sendAckPacket_view ack)).trans same
  unfold dispatch at dispatched
  split at dispatched
  · cases dispatched
    exact acked _ _ handleHandshake_deliveries
  · cases dispatched
    exact acked _ _ handleHandshakeAck_deliveries
  · cases dispatched
    exact acked _ _ handleOnline_deliveries
  · cases dispatched
    exact congrArg View.deliveries handleHeartbeat_view
  · cases dispatched
    exact handleBye_deliveries
  · rename_i kind
    rw [PacketType.code_of_ofCode? kind] at control
    cases control
  · rename_i kind
    rw [PacketType.code_of_ofCode? kind] at control
    cases control
  · cases dispatched
    exact congrArg View.deliveries handleAck_view
  · cases dispatched
    have view := congrArg View.deliveries (@handleReport_view identity moment header payload link)
    exact view
  · cases dispatched
    rfl
  · rename_i kind
    rw [PacketType.code_of_ofCode? kind] at control
    cases control
  · cases dispatched
    rfl

theorem type_of_openPayload {peer : Peer} {opened : PacketHeader × Bytes}
    (ran : openPayload peer header payload = some opened)
    : opened.1.type = header.type := by
  unfold openPayload at ran
  split at ran
  · unfold decryptPayload at ran
    split at ran
    · cases ran
    · split at ran
      · cases ran
      · obtain ⟨plaintext, -, rfl⟩ := Option.map_eq_some_iff.mp ran
        rfl
  · obtain rfl := Option.some.inj ran
    rfl

/-- What hands something over is a packet with user data, and has been opened if it is marked. -/
theorem handlePacket_deliveries
    (handled : link.handlePacket numerics identity moment header payload = .ok after)
    (delivers : after.deliveries ≠ link.deliveries)
    : carriesUserData header.type = true
      ∧ (header.flags &&& kFlagEncrypted ≠ 0
        → (decryptPayload link.peer header payload).isSome = true) := by
  unfold handlePacket at handled
  rcases ran : openPayload (link.touch moment header).peer header payload with - | opened
  · simp only [ran] at handled
    cases handled
    exact absurd rfl delivers
  · simp only [ran] at handled
    constructor
    · rw [← type_of_openPayload ran]
      cases user : carriesUserData opened.1.type with
      | true => rfl
      | false => exact absurd (dispatch_deliveries user handled) delivers
    · intro marked
      rw [openPayload, if_pos marked] at ran
      have same : decryptPayload link.peer header payload
          = decryptPayload (link.touch moment header).peer header payload :=
        rfl
      rw [same, ran]
      rfl

end Link

-- Runs

namespace Transport

variable {numerics : Numerics} {identity : Identity} {transport after : Transport}
  {occurrence : Occurrence} {outputs : List Effect}

/-- The record that a datagram belongs to, as the datagram finds it. -/
def recipient (transport : Transport) (moment : Moment) (source : AddrKey) (draw : Nat)
    : Option Peer :=
  let found := transport.findOrCreatePeerByAddr moment source draw
  found.1.peers[found.2]?

/-- A datagram that hands something over, where the session key is ready, is marked as encrypted and
opens under that key.
-/
def Authentic (stage : Stage Transport Occurrence Effect) : Prop :=
  ∀ source bytes draw peer, stage.event.event = .datagram source bytes draw
    → stage.before.recipient stage.event.moment source draw = some peer
    → peer.cryptoReady = true
    → stage.outputs.filter Effect.isDelivery ≠ []
    → ∃ header payload, PacketCodec.decode (bytes.take 2048) = some (header, payload)
      ∧ header.flags &&& kFlagEncrypted ≠ 0
      ∧ (decryptPayload peer header payload).isSome = true

/-- A packet with user data that finds the session key ready is marked as encrypted. -/
def ArrivesMarked (transport : Transport) (occurrence : Occurrence) : Prop :=
  ∀ source bytes draw peer header payload, occurrence.event = .datagram source bytes draw
    → transport.recipient occurrence.moment source draw = some peer
    → peer.cryptoReady = true
    → PacketCodec.decode (bytes.take 2048) = some (header, payload)
    → carriesUserData header.type = true
    → header.flags &&& kFlagEncrypted ≠ 0

/-- What one step hands over is authentic if what arrives is marked. -/
theorem step_authentic (marked : transport.ArrivesMarked occurrence)
    (taken : step numerics transport occurrence = .ok (after, outputs))
    : Authentic { before := transport, event := occurrence, outputs } := by
  rintro source bytes draw peer same stored ready delivers
  obtain ⟨moment, event⟩ := occurrence
  obtain rfl : event = .datagram source bytes draw := same
  simp only [step, receive] at taken
  rcases decoded : PacketCodec.decode (bytes.take 2048) with - | ⟨header, payload⟩
  · rw [decoded] at taken
    cases taken
    exact absurd rfl delivers
  · rw [decoded] at taken
    simp only [visit] at taken
    have stored : (transport.findOrCreatePeerByAddr moment source draw).1.peers[
        (transport.findOrCreatePeerByAddr moment source draw).2]? = some peer :=
      stored
    rw [stored] at taken
    dsimp only at taken
    split at taken
    · cases taken
    · rename_i next handled
      cases taken
      obtain ⟨user, opens⟩ := Link.handlePacket_deliveries handled delivers
      have mark := marked source bytes draw peer header payload rfl stored ready decoded user
      exact ⟨header, payload, rfl, mark, opens mark⟩

/-- In a run in which every packet with user data that finds a session key ready is marked, whatever
such a datagram hands to a callback has been authenticated.
-/
theorem authentic_of_marked {history : List (Stage Transport Occurrence Effect)} {last : Transport}
    (run : Run (step numerics) (fun _ before occurrence => before.ArrivesMarked occurrence)
      (initial identity) history last)
    : ∀ stage ∈ history, Authentic stage :=
  run.forall_stage (fun _ _ _ => trivial)
    fun _ _ _ _ _ _ marked taken => step_authentic marked taken

-- Packets on the wire

theorem decode_take_buildWirePacket {encryptionEnabled : Bool} {sender : Peer} {header : PacketHeader}
    {payload : Bytes} (magic : header.magic = kMagic) (version : header.version = kVersion)
    (size : payload.length = header.payloadSize.toNat)
    (short : kHeaderSize + (payload.length + kGcmTagSize) ≤ 2048)
    : PacketCodec.decode ((buildWirePacket encryptionEnabled sender header payload).take 2048)
      = some
          (
            {
              wireHeader (encryptionEnabled && sender.cryptoReady) header payload with
              checksum := PacketCodec.checksumOf
                (wireHeader (encryptionEnabled && sender.cryptoReady) header payload)
                (wireBody encryptionEnabled sender header payload)
            },
            wireBody encryptionEnabled sender header payload
          ) := by
  have room : payload.length + kGcmTagSize ≤ 65535 := by omega
  have sized := @length_wireBody encryptionEnabled sender header payload size room
  rw [buildWirePacket_eq_encode size room]
  refine decode_take_encode ?_ ?_ sized ?_
  · rw [← magic, wireHeader]
    split <;> rfl
  · rw [← version, wireHeader]
    split <;> rfl
  · rw [wireBody]
    split
    · rename_i input sealed
      simp only [sealOf] at sealed
      split at sealed
      · cases sealed
        rwa [Seal.length_output]
      · cases sealed
    · omega

theorem dispatch_checksum (identity : Identity) (moment : Moment) (header : PacketHeader) (payload : Bytes)
    (link : Link) (checksum : UInt32)
    : link.dispatch numerics identity moment { header with checksum } payload
      = link.dispatch numerics identity moment header payload :=
  rfl

/-- A packet of the wire is dispatched at a record that holds the key it is sealed with, if it is. -/
theorem step_wire {found : Transport} {key : Bytes} {source : AddrKey} {draw : Nat} {moment : Moment}
    {encryptionEnabled : Bool} {sender peer : Peer} {header : PacketHeader} {payload : Bytes}
    (magic : header.magic = kMagic) (version : header.version = kVersion)
    (low : header.flags < kFlagEncrypted) (size : payload.length = header.payloadSize.toNat)
    (short : kHeaderSize + (payload.length + kGcmTagSize) ≤ 2048)
    (finds : transport.findOrCreatePeerByAddr moment source draw = (found, key))
    (stored : found.peers[key]? = some peer)
    (holds : (encryptionEnabled && sender.cryptoReady) = true
      → peer.cryptoReady = true ∧ peer.cryptoKey = sender.cryptoKey)
    : step numerics transport
        ⟨moment, .datagram source (buildWirePacket encryptionEnabled sender header payload) draw⟩
      = found.visit key fun link =>
          (link.touch moment header).dispatch numerics transport.identity moment header payload := by
  have decoded := @decode_take_buildWirePacket encryptionEnabled sender header payload magic version
    size short
  generalize PacketCodec.checksumOf _ _ = checksum at decoded
  have identity : found.identity = transport.identity := by
    have same := transport.findOrCreatePeerByAddr_identity moment source draw
    rwa [finds] at same
  have touched (link : Link) : link.touch moment
      { wireHeader (encryptionEnabled && sender.cryptoReady) header payload with checksum }
      = link.touch moment header := by
    rw [wireHeader]
    split <;> rfl
  have opens := @openPayload_wireBody encryptionEnabled sender
    (Link.touch moment header { key, peer, rttUs := found.rttUs }).peer header payload holds low size
    checksum
  simp only [step, receive, decoded, finds, identity, visit, stored, Link.handlePacket, touched, opens,
    dispatch_checksum]

-- A stranger with a session key

/-- The first command of a source. -/
def firstCommand : PacketHeader where
  magic := kMagic
  version := kVersion
  type := PacketType.command.code
  sequence := 1
  payloadSize := 1

/-- The acknowledgement of the stranger, with a public key. -/
def acknowledges : Occurrence :=
  ⟨⟨0, 0⟩, .datagram stranger (PacketCodec.encode acknowledgement announcement) 0⟩

/-- A command of the stranger, in plain or sealed with the key of a record. -/
def commands (encrypted : Bool) (peer : Peer) : Occurrence :=
  ⟨⟨0, 0⟩, .datagram stranger (buildWirePacket encrypted peer firstCommand [7]) 0⟩

/-- What the transport does with the command once it is opened. -/
def takesCommand (transport : Transport) : Except Fault (Transport × List Effect) :=
  transport.visit (anonymousId stranger 0) fun link =>
    .ok ((link.touch ⟨0, 0⟩ firstCommand).handleCommand ⟨0, 0⟩ firstCommand [7])

/-- Whether the stranger's record is left with a session key, and its command is handed over. -/
def handsOver (result : Except Fault (Transport × List Effect)) : Bool :=
  match result with
  | .error _ => false
  | .ok (after, _) =>
      after.known stranger = some (anonymousId stranger 0)
      && after.peers[anonymousId stranger 0]?.any Peer.cryptoReady
      && match after.takesCommand with
        | .error _ => false
        | .ok (_, outputs) => outputs.any Effect.isDelivery

theorem strangerIdentity_handsOver
    : handsOver (step default (initial strangerIdentity) acknowledges) = true := by
  rw [acknowledges, step_datagram rfl rfl (by decide) (by decide)]
  decide +kernel

theorem handsOver_ok {result : Except Fault (Transport × List Effect)}
    (up : handsOver result = true)
    : ∃ after outputs peer, result = .ok (after, outputs)
      ∧ after.findOrCreatePeerByAddr ⟨0, 0⟩ stranger 0 = (after, anonymousId stranger 0)
      ∧ after.peers[anonymousId stranger 0]? = some peer ∧ peer.cryptoReady = true
      ∧ ∃ last handed, after.takesCommand = .ok (last, handed)
        ∧ handed.filter Effect.isDelivery ≠ [] := by
  rcases result with fault | ⟨after, outputs⟩
  · cases up
  · simp only [handsOver, Bool.and_eq_true, decide_eq_true_eq] at up
    obtain ⟨⟨known, any⟩, handed⟩ := up
    obtain ⟨peer, stored, ready⟩ := (Option.any_eq_true _ _).mp any
    refine ⟨after, outputs, peer, rfl, ?_, stored, ready, ?_⟩
    · simp only [findOrCreatePeerByAddr, known]
    · rcases taken : after.takesCommand with fault | ⟨last, effects⟩
      · rw [taken] at handed
        cases handed
      · rw [taken] at handed
        obtain ⟨effect, member, delivery⟩ := List.any_eq_true.mp handed
        exact ⟨last, effects, rfl, List.ne_nil_of_mem (List.mem_filter.mpr ⟨member, delivery⟩)⟩

theorem step_commands (encrypted : Bool) {peer : Peer} (ready : peer.cryptoReady = true)
    (found : transport.findOrCreatePeerByAddr ⟨0, 0⟩ stranger 0
      = (transport, anonymousId stranger 0))
    (stored : transport.peers[anonymousId stranger 0]? = some peer)
    : step default transport (commands encrypted peer) = transport.takesCommand :=
  step_wire rfl rfl (by decide) rfl (by decide) found stored fun _ => ⟨ready, rfl⟩

theorem recipient_stranger {peer : Peer}
    (found : transport.findOrCreatePeerByAddr ⟨0, 0⟩ stranger 0
      = (transport, anonymousId stranger 0))
    (stored : transport.peers[anonymousId stranger 0]? = some peer)
    : transport.recipient ⟨0, 0⟩ stranger 0 = some peer := by
  simp only [recipient, found, stored]

theorem decode_commands (encrypted : Bool) {peer : Peer} (ready : peer.cryptoReady = true)
    : ∃ checksum, PacketCodec.decode ((buildWirePacket encrypted peer firstCommand [7]).take 2048)
      = some
          ({ wireHeader encrypted firstCommand [7] with checksum },
            wireBody encrypted peer firstCommand [7]) := by
  have decoded := @decode_take_buildWirePacket encrypted peer firstCommand [7] rfl rfl rfl (by decide)
  rw [ready, Bool.and_true] at decoded
  exact ⟨_, decoded⟩

/-- Before its acknowledgement the stranger has no session key. -/
theorem arrivesMarked_acknowledges
    : (initial strangerIdentity).ArrivesMarked acknowledges := by
  intro source bytes draw peer header payload same stored ready
  obtain ⟨rfl, -, rfl⟩ := Event.datagram.inj same
  have fresh : ((initial strangerIdentity).recipient acknowledges.moment stranger 0).any
      Peer.cryptoReady = false := by
    decide +kernel
  rw [stored, Option.any_some, ready] at fresh
  cases fresh

/-- The run of the acknowledgement and a sealed command, which is handed over. -/
theorem sealed_command_authentic
    : ∃ history last, (∃ stage ∈ history, stage.outputs.filter Effect.isDelivery ≠ [])
      ∧ Run (step default) (fun _ before occurrence => before.ArrivesMarked occurrence)
          (initial strangerIdentity) history last
      ∧ ∀ stage ∈ history, Authentic stage := by
  obtain ⟨after, outputs, peer, taken, found, stored, ready, last, handed, handled, delivers⟩ :=
    handsOver_ok strangerIdentity_handsOver
  have begun : Run (step default) (fun _ before occurrence => before.ArrivesMarked occurrence)
      (initial strangerIdentity) [] (initial strangerIdentity) :=
    .start
  have first := begun.next arrivesMarked_acknowledges taken
  have marked : after.ArrivesMarked (commands true peer) := by
    intro source bytes draw _ header payload same _ _ decoded _
    obtain ⟨rfl, rfl, rfl⟩ := Event.datagram.inj same
    obtain ⟨checksum, known⟩ := @decode_commands true peer ready
    rw [known] at decoded
    obtain ⟨rfl, -⟩ := Prod.mk.inj (Option.some.inj decoded)
    exact wireHeader_marked firstCommand [7]
  have run := first.next marked ((step_commands true ready found stored).trans handled)
  exact ⟨_, last, ⟨_, List.mem_append_right _ List.mem_cons_self, delivers⟩, run,
    authentic_of_marked run⟩

/-- A command without the mark is handed over although the session key of its record is ready. -/
theorem unmarked_command_handed_over
    : ∃ history last, strangerIdentity.config.encryptionEnabled = true
      ∧ Run (step default) (fun _ _ _ => True) (initial strangerIdentity) history last
      ∧ ¬∀ stage ∈ history, Authentic stage := by
  obtain ⟨after, outputs, peer, taken, found, stored, ready, last, handed, handled, delivers⟩ :=
    handsOver_ok strangerIdentity_handsOver
  have begun : Run (step default) (fun _ _ _ => True) (initial strangerIdentity) []
      (initial strangerIdentity) :=
    .start
  have first := begun.next trivial taken
  have second := first.next trivial ((step_commands false ready found stored).trans handled)
  refine ⟨_, last, rfl, second, fun authentic => ?_⟩
  have here := authentic _ (List.mem_append_right _ List.mem_cons_self)
  obtain ⟨header, payload, decoded, marked, -⟩ := here stranger _ 0 peer rfl
    (recipient_stranger found stored) ready delivers
  obtain ⟨checksum, known⟩ := @decode_commands false peer ready
  rw [known] at decoded
  obtain ⟨rfl, -⟩ := Prod.mk.inj (Option.some.inj decoded)
  exact absurd marked (by decide : ¬firstCommand.flags &&& kFlagEncrypted ≠ 0)

end Transport

end Creek.Tight
