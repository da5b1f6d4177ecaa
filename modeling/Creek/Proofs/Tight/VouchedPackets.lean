import Creek.Proofs.Tight.PendingInterleaving
import Creek.Proofs.Tight.TokenGate

/-! What a link sends of what it is given. Whichever packets are known, as long as a handler is only given
known ones it keeps no others, and every datagram it sends is a known packet or a control packet in plain.
-/

namespace Creek.Tight

open Library

/-- The kinds of packets that carry fragments of messages. -/
def carriesFragment (type : UInt8) : Prop :=
  type = PacketType.data.code ∨ type = PacketType.parity.code

instance (type : UInt8) : Decidable (carriesFragment type) :=
  inferInstanceAs (Decidable (_ ∨ _))

theorem carriesUserData_of_fragment {type : UInt8} (carries : carriesFragment type)
    : carriesUserData type = true := by
  rcases carries with rfl | rfl <;> rfl

/-- A datagram with the encryption call behind it: a plain control packet, or a known packet as it
goes on the wire.
-/
inductive Posted (known : PacketHeader → Bytes → Prop) : Bytes → Option Seal → Prop
  | control {header : PacketHeader} {payload : Bytes} (plain : carriesUserData header.type = false)
      : Posted known (PacketCodec.encode header payload) none
  | wire {encryptionEnabled : Bool} {peer : Peer} {header : PacketHeader} {payload : Bytes}
      (holds : known header payload)
      : Posted known (buildWirePacket encryptionEnabled peer header payload)
          (sealOf encryptionEnabled peer header payload)

/-- What an effect sends is posted. -/
def Effect.Vouched (known : PacketHeader → Bytes → Prop) : Effect → Prop
  | .send _ _ datagram sealed => Posted known datagram sealed
  | _ => True

-- What a handler keeps and sends

namespace Link

/-- All that a link keeps pending is known, all that it has sent is posted, and no message id was drawn
since `drawn`.
-/
structure Vouched (known : PacketHeader → Bytes → Prop) (drawn : Nat) (link : Link) : Prop where
  msgIdOut : link.peer.msgIdOut = drawn
  pending : ∀ (seq : Nat) (entry : PendingSend), link.peer.pending[seq]? = some entry
    → known entry.header entry.payload
  effects : ∀ effect ∈ link.effects, effect.Vouched known

/-- The packets of a handshake are known. -/
structure Apart (known : PacketHeader → Bytes → Prop) : Prop where
  handshake : ∀ header payload, header.type = PacketType.handshake.code → known header payload
  handshakeAck : ∀ header payload, header.type = PacketType.handshakeAck.code → known header payload
  online : ∀ header payload, header.type = PacketType.online.code → known header payload

variable {numerics : Numerics} {known : PacketHeader → Bytes → Prop} {drawn : Nat}
  {identity : Identity} {moment : Moment} {header : PacketHeader} {payload : Bytes}
  {link after : Link}

/-- An update elsewhere in the record sends and keeps nothing. -/
theorem Vouched.of_same {other : Link} (vouched : link.Vouched known drawn)
    (msgIdOut : other.peer.msgIdOut = link.peer.msgIdOut)
    (pending : other.peer.pending = link.peer.pending) (effects : other.effects = link.effects)
    : other.Vouched known drawn where
  msgIdOut := msgIdOut.trans vouched.msgIdOut
  pending := fun seq entry stored => vouched.pending seq entry (pending ▸ stored)
  effects := fun effect member => vouched.effects effect (effects ▸ member)

theorem Vouched.fire (vouched : Vouched known drawn link) {effect : Effect}
    (posted : effect.Vouched known)
    : Vouched known drawn (link.fire effect) where
  msgIdOut := vouched.msgIdOut
  pending := vouched.pending
  effects := by
    intro other member
    rcases List.mem_append.mp member with earlier | last
    · exact vouched.effects other earlier
    · rw [List.mem_singleton.mp last]
      exact posted

theorem Vouched.sendRaw (vouched : Vouched known drawn link) {datagram : Bytes} {sealed : Option Seal}
    (posted : Posted known datagram sealed)
    : Vouched known drawn (link.sendRaw datagram sealed) := by
  unfold Link.sendRaw
  split
  · exact vouched.fire posted
  · exact vouched

theorem Vouched.sendWire (vouched : Vouched known drawn link) (sendable : known header payload)
    : Vouched known drawn (link.sendWire identity header payload) :=
  vouched.sendRaw (.wire sendable)

theorem Vouched.keepPending (vouched : Vouched known drawn link) (sendable : known header payload)
    (now : TimePoint) (bytes : Nat)
    : Vouched known drawn (link.keepPending header payload now bytes) where
  msgIdOut := vouched.msgIdOut
  pending := by
    intro seq entry stored
    simp only [Link.keepPending, Std.TreeMap.getElem?_insert] at stored
    split at stored
    · cases stored
      exact sendable
    · exact vouched.pending seq entry stored
  effects := vouched.effects

theorem Vouched.sendPlain (vouched : Vouched known drawn link) {type : PacketType}
    (plain : carriesUserData type.code = false) (payload : Bytes)
    : Vouched known drawn (link.sendControl identity moment type payload false) :=
  vouched.sendRaw (.control plain)

theorem Vouched.sendKept (vouched : Vouched known drawn link) {type : PacketType}
    (plain : carriesUserData type.code = false)
    (sendable : ∀ header payload, header.type = type.code → known header payload) (payload : Bytes)
    : Vouched known drawn (link.sendControl identity moment type payload true) := by
  have numbered : Vouched known drawn
      { link with peer := { link.peer with sequenceOut := u32 (link.peer.sequenceOut + 1) } } :=
    vouched.of_same rfl rfl rfl
  exact (numbered.sendRaw (.control plain)).keepPending (sendable _ _ rfl) _ _

theorem Vouched.sendAckPacket (vouched : Vouched known drawn link) (ack : UInt32)
    : Vouched known drawn (link.sendAckPacket identity moment ack) := by
  refine vouched.sendRaw (.control ?_)
  exact (by decide : carriesUserData PacketType.ack.code = false)

theorem Vouched.foldl_sendRaw (vouched : Vouched known drawn link) {datagrams : List Bytes}
    (posted : ∀ datagram ∈ datagrams, Posted known datagram none)
    : Vouched known drawn (datagrams.foldl (fun link datagram => link.sendRaw datagram none) link) := by
  induction datagrams generalizing link with
  | nil => exact vouched
  | cons datagram rest ih =>
      exact ih (vouched.sendRaw (posted datagram List.mem_cons_self))
        fun other member => posted other (List.mem_cons_of_mem _ member)

theorem Vouched.foldl_sendWire (vouched : Vouched known drawn link) {entries : List PendingSend}
    (sendable : ∀ entry ∈ entries, known entry.header entry.payload)
    : Vouched known drawn
        (entries.foldl (fun link entry => link.sendWire identity entry.header entry.payload) link) := by
  induction entries generalizing link with
  | nil => exact vouched
  | cons entry rest ih =>
      exact ih (vouched.sendWire (sendable entry List.mem_cons_self))
        fun other member => sendable other (List.mem_cons_of_mem _ member)

theorem Vouched.foldl_fireCommand (vouched : Vouched known drawn link) (ready : List Bytes)
    : Vouched known drawn (ready.foldl fireCommand link) := by
  induction ready generalizing link with
  | nil => exact vouched
  | cons payload rest ih => exact ih (vouched.fire trivial)

theorem Vouched.onAck (vouched : Vouched known drawn link) (rtt : Int)
    : Vouched known drawn (link.onAck rtt) := by
  unfold Link.onAck
  split
  · exact vouched
  · exact vouched.of_same rfl rfl rfl

theorem Vouched.syncClock (vouched : Vouched known drawn link) (tick : UInt32) (arrivalMs : Nat)
    : Vouched known drawn (link.syncClock tick arrivalMs) := by
  unfold Link.syncClock
  split
  · exact vouched
  · split <;> exact vouched.of_same rfl rfl rfl

theorem Vouched.feedRttFromTick (vouched : Vouched known drawn link) (tick : UInt32)
    : Vouched known drawn (link.feedRttFromTick tick moment) := by
  unfold Link.feedRttFromTick
  dsimp only
  split
  · exact vouched
  · exact vouched.onAck _

theorem Vouched.adoptRetransmit (vouched : Vouched known drawn link) (announced : Option Bool)
    : Vouched known drawn (link.adoptRetransmit announced) := by
  cases announced with
  | none => exact vouched
  | some capable => exact vouched.of_same rfl rfl rfl

theorem Vouched.adoptKey (vouched : Vouched known drawn link) (pub : Option Bytes) (clientId : UInt32)
    : Vouched known drawn (link.adoptKey identity pub clientId) := by
  cases pub with
  | none => exact vouched
  | some pub =>
      rw [adoptKey_some]
      cases derivedKey identity pub clientId with
      | none => exact vouched
      | some key => exact vouched.of_same rfl rfl rfl

theorem posted_probeDatagrams {fragment remaining fuel : Nat} {datagram : Bytes}
    (member : datagram ∈ probeDatagrams identity moment fragment remaining fuel)
    : Posted known datagram none := by
  obtain ⟨n, same⟩ := mem_probeDatagrams member
  rw [same]
  exact .control (by decide : carriesUserData PacketType.probe.code = false)

theorem Vouched.goOnline (vouched : Vouched known drawn link)
    : Vouched known drawn (link.goOnline identity moment) := by
  have announced : Vouched known drawn ((link.setState .online).firePeerEvent .online) :=
    (vouched.of_same rfl rfl rfl : Vouched known drawn (link.setState .online)).fire trivial
  rw [Link.goOnline, Link.sendSpeedTest]
  split
  · exact announced.foldl_sendRaw fun datagram => posted_probeDatagrams
  · exact announced

theorem Vouched.establish (vouched : Vouched known drawn link) : Vouched known drawn link.establish := by
  unfold Link.establish
  split
  · exact (vouched.of_same rfl rfl rfl : Vouched known drawn (link.setState .established)).fire trivial
  · exact vouched

theorem Vouched.sendHandshake (vouched : Vouched known drawn link) (apart : Apart known)
    : Vouched known drawn (link.sendHandshake identity moment) :=
  (vouched.of_same rfl rfl rfl : Vouched known drawn
    { link with peer := { link.peer with lastHandshakeSent := moment.now } }).sendKept (by decide)
      apart.handshake _

theorem Vouched.acceptHandshake (vouched : Vouched known drawn link) (apart : Apart known)
    (contents : HandshakeContents)
    : Vouched known drawn (link.acceptHandshake identity moment header contents) := by
  have named : Vouched known drawn
      ((link.syncClock header.tick moment.unixMs).resetCommands.adoptIdentity contents) :=
    (vouched.syncClock header.tick moment.unixMs).of_same rfl rfl rfl
  have adopted := @Vouched.adoptKey known drawn identity _ named contents.peerPub header.clientId
  rw [Link.acceptHandshake]
  split
  · exact (adopted.sendHandshake apart).establish.sendKept (by decide) apart.handshakeAck _
  · exact adopted.establish.sendKept (by decide) apart.handshakeAck _

theorem Vouched.handleHandshake (vouched : Vouched known drawn link) (apart : Apart known)
    : Vouched known drawn (link.handleHandshake identity moment header payload) := by
  unfold Link.handleHandshake
  split
  · exact vouched
  · rename_i contents parsed
    have adopted := vouched.adoptRetransmit contents.peerRetransmit
    dsimp only
    split
    · exact adopted.acceptHandshake apart contents
    · exact adopted

theorem Vouched.acknowledged (vouched : Vouched known drawn link)
    : Vouched known drawn (link.acknowledged identity moment header payload) := by
  have reset : Vouched known drawn (link.syncClock header.tick moment.unixMs).resetCommands :=
    (vouched.syncClock header.tick moment.unixMs).of_same rfl rfl rfl
  unfold Link.acknowledged
  split
  · exact reset
  · exact (reset.adoptRetransmit _).adoptKey _ _

theorem Vouched.handleHandshakeAck (vouched : Vouched known drawn link) (apart : Apart known)
    : Vouched known drawn (link.handleHandshakeAck identity moment header payload) := by
  have adopted := @Vouched.acknowledged known drawn identity moment header payload link vouched
  rw [handleHandshakeAck_eq]
  dsimp only
  split
  · refine Vouched.goOnline ?_
    exact (adopted.sendKept (by decide) apart.online []).of_same rfl rfl rfl
  · exact adopted

theorem Vouched.handleHeartbeat (vouched : Vouched known drawn link)
    : Vouched known drawn (link.handleHeartbeat moment header payload) := by
  unfold Link.handleHeartbeat
  split
  · have measured : Vouched known drawn
        { link with peer := { link.peer with senderRttUs := (get32 payload 0).toNat } } :=
      vouched.of_same rfl rfl rfl
    exact (measured.syncClock _ _).feedRttFromTick _
  · exact (vouched.syncClock _ _).feedRttFromTick _

theorem Vouched.handleBye (vouched : Vouched known drawn link) : Vouched known drawn link.handleBye := by
  unfold Link.handleBye
  split
  · exact (vouched.of_same rfl rfl rfl : Vouched known drawn (link.setState .closed)).fire trivial
  · exact vouched

theorem Vouched.erase (vouched : Vouched known drawn link) (seq : Nat)
    : Vouched known drawn
        { link with peer := { link.peer with pending := link.peer.pending.erase seq } } where
  msgIdOut := vouched.msgIdOut
  pending := by
    intro other entry stored
    dsimp only at stored
    rw [Std.TreeMap.getElem?_erase] at stored
    split at stored
    · cases stored
    · exact vouched.pending other entry stored
  effects := vouched.effects

theorem Vouched.handleAck (vouched : Vouched known drawn link)
    : Vouched known drawn (link.handleAck moment header) := by
  simp only [Link.handleAck]
  split
  · exact vouched
  · split
    · exact vouched
    · have sampled := (vouched.erase header.acknowledgment.toNat).onAck
        (max 0 (microseconds (moment.now - (by assumption : PendingSend).lastSend)))
      unfold Link.trySyncClock
      split
      · exact sampled.syncClock _ _
      · exact sampled

end Link

namespace Report

variable {peer : Peer} {payload : Bytes} {now : TimePoint} {seq : Nat} {entry : PendingSend}

theorem getElem?_handle_pending (stored : (handle peer payload now).1.pending[seq]? = some entry)
    : ∃ old, peer.pending[seq]? = some old ∧ old.header = entry.header
      ∧ old.payload = entry.payload := by
  have counted (resends : List (Nat × PendingSend)) (pending : Std.TreeMap Nat PendingSend)
      (stored : (resends.foldl (fun pending entry => countResend now pending entry.1) pending)[seq]?
        = some entry)
      : ∃ old, pending[seq]? = some old ∧ old.header = entry.header
        ∧ old.payload = entry.payload := by
    induction resends generalizing pending with
    | nil => exact ⟨entry, stored, rfl, rfl⟩
    | cons first rest ih =>
        obtain ⟨middle, kept, header, payload⟩ := ih _ stored
        obtain ⟨old, found, headerBefore, payloadBefore⟩ := PendingTable.getElem?_countResend kept
        exact ⟨old, found, headerBefore.trans header, payloadBefore.trans payload⟩
  unfold handle at stored
  split at stored
  · exact ⟨entry, stored, rfl, rfl⟩
  · obtain ⟨old, kept, header, payload⟩ := counted _ _ stored
    rw [Std.TreeMap.getElem?_filter', Option.filter_eq_some_iff] at kept
    exact ⟨old, kept.1, header, payload⟩

theorem resent_pending (member : entry ∈ (handle peer payload now).2)
    : ∃ seq : Nat, peer.pending[seq]? = some entry := by
  unfold handle at member
  split at member
  · exact absurd member List.not_mem_nil
  · obtain ⟨⟨seq, other⟩, resends, rfl⟩ := List.mem_map.mp member
    exact ⟨seq, Std.TreeMap.mem_toList_iff_getElem?_eq_some.mp (List.mem_filter.mp resends).1⟩

end Report

namespace Link

variable {numerics : Numerics} {known : PacketHeader → Bytes → Prop} {drawn : Nat} {identity : Identity} {moment : Moment}
  {header : PacketHeader} {payload : Bytes} {link after : Link}

theorem Vouched.handleReport (vouched : Vouched known drawn link)
    : Vouched known drawn (link.handleReport identity moment header payload) := by
  obtain ⟨ratio, pending, handled⟩ := @reportHandle_peer payload link.peer moment.now
  have sampled := @Vouched.feedRttFromTick known drawn moment link vouched header.tick
  simp only [Link.handleReport]
  refine Vouched.foldl_sendWire ?_ ?_
  · constructor
    · rw [feedRttFromTick_peer, handled]
      exact vouched.msgIdOut
    · intro seq entry stored
      obtain ⟨old, found, header, payload⟩ := Report.getElem?_handle_pending stored
      rw [feedRttFromTick_peer] at found
      rw [← header, ← payload]
      exact vouched.pending seq old found
    · exact sampled.effects
  · intro entry member
    obtain ⟨seq, found⟩ := Report.resent_pending member
    rw [feedRttFromTick_peer] at found
    exact vouched.pending seq entry found

theorem Vouched.handleCommand (vouched : Vouched known drawn link)
    : Vouched known drawn (link.handleCommand moment header payload) := by
  simp only [Link.handleCommand]
  refine Vouched.foldl_fireCommand ?_ _
  exact vouched.of_same rfl rfl rfl

theorem Vouched.handleData (vouched : Vouched known drawn link)
    (handled : link.handleData numerics identity moment header payload = .ok after)
    : Vouched known drawn after := by
  unfold Link.handleData at handled
  rcases collected : Reassembler.handleData numerics link.peer header payload
    {
      now := moment.now
      arrivalMs := moment.unixMs
      rttUs := u32 link.rttUs
      maxMessageBytes := identity.maxMessageBytes
    } with fault | ⟨peer, delivered⟩
  · rw [collected] at handled
    cases handled
  · rw [collected] at handled
    obtain ⟨late, collection, rfl⟩ := reassemblerHandleData_peer collected
    have taken : Vouched known drawn
        {
          link with
          peer := {
            link.peer with
            late := late
            tracker :=
              Reassembler.trackSequence link.peer.tracker header.sequence.toNat moment.now
            collection := collection
          }
        } :=
      vouched.of_same rfl rfl rfl
    cases delivered with
    | none =>
        cases handled
        exact taken
    | some message =>
        cases handled
        exact taken.fire trivial

theorem Vouched.dispatch (vouched : Vouched known drawn link) (apart : Apart known)
    (handled : link.dispatch numerics identity moment header payload = .ok after)
    : Vouched known drawn after := by
  unfold Link.dispatch at handled
  split at handled
  · cases handled
    exact (vouched.handleHandshake apart).sendAckPacket _
  · cases handled
    exact (vouched.handleHandshakeAck apart).sendAckPacket _
  · cases handled
    refine Vouched.sendAckPacket ?_ _
    unfold Link.handleOnline
    split
    · exact vouched.goOnline
    · exact vouched
  · cases handled
    exact vouched.handleHeartbeat
  · cases handled
    exact vouched.handleBye
  · exact vouched.handleData handled
  · exact vouched.handleData handled
  · cases handled
    exact vouched.handleAck
  · cases handled
    exact vouched.handleReport
  · cases handled
    exact vouched.of_same rfl rfl rfl
  · cases handled
    exact vouched.handleCommand
  · cases handled
    exact vouched

theorem Vouched.handlePacket (vouched : Vouched known drawn link) (apart : Apart known)
    (handled : link.handlePacket numerics identity moment header payload = .ok after)
    : Vouched known drawn after := by
  have touched : Vouched known drawn (link.touch moment header) := vouched.of_same rfl rfl rfl
  unfold Link.handlePacket at handled
  dsimp only at handled
  split at handled
  · cases handled
    exact touched
  · exact touched.dispatch apart handled

-- The reactor and the callers

theorem Vouched.sendHandshakes (vouched : Vouched known drawn link) (apart : Apart known)
    : Vouched known drawn (link.sendHandshakes identity moment) := by
  have dropped : Vouched known drawn {
      link with
      peer := {
        link.peer with
        pending :=
          link.peer.pending.filter fun _ entry => entry.header.type ≠ PacketType.handshake.code
      }
    } := by
    refine ⟨vouched.msgIdOut, fun seq entry stored => ?_, vouched.effects⟩
    dsimp only at stored
    rw [Std.TreeMap.getElem?_filter', Option.filter_eq_some_iff] at stored
    exact vouched.pending seq entry stored.1
  unfold Link.sendHandshakes
  split
  · exact vouched
  · dsimp only
    split
    · exact dropped
    · exact (dropped.sendHandshake apart).of_same rfl rfl rfl

theorem Vouched.sendHeartbeats (vouched : Vouched known drawn link)
    : Vouched known drawn (link.sendHeartbeats identity moment) := by
  unfold Link.sendHeartbeats
  split
  · exact vouched
  · split
    · exact vouched
    · exact (vouched.sendPlain (by decide) _).of_same rfl rfl rfl

theorem Vouched.sendReports (vouched : Vouched known drawn link)
    : Vouched known drawn (link.sendReports numerics identity moment) := by
  unfold Link.sendReports
  split
  · exact vouched
  · split
    · exact vouched
    · have built : Vouched known drawn {
          link with
          peer :=
            (Report.buildPayload numerics link.peer identity.config.reportInterval moment.now).1
        } :=
        vouched.of_same rfl rfl rfl
      refine Vouched.of_same (built.sendRaw (.control ?_)) rfl rfl rfl
      exact (by decide : carriesUserData PacketType.report.code = false)

theorem Vouched.checkOffline (vouched : Vouched known drawn link)
    : Vouched known drawn (link.checkOffline identity moment) := by
  have cleared (peer : Peer) (msgIdOut : peer.msgIdOut = link.peer.msgIdOut)
      (pending : peer.pending = ∅) : Vouched known drawn { link with peer := peer } := by
    refine ⟨msgIdOut.trans vouched.msgIdOut, fun seq entry stored => ?_, vouched.effects⟩
    dsimp only at stored
    rw [pending, Std.TreeMap.getElem?_emptyc] at stored
    cases stored
  unfold Link.checkOffline
  dsimp only
  split
  · exact vouched.of_same rfl rfl rfl
  · split
    · exact vouched.of_same rfl rfl rfl
    · have announced : Vouched known drawn
          (Link.firePeerEvent
            {
              link with
              peer := {
                link.peer with
                collection :=
                  expireCollection identity.config.deadTimeout moment.now link.peer.collection
                state := .closed
                pending := ∅
              }
            }
            .closed) := by
        refine Vouched.fire (cleared _ ?_ ?_) ?_
        · rfl
        · rfl
        · trivial
      split
      · exact announced.of_same rfl rfl rfl
      · exact announced

theorem Vouched.flushCommands (vouched : Vouched known drawn link)
    : Vouched known drawn (link.flushCommands moment) := by
  simp only [Link.flushCommands]
  refine Vouched.foldl_fireCommand ?_ _
  exact vouched.of_same rfl rfl rfl

theorem Vouched.sendCommand (vouched : Vouched known drawn link)
    (sendable : ∀ header payload, header.type = PacketType.command.code → known header payload)
    : Vouched known drawn (link.sendCommand identity moment payload) := by
  unfold Link.sendCommand
  split
  · exact vouched
  · refine Vouched.sendWire ?_ (sendable _ _ rfl)
    exact vouched.of_same rfl rfl rfl

/-- The header of a fragment: data packets take the next sequence. -/
def fragmentHeader (identity : Identity) (moment : Moment) (peer : Peer) (call : FragmentCall)
    : PacketHeader :=
  let header :=
    {
      call.header with
      clientId := identity.clientId
      sessionId := identity.sessionId
      tick := moment.tick
    }
  if header.type = PacketType.data.code then
    { header with sequence := UInt32.ofNat peer.sequenceOut }
  else header

/-- A fragment is sealed, and kept where both ends retransmit. -/
theorem Vouched.sendDataPacket (vouched : Vouched known drawn link) {call : FragmentCall}
    (sendable : known (fragmentHeader identity moment link.peer call) call.payload)
    : Vouched known drawn (link.sendDataPacket identity moment call) := by
  unfold fragmentHeader at sendable
  unfold Link.sendDataPacket
  dsimp only at sendable ⊢
  split
  · rename_i data
    rw [if_pos data] at sendable
    have numbered : Vouched known drawn
        { link with peer := { link.peer with sequenceOut := u32 (link.peer.sequenceOut + 1) } } :=
      vouched.of_same rfl rfl rfl
    split
    · exact (numbered.keepPending sendable _ _).sendWire sendable
    · exact numbered.sendWire sendable
  · rename_i parity
    rw [if_neg parity] at sendable
    exact vouched.sendWire sendable

end Link

end Creek.Tight
