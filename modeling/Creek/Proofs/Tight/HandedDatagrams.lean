import Creek.Proofs.Tight.Handshake
import Creek.Proofs.Tight.LockRule
import Creek.Proofs.Tight.Pacing
import Creek.Proofs.Tight.ReportRoundTrip

/-! The datagrams that are handed to the outbound queue, over whole runs. Their sizes follow from the ids,
tokens, loss lists and payloads they carry and not from the MTU, so some of them fit neither the
token bucket nor the buffer of the receiver.
-/

namespace Creek.Tight

open Library

/-- The datagram an effect hands to the outbound queue; the packets of a speed test go straight to the
socket.
-/
def Effect.handed? : Effect → Option Bytes
  | .send _ _ datagram _ =>
      if datagram.getD 5 0 = PacketType.probe.code then none else some datagram
  | _ => none

/-- The sizes of the datagrams that these effects hand over. -/
def handedSizes (effects : List Effect) : List Nat :=
  (effects.filterMap Effect.handed?).map List.length

-- Sizes

/-- The size of a handshake with the id, token and public key of this end. -/
def handshakeSize (identity : Identity) : Nat :=
  kHeaderSize + 3 + min identity.config.id.length 65535 + identity.config.token.length
    + (Link.announcedKey identity).length + 1

def handshakeAckSize (identity : Identity) : Nat :=
  kHeaderSize + (Link.announcedKey identity).length + 1

def heartbeatSize : Nat := kHeaderSize + 4

/-- The size of a report of these lost sequences. -/
def reportSize (lost : List Nat) : Nat := kHeaderSize + 16 + 4 * Report.lostCount lost

/-- The size of a packet through `build_wire_packet`: a sealed one carries a tag. -/
def wireSize (identity : Identity) (peer : Peer) (header : PacketHeader) (payload : Bytes) : Nat :=
  kHeaderSize
    + if sealsTo identity peer then (payload.length + kGcmTagSize) % 65536
      else header.payloadSize.toNat

/-- The sizes of what is sent to a peer; one without an address gets nothing. -/
def addressed (peer : Peer) (sizes : List Nat) : List Nat := if peer.addrSet then sizes else []

theorem addressed_congr {left right : Peer} (same : left.addrSet = right.addrSet) (sizes : List Nat)
    : addressed left sizes = addressed right sizes := by
  rw [addressed, addressed, same]

theorem addressed_append (peer : Peer) (front back : List Nat)
    : addressed peer front ++ addressed peer back = addressed peer (front ++ back) := by
  unfold addressed
  split <;> rfl

@[simp] theorem addressed_nil (peer : Peer) : addressed peer [] = [] := by
  unfold addressed
  split <;> rfl

namespace Link

variable {numerics : Numerics} {identity : Identity} {moment : Moment} {header : PacketHeader}
  {payload : Bytes} {link : Link}

/-- The sizes of the datagrams that a link has handed over. -/
def handed (link : Link) : List Nat := handedSizes link.effects

-- Sending

theorem handed_fire (effect : Effect)
    : (link.fire effect).handed = link.handed ++ effect.handed?.toList.map List.length := by
  rw [handed, handedSizes, fire, List.filterMap_append, List.map_append]
  rcases datagram : effect.handed? with - | bytes
  · rw [List.filterMap_cons_none datagram]
    rfl
  · rw [List.filterMap_cons_some datagram]
    rfl

theorem handed_firePeerEvent (state : LinkState)
    : (link.firePeerEvent state).handed = link.handed := by
  rw [firePeerEvent, handed_fire]
  exact List.append_nil _

theorem handed_sendRaw {datagram : Bytes} {sealed : Option Seal}
    (queued : datagram.getD 5 0 ≠ PacketType.probe.code)
    : (link.sendRaw datagram sealed).handed
      = link.handed ++ addressed link.peer [datagram.length] := by
  unfold sendRaw addressed
  split
  · rw [handed_fire, Effect.handed?, if_neg queued]
    rfl
  · rw [List.append_nil]

theorem handed_sendRaw_probe {datagram : Bytes} {sealed : Option Seal}
    (probe : datagram.getD 5 0 = PacketType.probe.code)
    : (link.sendRaw datagram sealed).handed = link.handed := by
  unfold sendRaw
  split
  · rw [handed_fire, Effect.handed?, if_pos probe]
    exact List.append_nil _
  · rfl

/-- The sizes of a packet through `build_wire_packet`, none for a probe. -/
def wireSizes (identity : Identity) (peer : Peer) (header : PacketHeader) (payload : Bytes)
    : List Nat :=
  if header.type = PacketType.probe.code then [] else [wireSize identity peer header payload]

theorem handed_sendWire
    : (link.sendWire identity header payload).handed
      = link.handed ++ addressed link.peer (wireSizes identity link.peer header payload) := by
  unfold sendWire wireSizes
  split
  · rename_i probe
    rw [handed_sendRaw_probe, addressed_nil, List.append_nil]
    rw [getD_buildWirePacket, probe]
  · rename_i queued
    rw [handed_sendRaw, length_buildWirePacket, wireSize]
    rwa [getD_buildWirePacket]

theorem handed_sendControl {type : PacketType} (queued : type.code ≠ PacketType.probe.code)
    (payload : Bytes) (ackable : Bool)
    : (link.sendControl identity moment type payload ackable).handed
      = link.handed ++ addressed link.peer [kHeaderSize + payload.length] := by
  have size (header : PacketHeader) : (PacketCodec.encode header payload).length
      = kHeaderSize + payload.length :=
    length_finalizeCrc header payload
  have typed (header : PacketHeader) (same : header.type = type.code)
      : (PacketCodec.encode header payload).getD 5 0 ≠ PacketType.probe.code := by
    rw [getD_encode, same]
    exact queued
  unfold sendControl
  cases ackable with
  | true =>
      refine (handed_sendRaw ?_).trans ?_
      · exact typed _ rfl
      · rw [size]
        rfl
  | false =>
      refine (handed_sendRaw ?_).trans ?_
      · exact typed _ rfl
      · rw [size]

theorem handed_sendAckPacket (ack : UInt32)
    : (link.sendAckPacket identity moment ack).handed
      = link.handed ++ addressed link.peer [kHeaderSize] := by
  unfold sendAckPacket
  rw [handed_sendRaw, PacketCodec.encode, PacketCodec.encodeTo, length_finalizeCrc]
  · rfl
  · rw [getD_encode]
    exact (by decide : PacketType.ack.code ≠ PacketType.probe.code)

theorem handshakePayload_size
    : kHeaderSize + (handshakePayload identity).length = handshakeSize identity := by
  simp only [handshakePayload, handshakeSize, capabilities, List.length_append, List.length_take,
    List.length_cons, List.length_nil]
  omega

theorem handed_sendHandshake
    : (link.sendHandshake identity moment).handed
      = link.handed ++ addressed link.peer [handshakeSize identity] := by
  rw [sendHandshake, handed_sendControl (by decide), handshakePayload_size]
  rfl

theorem handed_foldl_probes {datagrams : List Bytes}
    (probes : ∀ datagram ∈ datagrams, datagram.getD 5 0 = PacketType.probe.code)
    : (datagrams.foldl (fun link datagram => link.sendRaw datagram none) link).handed
      = link.handed := by
  induction datagrams generalizing link with
  | nil => rfl
  | cons datagram rest ih =>
      rw [List.foldl_cons, ih fun other member => probes other (List.mem_cons_of_mem _ member)]
      exact handed_sendRaw_probe (probes datagram List.mem_cons_self)

theorem handed_sendSpeedTest : (link.sendSpeedTest identity moment).handed = link.handed := by
  unfold sendSpeedTest
  split
  · exact handed_foldl_probes probeDatagrams_probe
  · rfl

theorem handed_goOnline : (link.goOnline identity moment).handed = link.handed := by
  rw [goOnline, handed_sendSpeedTest, handed_firePeerEvent]
  rfl

-- Handshakes

theorem handed_syncClock (tick : UInt32) (arrivalMs : Nat)
    : (link.syncClock tick arrivalMs).handed = link.handed := by
  unfold syncClock
  split
  · rfl
  · split <;> rfl

theorem handed_adoptRetransmit (announced : Option Bool)
    : (link.adoptRetransmit announced).handed = link.handed := by
  cases announced <;> rfl

theorem handed_adoptKey (pub : Option Bytes) (clientId : UInt32)
    : (link.adoptKey identity pub clientId).handed = link.handed := by
  cases pub with
  | none => rfl
  | some pub =>
      rw [adoptKey_some]
      cases derivedKey identity pub clientId <;> rfl

theorem handed_establish : link.establish.handed = link.handed := by
  unfold establish
  split
  · rw [handed_firePeerEvent]
    rfl
  · rfl

/-- The sizes of the answers to an accepted handshake. -/
def acceptedSizes (identity : Identity) (peer : Peer) : List Nat :=
  (if peer.reconnect then [] else [handshakeSize identity]) ++ [handshakeAckSize identity]

theorem length_acknowledgement
    : kHeaderSize + (announcedKey identity ++ capabilities identity).length
      = handshakeAckSize identity := by
  rw [handshakeAckSize, List.length_append, ← Nat.add_assoc]
  rfl

theorem handed_answers
    : ((if ¬link.peer.reconnect ∧ link.peer.addrSet then link.sendHandshake identity moment
          else link).establish.sendControl identity moment .handshakeAck
            (announcedKey identity ++ capabilities identity) true).handed
      = link.handed ++ addressed link.peer (acceptedSizes identity link.peer) := by
  rw [handed_sendControl (by decide), length_acknowledgement, handed_establish, establish_peer,
    acceptedSizes, ← addressed_append, ← List.append_assoc]
  by_cases reconnect : link.peer.reconnect = true
  · rw [if_neg fun both => both.1 reconnect, if_pos reconnect, addressed_nil, List.append_nil]
    rfl
  · rw [if_neg reconnect]
    by_cases addrSet : link.peer.addrSet = true
    · rw [if_pos ⟨reconnect, addrSet⟩, handed_sendHandshake]
      refine congrArg _ (addressed_congr ?_ _)
      rw [sendHandshake, sendControl_peer]
      rfl
    · rw [if_neg fun both => addrSet both.2]
      simp [addressed, addrSet]

theorem handed_acceptHandshake (contents : HandshakeContents)
    : (link.acceptHandshake identity moment header contents).handed
      = link.handed ++ addressed link.peer (acceptedSizes identity link.peer) := by
  obtain ⟨clock, synced⟩ := syncClock_peer link header.tick moment.unixMs
  have kept : ((link.syncClock header.tick moment.unixMs).resetCommands.adoptIdentity
      contents).handed = link.handed :=
    handed_syncClock _ _
  rw [acceptHandshake]
  refine handed_answers.trans ?_
  rw [handed_adoptKey, kept, adoptKey_peer]
  simp only [adoptIdentity, resetCommands, synced]
  rfl

/-- The sizes of the answers to a handshake: none unless its token matches. -/
def handshakeAnswers (identity : Identity) (peer : Peer) (payload : Bytes) : List Nat :=
  match parseHandshake identity.config.encryptionEnabled payload with
  | none => []
  | some contents =>
      if contents.token = identity.config.token then acceptedSizes identity peer else []

theorem handed_handleHandshake
    : (link.handleHandshake identity moment header payload).handed
      = link.handed ++ addressed link.peer (handshakeAnswers identity link.peer payload) := by
  unfold handleHandshake handshakeAnswers
  rcases parseHandshake identity.config.encryptionEnabled payload with - | contents
  · exact (List.append_nil _).symm.trans (congrArg _ (addressed_nil _).symm)
  · dsimp only
    split
    · rw [handed_acceptHandshake, handed_adoptRetransmit, adoptRetransmit_peer]
      rfl
    · rw [handed_adoptRetransmit, addressed_nil, List.append_nil]

/-- The answer to a handshake acknowledgement. -/
def acknowledgedSizes (peer : Peer) : List Nat :=
  if peer.state = .handshake ∨ peer.state = .established then [kHeaderSize] else []

/-- The answer of a link that has read a handshake acknowledgement. -/
theorem handed_online
    : (if link.peer.state = .handshake ∨ link.peer.state = .established then
          let answered := link.sendControl identity moment .online [] true
          let ready := { answered with peer := { answered.peer with handshakeBackoff := 500000000 } }
          ready.goOnline identity moment
        else link).handed
      = link.handed ++ addressed link.peer (acknowledgedSizes link.peer) := by
  unfold acknowledgedSizes
  split
  · rw [handed_goOnline]
    exact handed_sendControl (by decide) _ _
  · rw [addressed_nil, List.append_nil]

theorem handed_handleHandshakeAck
    : (link.handleHandshakeAck identity moment header payload).handed
      = link.handed ++ addressed link.peer (acknowledgedSizes link.peer) := by
  obtain ⟨clock, synced⟩ := syncClock_peer link header.tick moment.unixMs
  have kept : (link.syncClock header.tick moment.unixMs).resetCommands.handed = link.handed :=
    handed_syncClock _ _
  unfold handleHandshakeAck
  refine handed_online.trans ?_
  rcases payload.getLast? with - | flags
  · dsimp only
    rw [kept]
    simp only [resetCommands, synced]
    rfl
  · dsimp only
    rw [handed_adoptKey, handed_adoptRetransmit, kept, adoptKey_peer, adoptRetransmit_peer]
    simp only [resetCommands, synced]
    rfl

-- The other handlers

theorem handed_handleOnline : (link.handleOnline identity moment).handed = link.handed := by
  unfold handleOnline
  split
  · exact handed_goOnline
  · rfl

theorem handed_onAck (rtt : Int) : (link.onAck rtt).handed = link.handed := by
  unfold onAck
  split <;> rfl

theorem handed_feedRttFromTick (tick : UInt32)
    : (link.feedRttFromTick tick moment).handed = link.handed := by
  simp only [feedRttFromTick]
  split
  · rfl
  · exact handed_onAck _

theorem handed_handleHeartbeat
    : (link.handleHeartbeat moment header payload).handed = link.handed := by
  unfold handleHeartbeat
  rw [handed_feedRttFromTick, handed_syncClock]
  split <;> rfl

theorem handed_handleBye : link.handleBye.handed = link.handed := by
  unfold handleBye
  split
  · rw [handed_firePeerEvent]
    rfl
  · rfl

theorem handed_handleAck : (link.handleAck moment header).handed = link.handed := by
  simp only [handleAck]
  split
  · rfl
  · split
    · rfl
    · unfold trySyncClock
      split
      · rw [handed_syncClock, handed_onAck]
        rfl
      · rw [handed_onAck]
        rfl

theorem handed_foldl_fireCommand (ready : List Bytes)
    : (ready.foldl fireCommand link).handed = link.handed := by
  induction ready generalizing link with
  | nil => rfl
  | cons payload rest ih =>
      rw [List.foldl_cons, ih, fireCommand, handed_fire]
      exact List.append_nil _

theorem handed_handleCommand
    : (link.handleCommand moment header payload).handed = link.handed := by
  simp only [handleCommand]
  exact handed_foldl_fireCommand _

theorem handed_handleData {after : Link}
    (handled : link.handleData numerics identity moment header payload = .ok after)
    : after.handed = link.handed := by
  rw [handleData] at handled
  obtain ⟨⟨peer, delivered⟩, -, handled⟩ := ok_of_bind handled
  cases delivered with
  | none =>
      cases handled
      rfl
  | some message =>
      cases handled
      exact (handed_fire _).trans (List.append_nil _)

/-- The sizes of the packets that a report has resent. -/
def resentSizes (identity : Identity) (moment : Moment) (peer : Peer) (payload : Bytes) : List Nat :=
  (Report.handle peer payload moment.now).2.flatMap fun entry =>
    wireSizes identity peer entry.header entry.payload

theorem handed_foldl_sendWire (entries : List PendingSend)
    : (entries.foldl (fun link entry => link.sendWire identity entry.header entry.payload)
          link).handed
      = link.handed ++ addressed link.peer (entries.flatMap fun entry =>
          wireSizes identity link.peer entry.header entry.payload) := by
  induction entries generalizing link with
  | nil => rw [List.flatMap_nil, addressed_nil, List.append_nil]; rfl
  | cons entry rest ih =>
      rw [List.foldl_cons, ih, handed_sendWire, sendWire_peer, List.append_assoc, addressed_append,
        List.flatMap_cons]

theorem handed_handleReport
    : (link.handleReport identity moment header payload).handed
      = link.handed ++ addressed link.peer (resentSizes identity moment link.peer payload) := by
  obtain ⟨ratio, pending, same⟩ := @reportHandle_peer payload link.peer moment.now
  have sampled : (link.feedRttFromTick header.tick moment).handed = link.handed :=
    handed_feedRttFromTick _
  simp only [handleReport, feedRttFromTick_peer]
  rw [handed_foldl_sendWire, resentSizes]
  simp only [same]
  exact congrArg₂ _ sampled rfl

-- One packet

/-- The sizes of what a received packet has a link hand over, by the type of the packet. -/
def answerSizes (identity : Identity) (moment : Moment) (header : PacketHeader) (payload : Bytes)
    (link : Link)
    : List Nat :=
  let link := link.touch moment header
  match openPayload link.peer header payload with
  | none => []
  | some (header, payload) =>
      match PacketType.ofCode? header.type with
      | some .handshake => handshakeAnswers identity link.peer payload ++ [kHeaderSize]
      | some .handshakeAck => acknowledgedSizes link.peer ++ [kHeaderSize]
      | some .online => [kHeaderSize]
      | some .report => resentSizes identity moment link.peer payload
      | _ => []

theorem sendControl_addrSet (type : PacketType) (payload : Bytes) (ackable : Bool)
    : (link.sendControl identity moment type payload ackable).peer.addrSet = link.peer.addrSet := by
  rw [sendControl_peer]
  split <;> rfl

theorem handleHandshake_addrSet
    : (link.handleHandshake identity moment header payload).peer.addrSet = link.peer.addrSet := by
  unfold handleHandshake
  rcases parseHandshake identity.config.encryptionEnabled payload with - | contents
  · rfl
  · obtain ⟨clock, synced⟩ := syncClock_peer (link.adoptRetransmit contents.peerRetransmit)
      header.tick moment.unixMs
    rw [adoptRetransmit_peer] at synced
    have adopted : (((((link.adoptRetransmit contents.peerRetransmit).syncClock header.tick
        moment.unixMs).resetCommands).adoptIdentity contents).adoptKey identity contents.peerPub
          header.clientId).peer.addrSet = link.peer.addrSet := by
      rw [adoptKey_peer]
      simp only [adoptIdentity, resetCommands, synced]
    dsimp only
    split
    · rw [acceptHandshake, sendControl_addrSet, establish_peer]
      dsimp only
      split
      · rw [sendHandshake, sendControl_addrSet]
        exact adopted
      · exact adopted
    · rw [adoptRetransmit_peer]

theorem handleHandshakeAck_addrSet
    : (link.handleHandshakeAck identity moment header payload).peer.addrSet = link.peer.addrSet := by
  have finish : ∀ next : Link, next.peer.addrSet = link.peer.addrSet
      → (if next.peer.state = .handshake ∨ next.peer.state = .established then
            let answered := next.sendControl identity moment .online [] true
            let ready := { answered with peer := { answered.peer with handshakeBackoff := 500000000 } }
            ready.goOnline identity moment
          else next).peer.addrSet = link.peer.addrSet := by
    intro next same
    split
    · rw [goOnline_peer]
      exact (sendControl_addrSet .online [] true).trans same
    · exact same
  obtain ⟨clock, synced⟩ := syncClock_peer link header.tick moment.unixMs
  unfold handleHandshakeAck
  refine finish _ ?_
  rcases payload.getLast? with - | flags
  · simp only [resetCommands, synced]
  · dsimp only
    rw [adoptKey_peer, adoptRetransmit_peer]
    simp only [resetCommands, synced]

theorem handed_acknowledged {next : Link} {sizes : List Nat}
    (handed : next.handed = link.handed ++ addressed link.peer sizes)
    (same : next.peer.addrSet = link.peer.addrSet) (ack : UInt32)
    : (next.sendAckPacket identity moment ack).handed
      = link.handed ++ addressed link.peer (sizes ++ [kHeaderSize]) := by
  rw [handed_sendAckPacket, handed, addressed_congr same, List.append_assoc, addressed_append]

theorem handed_handlePacket {after : Link}
    (handled : link.handlePacket numerics identity moment header payload = .ok after)
    : after.handed
      = link.handed ++ addressed link.peer (link.answerSizes identity moment header payload) := by
  have quiet {next : Link} (same : next.handed = link.handed)
      : next.handed = link.handed ++ addressed link.peer [] := by
    rw [addressed_nil, List.append_nil, same]
  rw [handlePacket] at handled
  rw [answerSizes]
  rcases opened : openPayload (link.touch moment header).peer header payload with
    - | ⟨openHeader, openBytes⟩
  · rw [opened] at handled
    obtain rfl := Except.ok.inj handled
    exact quiet rfl
  · rw [opened] at handled
    simp only [dispatch] at handled ⊢
    rcases kind : PacketType.ofCode? openHeader.type with - | type
    · rw [kind] at handled
      obtain rfl := Except.ok.inj handled
      exact quiet rfl
    rw [kind] at handled
    cases type with
    | handshake =>
        obtain rfl := Except.ok.inj handled
        exact handed_acknowledged handed_handleHandshake handleHandshake_addrSet _
    | handshakeAck =>
        obtain rfl := Except.ok.inj handled
        exact handed_acknowledged handed_handleHandshakeAck handleHandshakeAck_addrSet _
    | online =>
        obtain rfl := Except.ok.inj handled
        rw [handed_sendAckPacket, handed_handleOnline, handleOnline_peer]
        rfl
    | heartbeat =>
        obtain rfl := Except.ok.inj handled
        exact quiet handed_handleHeartbeat
    | bye =>
        obtain rfl := Except.ok.inj handled
        exact quiet handed_handleBye
    | data =>
        have collected : (link.touch moment header).handleData numerics identity moment openHeader
            openBytes = .ok after := handled
        have same : after.handed = (link.touch moment header).handed := handed_handleData collected
        exact quiet same
    | parity =>
        have collected : (link.touch moment header).handleData numerics identity moment openHeader
            openBytes = .ok after := handled
        have same : after.handed = (link.touch moment header).handed := handed_handleData collected
        exact quiet same
    | ack =>
        obtain rfl := Except.ok.inj handled
        exact quiet handed_handleAck
    | report =>
        obtain rfl := Except.ok.inj handled
        exact handed_handleReport
    | probe =>
        obtain rfl := Except.ok.inj handled
        exact quiet rfl
    | command =>
        obtain rfl := Except.ok.inj handled
        exact quiet handed_handleCommand

-- The reactor and the callers

/-- The header of a command that is sent next. -/
def commandHeader (identity : Identity) (moment : Moment) (payload : Bytes) (peer : Peer)
    : PacketHeader :=
  {
    Link.header identity moment .command with
    sequence := UInt32.ofNat peer.command.seqOut
    payloadSize := UInt16.ofNat payload.length
  }

/-- The size of a command, if the link is online. -/
def commandSizes (identity : Identity) (moment : Moment) (payload : Bytes) (peer : Peer)
    : List Nat :=
  if peer.state = .online then
    [wireSize identity peer (commandHeader identity moment payload peer) payload]
  else
    []

theorem handed_sendCommand
    : (link.sendCommand identity moment payload).handed
      = link.handed ++ addressed link.peer (commandSizes identity moment payload link.peer) := by
  unfold sendCommand commandSizes
  by_cases online : link.peer.state = .online
  · rw [if_neg (not_not.mpr online), if_pos online]
    exact handed_sendWire
  · rw [if_pos online, if_neg online, addressed_nil, List.append_nil]

theorem wireSizes_fragment {call : FragmentCall} {header : PacketHeader}
    (type : header.type = call.header.type) (size : header.payloadSize = call.header.payloadSize)
    {left right : Peer} (ready : left.cryptoReady = right.cryptoReady)
    : wireSizes identity left header call.payload
      = [wireSize identity right call.header call.payload] := by
  have queued : call.header.type ≠ PacketType.probe.code := by
    rw [FragmentCall.header]
    dsimp only
    split <;> decide
  rw [wireSizes, type, if_neg queued, wireSize, wireSize, sealsTo, sealsTo, ready, size]

theorem handed_sendDataPacket {call : FragmentCall}
    : (link.sendDataPacket identity moment call).handed
      = link.handed ++ addressed link.peer [wireSize identity link.peer call.header call.payload] := by
  simp only [sendDataPacket]
  split
  · split
    · rw [handed_sendWire, wireSizes_fragment]
      all_goals rfl
    · rw [handed_sendWire, wireSizes_fragment]
      all_goals rfl
  · rw [handed_sendWire, wireSizes_fragment]
    all_goals rfl

/-- The size of a repeated handshake, if it is due. -/
def repeatedSizes (identity : Identity) (moment : Moment) (peer : Peer) : List Nat :=
  if peer.state = .handshake ∧ peer.handshakeBackoff ≤ moment.now - peer.lastHandshakeSent then
    [handshakeSize identity]
  else
    []

theorem handed_sendHandshakes
    : (link.sendHandshakes identity moment).handed
      = link.handed ++ addressed link.peer (repeatedSizes identity moment link.peer) := by
  unfold sendHandshakes repeatedSizes
  split
  · rename_i other
    rw [if_neg fun due => other due.1, addressed_nil, List.append_nil]
  · rename_i waiting
    dsimp only
    split
    · rename_i early
      rw [if_neg fun due => not_le.mpr early due.2, addressed_nil, List.append_nil]
      rfl
    · rename_i late
      rw [if_pos ⟨Decidable.not_not.mp waiting, not_lt.mp late⟩]
      exact handed_sendHandshake

/-- The size of a heartbeat, if it is due. -/
def heartbeatSizes (identity : Identity) (moment : Moment) (peer : Peer) : List Nat :=
  if linked peer ∧ identity.config.heartbeat ≤ moment.now - peer.lastHeartbeatSent then
    [heartbeatSize]
  else
    []

theorem handed_sendHeartbeats
    : (link.sendHeartbeats identity moment).handed
      = link.handed ++ addressed link.peer (heartbeatSizes identity moment link.peer) := by
  unfold sendHeartbeats heartbeatSizes
  split
  · rename_i down
    rw [if_neg fun due => down due.1, addressed_nil, List.append_nil]
  · rename_i up
    split
    · rename_i early
      rw [if_neg fun due => not_le.mpr early due.2, addressed_nil, List.append_nil]
    · rename_i late
      rw [if_pos ⟨Decidable.not_not.mp up, not_lt.mp late⟩]
      exact handed_sendControl (by decide) _ _

/-- The size of a report of the gaps that are due, if it is due itself. -/
def reportSizes (identity : Identity) (moment : Moment) (peer : Peer) : List Nat :=
  if linked peer ∧ identity.config.reportInterval ≤ moment.now - peer.lastReportSent then
    [reportSize (Report.lostOf peer identity.config.reportInterval moment.now)]
  else
    []

theorem length_buildPayload (peer : Peer) (reportInterval : Int) (now : TimePoint)
    : kHeaderSize + (Report.buildPayload numerics peer reportInterval now).2.length
      = reportSize (Report.lostOf peer reportInterval now) := by
  rw [Report.buildPayload, reportSize, ← Report.scan_lost]
  dsimp only
  rw [Report.length_encode]
  omega

theorem handed_sendReports
    : (link.sendReports numerics identity moment).handed
      = link.handed ++ addressed link.peer (reportSizes identity moment link.peer) := by
  unfold sendReports reportSizes
  split
  · rename_i down
    rw [if_neg fun due => down due.1, addressed_nil, List.append_nil]
  · rename_i up
    split
    · rename_i early
      rw [if_neg fun due => not_le.mpr early due.2, addressed_nil, List.append_nil]
    · rename_i late
      rw [if_pos ⟨Decidable.not_not.mp up, not_lt.mp late⟩, ← @length_buildPayload numerics]
      refine (handed_sendRaw ?_).trans ?_
      · rw [getD_encode]
        exact (by decide : PacketType.report.code ≠ PacketType.probe.code)
      · rw [PacketCodec.encode, PacketCodec.encodeTo, length_finalizeCrc]
        rfl

theorem handed_checkOffline : (link.checkOffline identity moment).handed = link.handed := by
  unfold checkOffline
  dsimp only
  split
  · rfl
  · split
    · rfl
    · split
      · exact handed_firePeerEvent _
      · exact handed_firePeerEvent _

theorem handed_flushCommands : (link.flushCommands moment).handed = link.handed := by
  simp only [flushCommands]
  exact handed_foldl_fireCommand _

end Link

-- Steps

namespace Transport

variable {numerics : Numerics} {identity : Identity} {transport after : Transport}
  {occurrence : Occurrence} {outputs : List Effect}

/-- The sizes of the datagrams that a step hands over, from the state before it. -/
def plannedSizes (transport : Transport) (occurrence : Occurrence) : List Nat :=
  let identity := transport.identity
  let moment := occurrence.moment
  let visited (key : Bytes) (sizes : Peer → List Nat) : List Nat :=
    transport.peers[key]?.toList.flatMap fun peer => addressed peer (sizes peer)
  match occurrence.event with
  | .connect _ _ => [handshakeSize identity]
  | .datagram source bytes draw =>
      (PacketCodec.decode (bytes.take 2048)).toList.flatMap fun packet =>
        let found := transport.findOrCreatePeerByAddr moment source draw
        found.1.peers[found.2]?.toList.flatMap fun peer =>
          addressed peer (Link.answerSizes identity moment packet.1 packet.2
            { key := found.2, peer := peer, rttUs := found.1.rttUs })
  | .sendCommand peerId payload =>
      if payload.length > transport.maxCommandBytes then []
      else
        (transport.findPeer peerId).toList.flatMap fun key =>
          visited key (Link.commandSizes identity moment payload)
  | .fragment =>
      transport.encoding.head?.toList.flatMap fun entry =>
        visited entry.1 fun peer => [wireSize identity peer entry.2.header entry.2.payload]
  | .sendHandshakes key => visited key (Link.repeatedSizes identity moment)
  | .sendHeartbeats key => visited key (Link.heartbeatSizes identity moment)
  | .sendReports key => visited key (Link.reportSizes identity moment)
  | _ => []

theorem handed_visit {key : Bytes} {body : Link → Except Fault Link} (sizes : Peer → List Nat)
    (each : ∀ (peer : Peer) (next : Link),
      body { key := key, peer := peer, rttUs := transport.rttUs } = .ok next
      → next.handed = addressed peer (sizes peer))
    (taken : transport.visit key body = .ok (after, outputs))
    : handedSizes outputs
      = transport.peers[key]?.toList.flatMap fun peer => addressed peer (sizes peer) := by
  rcases visit_cases taken with ⟨missing, -, rfl⟩ | ⟨peer, next, found, ran, -, rfl⟩
  · rw [missing]
    rfl
  · rw [found, Option.toList_some, List.flatMap_cons, List.flatMap_nil, List.append_nil]
    exact each peer next ran

theorem handed_visit_ok {key : Bytes} {body : Link → Link} (sizes : Peer → List Nat)
    (each : ∀ link : Link, (body link).handed = link.handed ++ addressed link.peer (sizes link.peer))
    (taken : transport.visit key (fun link => .ok (body link)) = .ok (after, outputs))
    : handedSizes outputs
      = transport.peers[key]?.toList.flatMap fun peer => addressed peer (sizes peer) := by
  refine handed_visit sizes (fun peer next ran => ?_) taken
  obtain rfl := Except.ok.inj ran
  exact each _

theorem handed_visit_quiet {key : Bytes} {body : Link → Link}
    (each : ∀ link : Link, (body link).handed = link.handed)
    (taken : transport.visit key (fun link => .ok (body link)) = .ok (after, outputs))
    : handedSizes outputs = [] := by
  have nothing := handed_visit_ok (fun _ => []) (fun link => by
    rw [each, addressed_nil, List.append_nil]) taken
  rw [nothing]
  cases transport.peers[key]? with
  | none => rfl
  | some peer => simp

theorem addPeer_addressed (moment : Moment) (remoteId : Bytes) (addr : AddrKey)
    : ∃ peer, (transport.addPeer moment remoteId addr).peers[remoteId]? = some peer
      ∧ peer.addrSet = true := by
  unfold addPeer
  dsimp only
  rw [Std.TreeMap.getElem?_insert_self]
  exact ⟨_, rfl, rfl⟩

/-- What a step hands over is as long as planned, whatever the state. -/
theorem handed_eq_planned (taken : step numerics transport occurrence = .ok (after, outputs))
    : handedSizes outputs = transport.plannedSizes occurrence := by
  obtain ⟨moment, event⟩ := occurrence
  cases event with
  | connect remoteId addr =>
      obtain ⟨peer, stored, addrSet⟩ := @addPeer_addressed transport moment remoteId addr
      rw [handed_visit_ok (fun _ => [handshakeSize transport.identity])
        (fun link => Link.handed_sendHandshake) taken, stored]
      simp [plannedSizes, addressed, addrSet]
  | datagram source bytes draw =>
      rw [step] at taken
      simp only [receive] at taken
      rw [plannedSizes]
      dsimp only
      rcases decoded : PacketCodec.decode (bytes.take 2048) with - | ⟨header, payload⟩
      · rw [decoded] at taken
        cases taken
        rfl
      · rw [decoded] at taken
        have unchanged := @findOrCreatePeerByAddr_identity transport moment source draw
        rw [Option.toList_some, List.flatMap_cons, List.flatMap_nil, List.append_nil]
        refine handed_visit (fun peer => Link.answerSizes transport.identity moment header payload
            {
              key := (transport.findOrCreatePeerByAddr moment source draw).2
              peer := peer
              rttUs := (transport.findOrCreatePeerByAddr moment source draw).1.rttUs
            })
          (fun peer next ran => ?_) taken
        rw [← unchanged]
        exact Link.handed_handlePacket ran
  | sendCommand peerId payload =>
      rw [step] at taken
      rw [plannedSizes]
      dsimp only at taken ⊢
      split at taken
      · rename_i long
        cases taken
        rw [if_pos long]
        rfl
      · rename_i short
        rw [if_neg short]
        rcases found : transport.findPeer peerId with - | key
        · rw [found] at taken
          cases taken
          rfl
        · rw [found] at taken
          rw [Option.toList_some, List.flatMap_cons, List.flatMap_nil, List.append_nil]
          exact handed_visit_ok _ (fun link => Link.handed_sendCommand) taken
  | processSend peerId payload =>
      cases taken
      rfl
  | encode =>
      cases taken
      rfl
  | fragment =>
      rw [step] at taken
      rw [plannedSizes]
      dsimp only at taken ⊢
      rcases calls : transport.encoding with - | ⟨⟨key, call⟩, rest⟩
      · rw [calls] at taken
        cases taken
        rfl
      · rw [calls] at taken
        rw [List.head?_cons, Option.toList_some, List.flatMap_cons, List.flatMap_nil, List.append_nil]
        have sent := @handed_visit_ok { transport with encoding := rest } after outputs key
          (Link.sendDataPacket transport.identity moment call)
          (fun peer => [wireSize transport.identity peer call.header call.payload])
          (fun link => Link.handed_sendDataPacket) taken
        exact sent
  | sendHandshakes key => exact handed_visit_ok _ (fun link => Link.handed_sendHandshakes) taken
  | sendHeartbeats key => exact handed_visit_ok _ (fun link => Link.handed_sendHeartbeats) taken
  | sendReports key => exact handed_visit_ok _ (fun link => Link.handed_sendReports) taken
  | checkOffline key => exact handed_visit_quiet (fun link => Link.handed_checkOffline) taken
  | flushCommands key => exact handed_visit_quiet (fun link => Link.handed_flushCommands) taken

-- Runs

/-- The datagrams that a step hands over pass the pacer and the receiver. -/
def HandsPassing (mtu : Nat) (stage : Stage Transport Occurrence Effect) : Prop :=
  ∀ effect ∈ stage.outputs, ∀ datagram, effect.handed? = some datagram → Passes mtu datagram

theorem handsPassing_iff {mtu : Nat} {stage : Stage Transport Occurrence Effect}
    : HandsPassing mtu stage
      ↔ ∀ size ∈ handedSizes stage.outputs, size ≤ min (4 * mtu) kReceiveBuffer := by
  simp only [HandsPassing, handedSizes, List.forall_mem_map, List.mem_filterMap, passes_iff,
    forall_exists_index, and_imp]
  exact ⟨fun all datagram effect member handed => all effect member datagram handed,
    fun all effect member datagram handed => all datagram effect member handed⟩

/-- In every run all datagrams that are handed over pass the pacer and the receiver exactly when no step
plans one beyond four times the MTU or beyond the buffer of the receiver.
-/
theorem passing_iff {history : List (Stage Transport Occurrence Effect)} {last : Transport}
    (run : Run (step numerics) (fun _ _ _ => True) (initial identity) history last)
    : (∀ stage ∈ history, HandsPassing identity.config.mtu stage)
      ↔ ∀ stage ∈ history, ∀ size ∈ stage.before.plannedSizes stage.event,
          size ≤ min (4 * identity.config.mtu) kReceiveBuffer := by
  refine forall₂_congr fun stage member => ?_
  obtain ⟨front, back, split⟩ := List.append_of_mem member
  obtain ⟨-, -, after, taken⟩ := run.at_stage split
  rw [handsPassing_iff, handed_eq_planned taken]

/-- In such a run both loops empty a queue of what has been handed over. -/
theorem exists_emptied {history : List (Stage Transport Occurrence Effect)} {last : Transport}
    (run : Run (step numerics) (fun _ _ _ => True) (initial identity) history last)
    (planned : ∀ stage ∈ history, ∀ size ∈ stage.before.plannedSizes stage.event,
      size ≤ min (4 * identity.config.mtu) kReceiveBuffer)
    {outbound : Outbound identity.config.mtu}
    (handed : ∀ datagram ∈ outbound.waiting,
      ∃ stage ∈ history, ∃ effect ∈ stage.outputs, effect.handed? = some datagram)
    : (∀ clock : Stream' Reading, Diverges clock
        → ∃ count, (outbound.senderLoop (clock.take count)).sent = outbound.sent ++ outbound.waiting)
      ∧ ∀ calls : Stream' (Reading × List Reading), Diverges (calls.map Prod.fst)
        → ∃ count, (Outbound.turns Outbound.reactorCall (calls.take count) outbound).sent
            = outbound.sent ++ outbound.waiting := by
  have fits : ∀ datagram ∈ outbound.waiting,
      datagram.length ≤ 4 * identity.config.mtu ∧ datagram.length ≤ 2048 := by
    intro datagram member
    obtain ⟨stage, staged, effect, sent, same⟩ := handed datagram member
    have passes := (passing_iff run).mpr planned stage staged effect sent datagram same
    exact ⟨passes.capped, passes.received⟩
  refine ⟨fun clock diverges => ?_, fun calls diverges => ?_⟩
  · have passing : Diverges (clock.map id) := diverges
    exact Outbound.attempt_serves.exists_emptied fits passing
  · exact Outbound.reactorCall_serves.exists_emptied fits diverges

theorem run_connect (identity : Identity)
    : ∃ outputs last, Run (step default) (fun _ _ _ => True) (initial identity)
        [{
          before := initial identity
          event := ⟨⟨0, 0⟩, .connect [] stranger⟩
          outputs := outputs
        }] last := by
  obtain ⟨peer, stored, -⟩ := @addPeer_addressed (initial identity) ⟨0, 0⟩ [] stranger
  have taken := visit_stored stored fun link => link.sendHandshake identity ⟨0, 0⟩
  exact ⟨_, _, Run.next .start trivial taken⟩

/-- With the default MTU and a short token the handshake passes. -/
theorem short_token_passes
    : ∃ history last, history ≠ []
      ∧ Run (step default) (fun _ _ _ => True)
          (initial { config := { token := List.replicate 32 0 }, publicKey := List.replicate 32 0 })
          history last
      ∧ ∀ stage ∈ history, HandsPassing 1350 stage := by
  obtain ⟨outputs, last, run⟩ := run_connect
    { config := { token := List.replicate 32 0 }, publicKey := List.replicate 32 0 }
  refine ⟨_, last, List.cons_ne_nil _ _, run, (passing_iff run).mpr ?_⟩
  rw [List.forall_mem_singleton]
  intro size planned
  have fits : handshakeSize
      { config := { token := List.replicate 32 0 }, publicKey := List.replicate 32 0 }
        ≤ min (4 * 1350) kReceiveBuffer := by
    decide
  rw [List.mem_singleton.mp planned]
  exact fits

/-- A token of 6000 bytes makes a handshake of 6084: the bucket of the default MTU holds 5400 tokens, so
neither loop ever sends it.
-/
theorem long_token_blocks
    : ∃ identity : Identity, ∃ history last,
      identity.config.mtu = 1350
      ∧ Run (step default) (fun _ _ _ => True) (initial identity) history last
      ∧ (¬∀ stage ∈ history, HandsPassing identity.config.mtu stage)
      ∧ ∃ stage ∈ history, ∃ effect ∈ stage.outputs, ∃ datagram,
          effect.handed? = some datagram
          ∧ ∀ (outbound : Outbound identity.config.mtu) (queue : List Bytes),
            outbound.waiting = datagram :: queue
            → (∀ readings, (outbound.senderLoop readings).sent = outbound.sent)
              ∧ ∀ calls, (Outbound.turns Outbound.reactorCall calls outbound).sent
                  = outbound.sent := by
  obtain ⟨outputs, last, run⟩ := run_connect
    { config := { token := List.replicate 6000 0 }, publicKey := List.replicate 32 0 }
  obtain ⟨-, -, after, taken⟩ := run.at_stage (List.nil_append _).symm
  have size : handshakeSize
      { config := { token := List.replicate 6000 0 }, publicKey := List.replicate 32 0 } = 6084 := by
    rw [handshakeSize, Link.announcedKey, if_pos rfl, List.length_replicate, List.length_replicate]
    rfl
  have handed : 6084 ∈ handedSizes outputs := by
    rw [handed_eq_planned taken, plannedSizes, List.mem_singleton]
    exact size.symm
  obtain ⟨datagram, sent, length⟩ := List.mem_map.mp handed
  obtain ⟨effect, member, same⟩ := List.mem_filterMap.mp sent
  refine ⟨_, _, last, rfl, run, fun passes => ?_, _, List.mem_cons_self, effect, member, datagram, same,
    fun outbound queue turn => never_sent ?_ ?_ turn⟩
  · have capped := (passes _ List.mem_cons_self effect member datagram same).capped
    rw [length] at capped
    exact absurd capped (by decide)
  · rw [length]
    decide
  · rw [length]
    decide

end Transport

end Creek.Tight
