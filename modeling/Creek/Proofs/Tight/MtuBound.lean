import Creek.Proofs.Tight.DatagramSize

/-! The MTU over whole runs of a transport: whatever arrives and whatever is sent, a datagram with
user data exceeds the MTU exactly where the tag of a sealed packet finds no room.
-/

namespace Creek.Tight.Transport

open Library Link

variable {numerics : Numerics} {identity : Identity} {transport after : Transport}
  {occurrence : Occurrence} {outputs : List Effect} {mtu : Nat}

-- The packets with user data of one step

/-- The payloads with user data that a step sends, in plain, each with the record it is sent to: the
next fragment, an accepted command, or the packets that a report asks for.
-/
def userPackets (transport : Transport) (occurrence : Occurrence) : List (Peer × Bytes) :=
  match occurrence.event with
  | .datagram source bytes draw =>
      (PacketCodec.decode (bytes.take 2048)).toList.flatMap fun packet =>
        let found := transport.findOrCreatePeerByAddr occurrence.moment source draw
        found.1.peers[found.2]?.toList.flatMap fun peer =>
          (resentData occurrence.moment packet.1 packet.2
            { key := found.2, peer := peer, rttUs := found.1.rttUs }).map (peer, ·)
  | .sendCommand peerId payload =>
      if payload.length > transport.maxCommandBytes then []
      else
        (transport.findPeer peerId).toList.flatMap fun key =>
          transport.peers[key]?.toList.flatMap fun peer =>
            if peer.state = .online then [(peer, payload)] else []
  | .fragment =>
      transport.encoding.head?.toList.flatMap fun entry =>
        transport.peers[entry.1]?.toList.flatMap fun peer => [(peer, entry.2.payload)]
  | _ => []

theorem forall_mem_toList_flatMap {α β : Type*} {found : Option α} {items : α → List β}
    {holds : β → Prop}
    : (∀ item ∈ found.toList.flatMap items, holds item)
      ↔ ∀ value, found = some value → ∀ item ∈ items value, holds item := by
  cases found <;> simp

/-- A transport whose records keep sized packets and whose fragments leave room for the header. -/
structure Orderly (identity : Identity) (transport : Transport) : Prop where
  same : transport.identity = identity
  peers : ∀ (key : Bytes) (peer : Peer), transport.peers[key]? = some peer
    → KeepsSized identity.config.mtu peer
  encoding : ∀ entry ∈ transport.encoding, kHeaderSize + entry.2.width ≤ identity.config.mtu

theorem Orderly.insert (orderly : transport.Orderly identity) {key : Bytes} {peer : Peer}
    (sized : KeepsSized identity.config.mtu peer) (rttUs : Nat)
    : Transport.Orderly identity { transport with peers := transport.peers.insert key peer, rttUs := rttUs } := by
  refine ⟨orderly.same, fun other found stored => ?_, orderly.encoding⟩
  rw [Std.TreeMap.getElem?_insert] at stored
  split at stored
  · obtain rfl := Option.some.inj stored
    exact sized
  · exact orderly.peers other found stored

theorem Orderly.getD (orderly : transport.Orderly identity) (key : Bytes)
    : KeepsSized identity.config.mtu (transport.peers.getD key {}) := by
  rw [Std.TreeMap.getD_eq_getD_getElem?]
  cases found : transport.peers[key]? with
  | none => exact fun seq entry stored => by simp at stored
  | some peer => exact orderly.peers key peer found

/-- A visit of a record, by what its handler does with an orderly link. -/
theorem Orderly.visit (orderly : transport.Orderly identity) {key : Bytes}
    {body : Link → Except Fault Link} (fits : Peer → Prop)
    (each : ∀ (peer : Peer) (next : Link),
      transport.peers[key]? = some peer
      → Link.Orderly identity.config.mtu { key := key, peer := peer, rttUs := transport.rttUs }
      → body { key := key, peer := peer, rttUs := transport.rttUs } = .ok next
      → KeepsSized identity.config.mtu next.peer ∧ (next.Within identity.config.mtu ↔ fits peer))
    (taken : transport.visit key body = .ok (after, outputs))
    : after.Orderly identity
      ∧ ((∀ effect ∈ outputs, effect.Fits identity.config.mtu)
        ↔ ∀ peer, transport.peers[key]? = some peer → fits peer) := by
  rcases visit_cases taken with ⟨missing, rfl, rfl⟩ | ⟨peer, next, found, ran, rfl, rfl⟩
  · refine ⟨orderly, iff_of_true (fun effect member => absurd member List.not_mem_nil) ?_⟩
    exact fun peer found => by cases missing.symm.trans found
  · obtain ⟨kept, within⟩ := each peer next found
      ⟨orderly.peers key peer found, fun effect member => absurd member List.not_mem_nil⟩ ran
    refine ⟨orderly.insert kept _, within.trans ?_⟩
    exact ⟨fun holds other same => Option.some.inj (found.symm.trans same) ▸ holds,
      fun all => all peer found⟩

theorem Orderly.visit_orderly (orderly : transport.Orderly identity) {key : Bytes} {body : Link → Link}
    (each : ∀ link : Link, link.Orderly identity.config.mtu → (body link).Orderly identity.config.mtu)
    (taken : transport.visit key (fun link => .ok (body link)) = .ok (after, outputs))
    : after.Orderly identity ∧ ∀ effect ∈ outputs, effect.Fits identity.config.mtu := by
  obtain ⟨next, within⟩ := orderly.visit (fun _ => True) (fun peer next _ before ran => by
    obtain rfl := Except.ok.inj ran
    have done := each _ before
    exact ⟨done.pending, iff_of_true done.effects trivial⟩) taken
  exact ⟨next, within.mpr fun _ _ => trivial⟩

-- Steps that send no user data

theorem Orderly.removePeer (orderly : transport.Orderly identity) (key : Bytes)
    : (transport.removePeer key).Orderly identity := by
  refine ⟨orderly.same, fun other found stored => ?_, fun entry member => ?_⟩
  · simp only [Transport.removePeer, Std.TreeMap.getElem?_erase] at stored
    split at stored
    · cases stored
    · exact orderly.peers other found stored
  · exact orderly.encoding entry (List.mem_filter.mp member).1

theorem Orderly.addPeer (orderly : transport.Orderly identity) (moment : Moment) (remoteId : Bytes)
    (addr : AddrKey)
    : (transport.addPeer moment remoteId addr).Orderly identity := by
  have finish : ∀ table : Transport, table.Orderly identity
      → ∀ (peer : Peer) (peerByAddr : AddrKey → Option Bytes),
        peer.pending = (table.peers.getD remoteId {}).pending
      → Transport.Orderly identity
          { table with peers := table.peers.insert remoteId peer, peerByAddr := peerByAddr } := by
    intro table orderly peer peerByAddr same
    have kept : KeepsSized identity.config.mtu peer := (orderly.getD remoteId).fewer fun _ _ stored => by
      rwa [same] at stored
    obtain ⟨same, peers, encoding⟩ := orderly.insert kept table.rttUs
    exact ⟨same, peers, encoding⟩
  unfold Transport.addPeer
  refine finish _ ?_ _ _ ?_
  · split
    · exact orderly.removePeer _
    · exact orderly
  · rfl

theorem Orderly.findOrCreatePeerByAddr (orderly : transport.Orderly identity) (moment : Moment)
    (source : AddrKey) (draw : Nat)
    : (transport.findOrCreatePeerByAddr moment source draw).1.Orderly identity := by
  unfold Transport.findOrCreatePeerByAddr
  split
  · exact orderly
  · have kept : KeepsSized identity.config.mtu
        {
          transport.peers.getD (anonymousId source draw) {} with
          id := anonymousId source draw
          addr := source
          addrSet := true
          role := .leaf
          retransmit := transport.identity.config.retransmitEnabled
          state := .handshake
          lastHandshakeSent := moment.now - 3600000000000
        } :=
      (orderly.getD _).fewer fun _ _ stored => stored
    obtain ⟨same, peers, encoding⟩ := orderly.insert kept transport.rttUs
    exact ⟨same, peers, encoding⟩

theorem findOrCreatePeerByAddr_identity (moment : Moment) (source : AddrKey) (draw : Nat)
    : (transport.findOrCreatePeerByAddr moment source draw).1.identity = transport.identity := by
  unfold Transport.findOrCreatePeerByAddr
  split <;> rfl

theorem Orderly.queueMessage (orderly : transport.Orderly identity) (peerId payload : Bytes)
    : (transport.queueMessage peerId payload).Orderly identity := by
  unfold Transport.queueMessage
  split
  · exact orderly
  · split
    · exact orderly
    · split
      · exact ⟨orderly.same, orderly.peers, orderly.encoding⟩
      · exact orderly

/-- The fragments of a message fill the room that the header leaves. -/
theorem fragPayload_room (room : kHeaderSize + kGcmTagSize + 4 < mtu)
    : kHeaderSize + Fragmenter.fragPayload mtu ≤ mtu := by
  have wide : kHeaderSize < mtu := by omega
  have usable : ¬mtu - kHeaderSize ≤ 4 := by omega
  rw [Fragmenter.fragPayload]
  simp only [gt_iff_lt, wide, if_true, usable, if_false]
  omega

theorem fragmentAndSend_width {numerics : Numerics} {peer : Peer} {payload : Bytes}
    {scratch : List Bytes} {call : FragmentCall}
    (member : call ∈ (Fragmenter.fragmentAndSend numerics peer payload mtu scratch).calls)
    : call.width = Fragmenter.fragPayload mtu := by
  rw [Fragmenter.fragmentAndSend] at member
  rcases List.mem_append.mp member with data | parity
  · obtain ⟨i, -, rfl⟩ := List.mem_map.mp data
    rfl
  · obtain ⟨i, -, rfl⟩ := List.mem_map.mp parity
    rfl

theorem Orderly.encodeNext (orderly : transport.Orderly identity)
    (room : kHeaderSize + kGcmTagSize + 4 < identity.config.mtu)
    : (transport.encodeNext numerics).Orderly identity := by
  unfold Transport.encodeNext
  split
  · split
    · exact ⟨orderly.same, orderly.peers, orderly.encoding⟩
    · rename_i key payload tasks _ _ _ peer found
      have kept : KeepsSized identity.config.mtu
          {
            peer with
            msgIdOut := (Fragmenter.fragmentAndSend numerics peer payload
              transport.identity.config.mtu transport.scratch).msgIdOut
          } :=
        (orderly.peers key peer found).fewer fun _ _ stored => stored
      obtain ⟨same, peers, -⟩ := orderly.insert kept transport.rttUs
      refine ⟨same, peers, fun entry member => ?_⟩
      obtain ⟨call, made, rfl⟩ := List.mem_map.mp member
      rw [orderly.same] at made
      rw [fragmentAndSend_width made]
      exact fragPayload_room room
  · exact orderly

theorem sendHandshakes_orderly {identity : Identity} {moment : Moment} {link : Link}
    (orderly : link.Orderly mtu)
    : (link.sendHandshakes identity moment).Orderly mtu := by
  have pruned : Link.Orderly mtu
      {
        link with
        peer := {
          link.peer with
          pending := link.peer.pending.filter fun _ entry =>
            entry.header.type ≠ PacketType.handshake.code
        }
      } := by
    refine ⟨orderly.pending.fewer fun seq entry stored => ?_, orderly.effects⟩
    rw [Std.TreeMap.getElem?_filter', Option.filter_eq_some_iff] at stored
    exact stored.1
  unfold Link.sendHandshakes
  split
  · exact orderly
  · dsimp only
    split
    · exact pruned
    · exact pruned.sendHandshake.update rfl

theorem sendHeartbeats_orderly {identity : Identity} {moment : Moment} {link : Link}
    (orderly : link.Orderly mtu)
    : (link.sendHeartbeats identity moment).Orderly mtu := by
  unfold Link.sendHeartbeats
  split
  · exact orderly
  · split
    · exact orderly
    · exact (orderly.sendControl rfl _ _).update rfl

theorem sendReports_orderly {identity : Identity} {moment : Moment} {link : Link}
    (orderly : link.Orderly mtu)
    : (link.sendReports numerics identity moment).Orderly mtu := by
  have built : Link.Orderly mtu
      {
        link with
        peer := (Report.buildPayload numerics link.peer identity.config.reportInterval moment.now).1
      } :=
    orderly.update rfl
  unfold Link.sendReports
  split
  · exact orderly
  · split
    · exact orderly
    · refine Link.Orderly.update (built.sendRaw ?_) rfl
      rw [getD_encode]
      rfl

theorem checkOffline_orderly {identity : Identity} {moment : Moment} {link : Link}
    (orderly : link.Orderly mtu)
    : (link.checkOffline identity moment).Orderly mtu := by
  have expired : Link.Orderly mtu
      {
        link with
        peer := {
          link.peer with
          collection := expireCollection identity.config.deadTimeout moment.now
            link.peer.collection
        }
      } :=
    orderly.update rfl
  have closed : Link.Orderly mtu
      (Link.firePeerEvent
        {
          link with
          peer := {
            link.peer with
            collection := expireCollection identity.config.deadTimeout moment.now
              link.peer.collection
            state := .closed
            pending := ∅
          }
        }
        .closed) := by
    refine Link.Orderly.fire ?_ ?_
    · exact ⟨fun seq entry stored => by simp at stored, orderly.effects⟩
    · trivial
  unfold Link.checkOffline
  dsimp only
  split
  · exact expired
  · split
    · exact expired
    · split
      · refine Link.Orderly.update closed ?_
        rfl
      · exact closed

theorem flushCommands_orderly {moment : Moment} {link : Link} (orderly : link.Orderly mtu)
    : (link.flushCommands moment).Orderly mtu := by
  unfold Link.flushCommands
  refine Link.Orderly.foldl_fireCommand (Link.Orderly.update orderly ?_) _
  rfl

-- Steps and runs

/-- What a step leaves is orderly, and what it sends fits unless one of these packets overruns. -/
structure Accounts (identity : Identity) (after : Transport) (outputs : List Effect)
    (packets : List (Peer × Bytes)) : Prop where
  orderly : after.Orderly identity
  within : (∀ effect ∈ outputs, effect.Fits identity.config.mtu)
    ↔ ∀ packet ∈ packets, ¬Overruns identity.config.mtu identity packet.1 packet.2

theorem accounts_quiet
    (both : after.Orderly identity ∧ ∀ effect ∈ outputs, effect.Fits identity.config.mtu)
    : Accounts identity after outputs [] :=
  ⟨both.1, iff_of_true both.2 fun _ member => absurd member List.not_mem_nil⟩

theorem accounts_silent (orderly : after.Orderly identity) : Accounts identity after [] [] :=
  accounts_quiet ⟨orderly, fun _ member => absurd member List.not_mem_nil⟩

theorem datagram_accounts (orderly : transport.Orderly transport.identity) {moment : Moment}
    {source : AddrKey} {bytes : Bytes} {draw : Nat}
    (taken : step numerics transport ⟨moment, .datagram source bytes draw⟩ = .ok (after, outputs))
    : Accounts transport.identity after outputs
        (transport.userPackets ⟨moment, .datagram source bytes draw⟩) := by
  rw [step] at taken
  simp only [receive] at taken
  rcases decoded : PacketCodec.decode (bytes.take 2048) with - | ⟨header, payload⟩
  · rw [decoded] at taken
    cases taken
    simp only [userPackets, decoded]
    exact accounts_silent orderly
  · rw [decoded] at taken
    have found := orderly.findOrCreatePeerByAddr moment source draw
    have unchanged := @findOrCreatePeerByAddr_identity transport moment source draw
    obtain ⟨next, within⟩ := found.visit (fun peer =>
        ∀ bytes ∈ Link.resentData moment header payload
            {
              key := (transport.findOrCreatePeerByAddr moment source draw).2
              peer := peer
              rttUs := (transport.findOrCreatePeerByAddr moment source draw).1.rttUs
            },
          ¬Overruns transport.identity.config.mtu transport.identity peer bytes)
      (fun peer next _ before ran => by
        rw [unchanged] at ran
        exact handlePacket_orderly before ran) taken
    refine ⟨next, within.trans ?_⟩
    rw [userPackets, forall_mem_toList_flatMap]
    simp only [decoded, Option.some.injEq, forall_eq', forall_mem_toList_flatMap,
      List.forall_mem_map]

theorem sendCommand_accounts (orderly : transport.Orderly transport.identity) {moment : Moment}
    {peerId payload : Bytes} (room : kHeaderSize + kGcmTagSize + 4 < transport.identity.config.mtu)
    (taken : step numerics transport ⟨moment, .sendCommand peerId payload⟩ = .ok (after, outputs))
    : Accounts transport.identity after outputs
        (transport.userPackets ⟨moment, .sendCommand peerId payload⟩) := by
  rw [step] at taken
  rw [userPackets]
  dsimp only at taken ⊢
  split at taken
  · rename_i long
    cases taken
    rw [if_pos long]
    exact accounts_silent orderly
  · rename_i short
    rw [if_neg short]
    rcases found : transport.findPeer peerId with - | key
    · rw [found] at taken
      cases taken
      exact accounts_silent orderly
    · rw [found] at taken
      have small : kHeaderSize + payload.length ≤ transport.identity.config.mtu := by
        rw [maxCommandBytes] at short
        omega
      obtain ⟨next, within⟩ := orderly.visit (fun peer =>
          peer.state = .online
            → ¬Overruns transport.identity.config.mtu transport.identity peer payload)
        (fun peer next _ before ran => by
          obtain rfl := Except.ok.inj ran
          exact sendCommand_orderly small before) taken
      refine ⟨next, within.trans ?_⟩
      rw [forall_mem_toList_flatMap]
      simp only [Option.some.injEq, forall_eq', forall_mem_toList_flatMap]
      refine forall₂_congr fun peer stored => ?_
      split
      · rename_i online
        rw [imp_iff_right online, List.forall_mem_singleton]
      · rename_i offline
        exact iff_of_true (fun online => absurd online offline) fun packet member =>
          absurd member List.not_mem_nil

theorem fragment_accounts (orderly : transport.Orderly transport.identity) {moment : Moment}
    (taken : step numerics transport ⟨moment, .fragment⟩ = .ok (after, outputs))
    : Accounts transport.identity after outputs (transport.userPackets ⟨moment, .fragment⟩) := by
  rw [step] at taken
  rw [userPackets]
  dsimp only at taken ⊢
  have encoding := orderly.encoding
  rcases calls : transport.encoding with - | ⟨⟨key, call⟩, rest⟩
  · rw [calls] at taken
    cases taken
    exact accounts_silent orderly
  · rw [calls] at taken encoding
    have remaining : Transport.Orderly transport.identity { transport with encoding := rest } :=
      ⟨orderly.same, orderly.peers, fun entry member =>
        encoding entry (List.mem_cons_of_mem _ member)⟩
    obtain ⟨next, within⟩ := remaining.visit (fun peer =>
        ¬Overruns transport.identity.config.mtu transport.identity peer call.payload)
      (fun peer next _ before ran => by
        obtain rfl := Except.ok.inj ran
        exact sendDataPacket_orderly (encoding _ List.mem_cons_self) before) taken
    refine ⟨next, within.trans ?_⟩
    rw [forall_mem_toList_flatMap]
    simp only [List.head?_cons, Option.some.injEq, forall_eq', forall_mem_toList_flatMap,
      List.forall_mem_singleton]

/-- What one step sends fits the MTU unless one of its packets with user data overruns. -/
theorem step_accounts (orderly : transport.Orderly identity)
    (room : kHeaderSize + kGcmTagSize + 4 < identity.config.mtu)
    (taken : step numerics transport occurrence = .ok (after, outputs))
    : Accounts identity after outputs (transport.userPackets occurrence) := by
  obtain ⟨moment, event⟩ := occurrence
  obtain rfl := orderly.same
  cases event with
  | connect remoteId addr =>
      exact accounts_quiet ((orderly.addPeer moment remoteId addr).visit_orderly
        (fun link orderly => orderly.sendHandshake) taken)
  | datagram source bytes draw => exact datagram_accounts orderly taken
  | sendCommand peerId payload => exact sendCommand_accounts orderly room taken
  | processSend peerId payload =>
      cases taken
      exact accounts_silent (orderly.queueMessage peerId payload)
  | encode =>
      cases taken
      exact accounts_silent (orderly.encodeNext room)
  | fragment => exact fragment_accounts orderly taken
  | sendHandshakes key =>
      exact accounts_quiet
        (orderly.visit_orderly (fun link orderly => sendHandshakes_orderly orderly) taken)
  | sendHeartbeats key =>
      exact accounts_quiet
        (orderly.visit_orderly (fun link orderly => sendHeartbeats_orderly orderly) taken)
  | sendReports key =>
      exact accounts_quiet
        (orderly.visit_orderly (fun link orderly => sendReports_orderly orderly) taken)
  | checkOffline key =>
      exact accounts_quiet
        (orderly.visit_orderly (fun link orderly => checkOffline_orderly orderly) taken)
  | flushCommands key =>
      exact accounts_quiet
        (orderly.visit_orderly (fun link orderly => flushCommands_orderly orderly) taken)

/-- The invariant over whole runs, by induction on their steps. -/
theorem orderly_of_run {history : List (Stage Transport Occurrence Effect)} {last : Transport}
    (room : kHeaderSize + kGcmTagSize + 4 < identity.config.mtu)
    (run : Run (step numerics) (fun _ _ _ => True) (initial identity) history last)
    : last.Orderly identity := by
  refine run.invariant (fun _ transport => transport.Orderly identity) ?_
    fun _ _ _ _ _ _ orderly _ taken => (step_accounts orderly room taken).orderly
  refine ⟨rfl, fun key peer stored => ?_, fun entry member => absurd member List.not_mem_nil⟩
  simp [initial] at stored

theorem stage_fits_iff {history : List (Stage Transport Occurrence Effect)} {last : Transport}
    (room : kHeaderSize + kGcmTagSize + 4 < identity.config.mtu)
    (run : Run (step numerics) (fun _ _ _ => True) (initial identity) history last)
    : ∀ stage ∈ history,
      (∀ effect ∈ stage.outputs, effect.Fits identity.config.mtu)
        ↔ ∀ packet ∈ stage.before.userPackets stage.event,
            ¬Overruns identity.config.mtu identity packet.1 packet.2 :=
  run.forall_stage (fun _ _ run => orderly_of_run room run)
    fun _ _ _ _ _ orderly _ taken => (step_accounts orderly room taken).within

/-- In every run all datagrams with user data fit the MTU exactly when no packet with user data is
sealed that leaves no room for the tag.
-/
theorem fits_iff {history : List (Stage Transport Occurrence Effect)} {last : Transport}
    (room : kHeaderSize + kGcmTagSize + 4 < identity.config.mtu)
    (run : Run (step numerics) (fun _ _ _ => True) (initial identity) history last)
    : (∀ stage ∈ history, ∀ effect ∈ stage.outputs, effect.Fits identity.config.mtu)
      ↔ ∀ stage ∈ history, ∀ packet ∈ stage.before.userPackets stage.event,
          ¬Overruns identity.config.mtu identity packet.1 packet.2 :=
  forall₂_congr (stage_fits_iff room run)

/-- A datagram that fits the receive buffer is decoded as it was encoded. -/
theorem decode_take_encode {header : PacketHeader} {body : Bytes} (magic : header.magic = kMagic)
    (version : header.version = kVersion) (size : header.payloadSize.toNat = body.length)
    (short : kHeaderSize + body.length ≤ 2048)
    : PacketCodec.decode ((PacketCodec.encode header body).take 2048)
      = some ({ header with checksum := PacketCodec.checksumOf header body }, body) := by
  have length : (PacketCodec.encode header body).length = kHeaderSize + body.length :=
    length_finalizeCrc header body
  rw [List.take_of_length_le (by omega), PacketCodec.encode, PacketCodec.encodeTo,
    PacketCodec.finalizeCrc_encodeHeaderTo, PacketCodec.decode_headFields magic version size]

theorem step_datagram {header : PacketHeader} {body : Bytes} {source : AddrKey} {draw : Nat}
    {moment : Moment} (magic : header.magic = kMagic) (version : header.version = kVersion)
    (size : header.payloadSize.toNat = body.length) (short : kHeaderSize + body.length ≤ 2048)
    : step numerics transport
        ⟨moment, .datagram source (PacketCodec.encode header body) draw⟩
      = (transport.findOrCreatePeerByAddr moment source draw).1.visit
          (transport.findOrCreatePeerByAddr moment source draw).2
          (Link.handlePacket numerics transport.identity moment
            { header with checksum := PacketCodec.checksumOf header body } body) := by
  simp only [step, receive, decode_take_encode magic version size short,
    findOrCreatePeerByAddr_identity]

theorem step_sendCommand_ok (moment : Moment) (peerId payload : Bytes)
    : ∃ after outputs,
        step numerics transport ⟨moment, .sendCommand peerId payload⟩ = .ok (after, outputs) := by
  simp only [step]
  split
  · exact ⟨_, _, rfl⟩
  · split
    · exact ⟨_, _, rfl⟩
    · rw [visit]
      split <;> exact ⟨_, _, rfl⟩

/-- The handshake acknowledgement of an unknown source, with a public key and the capability byte. -/
def announcement : Bytes := 9 :: List.replicate 31 0 ++ [1]

def acknowledgement : PacketHeader where
  magic := kMagic
  version := kVersion
  type := PacketType.handshakeAck.code
  payloadSize := 33

def stranger : AddrKey := { addr := 1, port := 1 }

/-- Whether a step leaves the stranger's record online and sealing as given. -/
def leavesOnline (sealing : Bool) (identity : Identity)
    (result : Except Fault (Transport × List Effect))
    : Bool :=
  match result with
  | .error _ => false
  | .ok (after, _) =>
      after.peers[anonymousId stranger 0]?.any fun peer =>
        peer.state = .online && peer.addrSet && sealsTo identity peer == sealing

theorem leavesOnline_ok {sealing : Bool} {result : Except Fault (Transport × List Effect)}
    (up : leavesOnline sealing identity result = true)
    : ∃ after outputs peer, result = .ok (after, outputs)
      ∧ after.peers[anonymousId stranger 0]? = some peer
      ∧ peer.state = .online ∧ peer.addrSet = true ∧ sealsTo identity peer = sealing := by
  rcases result with fault | ⟨after, outputs⟩
  · cases up
  · obtain ⟨peer, stored, holds⟩ := (Option.any_eq_true _ _).mp up
    simp only [Bool.and_eq_true, decide_eq_true_eq, beq_iff_eq] at holds
    exact ⟨after, outputs, peer, rfl, stored, holds.1.1, holds.1.2, holds.2⟩

theorem userPackets_acknowledgement (transport : Transport) (moment : Moment)
    : transport.userPackets
        ⟨moment, .datagram stranger (PacketCodec.encode acknowledgement announcement) 0⟩ = [] := by
  have decoded := @decode_take_encode acknowledgement announcement rfl rfl rfl (by decide)
  simp only [userPackets, decoded, Option.toList_some, List.flatMap_cons, List.flatMap_nil,
    List.append_nil]
  exact List.flatMap_eq_nil_iff.mpr fun peer _ => rfl

/-- A run of two steps: the stranger's acknowledgement, then a command for it. -/
theorem run_command {sealing : Bool} (room : kHeaderSize + kGcmTagSize + 4 < identity.config.mtu)
    (up : leavesOnline sealing identity (step default (initial identity)
      ⟨⟨0, 0⟩, .datagram stranger (PacketCodec.encode acknowledgement announcement) 0⟩) = true)
    (payload : Bytes) (short : kHeaderSize + payload.length ≤ identity.config.mtu)
    : ∃ history last, ∃ stage ∈ history, ∃ peer,
      Run (step default) (fun _ _ _ => True) (initial identity) history last
      ∧ (peer, payload) ∈ stage.before.userPackets stage.event
      ∧ peer.addrSet = true ∧ sealsTo identity peer = sealing
      ∧ ∀ stage ∈ history, ∀ packet ∈ stage.before.userPackets stage.event, packet.2 = payload := by
  obtain ⟨after, outputs, peer, taken, stored, online, addressed, ready⟩ := leavesOnline_ok up
  have begun : Run (step default) (fun _ _ _ => True) (initial identity) [] (initial identity) :=
    .start
  have first := begun.next trivial taken
  obtain ⟨last, sent, commanded⟩ :=
    @step_sendCommand_ok default after ⟨0, 0⟩ (anonymousId stranger 0) payload
  refine ⟨_, _, _, List.mem_append_right _ List.mem_cons_self, peer,
    .next first trivial commanded, ?_⟩
  have limit : ¬payload.length > after.maxCommandBytes := by
    rw [maxCommandBytes, (orderly_of_run room first).same]
    omega
  have found : after.findPeer (anonymousId stranger 0) = some (anonymousId stranger 0) := by
    rw [findPeer, if_pos (by rw [Std.TreeMap.contains_eq_isSome_getElem?, stored]; rfl)]
  have packets : after.userPackets ⟨⟨0, 0⟩, .sendCommand (anonymousId stranger 0) payload⟩
      = [(peer, payload)] := by
    simp only [userPackets, limit, if_false, found, stored, Option.toList_some, List.flatMap_cons,
      List.flatMap_nil, online, if_true, List.append_nil]
  refine ⟨packets ▸ List.mem_singleton_self _, addressed, ready, ?_⟩
  intro stage member packet inside
  rcases List.mem_append.mp member with acknowledged | sending
  · obtain rfl := List.mem_singleton.mp acknowledged
    rw [userPackets_acknowledgement] at inside
    cases inside
  · obtain rfl := List.mem_singleton.mp sending
    rw [packets] at inside
    rw [List.mem_singleton.mp inside]

def strangerIdentity : Identity := { privateKey := List.replicate 32 0 }

theorem strangerIdentity_online
    : leavesOnline true strangerIdentity (step default (initial strangerIdentity)
        ⟨⟨0, 0⟩, .datagram stranger (PacketCodec.encode acknowledgement announcement) 0⟩) = true := by
  rw [step_datagram rfl rfl (by decide) (by decide)]
  decide +kernel

/-- A sealed command that leaves room for the tag fits. -/
theorem sealed_command_fits
    : ∃ history last,
      (∃ stage ∈ history, ∃ packet ∈ stage.before.userPackets stage.event,
        packet.1.addrSet = true ∧ sealsTo strangerIdentity packet.1 = true ∧ packet.2.length = 1286)
      ∧ Run (step default) (fun _ _ _ => True) (initial strangerIdentity) history last
      ∧ ∀ stage ∈ history, ∀ effect ∈ stage.outputs, effect.Fits 1350 := by
  obtain ⟨history, last, stage, member, peer, run, packet, addressed, sealing, only⟩ :=
    run_command (by decide) strangerIdentity_online (List.replicate 1286 0)
      (by rw [List.length_replicate]; decide)
  refine ⟨history, last, ⟨stage, member, _, packet, addressed, sealing, List.length_replicate⟩, run,
    (fits_iff (by decide) run).mpr ?_⟩
  rintro stage member packet inside ⟨-, -, overruns⟩
  rw [only stage member packet inside, NoRoom, List.length_replicate] at overruns
  revert overruns
  decide

/-- A command of full length is 1350 bytes long in plain, and 1366 when it is sealed. -/
theorem sealed_command_exceeds
    : ∃ identity : Identity, ∃ history last,
      kHeaderSize + kGcmTagSize + 4 < identity.config.mtu
      ∧ Run (step default) (fun _ _ _ => True) (initial identity) history last
      ∧ ¬∀ stage ∈ history, ∀ effect ∈ stage.outputs, effect.Fits identity.config.mtu := by
  obtain ⟨history, last, stage, member, peer, run, packet, addressed, sealing, -⟩ :=
    run_command (by decide) strangerIdentity_online (List.replicate 1302 0)
      (by rw [List.length_replicate]; decide)
  refine ⟨_, history, last, ?_, run, fun fits => ?_⟩
  · decide
  · have none_ := (stage_fits_iff (by decide) run stage member).mp (fits stage member)
    refine none_ _ packet ⟨addressed, sealing, ?_⟩
    rw [NoRoom, List.length_replicate]
    decide

end Creek.Tight.Transport
