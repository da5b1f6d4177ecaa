import Creek.Proofs.Tight.Fragments
import Creek.Proofs.Tight.VouchedPackets

/-! Which encryption calls of a record share a nonce. The nonce of a fragment is made of its message id and
its index, so two calls share one only where a report has a pending fragment resent, and then they
encrypt the same bytes under the same header. The nonce of a command is made of a counter that
every accepted handshake and every acknowledgement of one starts again.
-/

namespace Creek.Tight

open Library

/-- What the cipher is called on besides the key. -/
def Seal.call (input : Seal) : Bytes × Bytes × Bytes := (input.nonce, input.aad, input.plaintext)

/-- What the cipher is called on for a packet besides the key. -/
def aeadCall (header : PacketHeader) (payload : Bytes) : Bytes × Bytes × Bytes :=
  let onWire := wireHeader true header payload
  (buildNonce onWire, (PacketCodec.encodeHeaderTo onWire).take 44, payload)

theorem call_of_sealOf {encryptionEnabled : Bool} {peer : Peer} {header : PacketHeader} {payload : Bytes}
    {input : Seal} (sealed : sealOf encryptionEnabled peer header payload = some input)
    : input.call = aeadCall header payload := by
  simp only [sealOf] at sealed
  split at sealed
  · rename_i encrypted
    cases sealed
    simp only [Seal.call, aeadCall, encrypted]
  · cases sealed

/-- The encryption calls that these effects show of one record. -/
def sealsFor (key : Bytes) (effects : List Effect) : List Seal :=
  (effects.filter fun effect => effect.owner = key).filterMap Effect.seal?

theorem Effect.Vouched.sealed {known : PacketHeader → Bytes → Prop} {effect : Effect} {input : Seal}
    (vouched : effect.Vouched known) (sealed : effect.seal? = some input)
    : ∃ header payload, known header payload ∧ input.call = aeadCall header payload := by
  cases effect with
  | send key addr datagram origin =>
      have posted : Posted known datagram origin := vouched
      have same : origin = some input := sealed
      cases posted with
      | control plain => cases same
      | wire holds => exact ⟨_, _, holds, call_of_sealOf same⟩
  | message key id payload => cases sealed
  | command key id payload => cases sealed
  | peerEvent key event => cases sealed

-- Nonces

/-- A nonce of a fragment, by its byte for the packet kind. -/
def fragmentNonce (nonce : Bytes) : Prop := carriesFragment (nonce.getD 10 0)

instance (nonce : Bytes) : Decidable (fragmentNonce nonce) :=
  inferInstanceAs (Decidable (carriesFragment _))

theorem buildNonce_command {header : PacketHeader} (command : header.type = PacketType.command.code)
    : buildNonce header
      = put32 header.clientId ++ put32 header.sequence ++ [PacketType.command.code, 0, 0, 0] := by
  rw [buildNonce, if_pos command, command]

theorem buildNonce_other {header : PacketHeader} (other : header.type ≠ PacketType.command.code)
    : buildNonce header
      = put32 header.clientId ++ put32 header.messageId ++ put16 header.fragmentIndex
        ++ [header.type, 0] := by
  rw [buildNonce, if_neg other]

theorem fragmentNonce_iff {header : PacketHeader}
    : fragmentNonce (buildNonce header) ↔ carriesFragment header.type := by
  by_cases command : header.type = PacketType.command.code
  · rw [buildNonce_command command, command]
    simp [fragmentNonce, carriesFragment, put32, store32, PacketType.code]
  · rw [buildNonce_other command]
    simp [fragmentNonce, put32, put16, store32, store16]

theorem place_of_nonce {left right : PacketHeader} (fragment : carriesFragment left.type)
    (same : buildNonce left = buildNonce right)
    : left.messageId = right.messageId ∧ left.fragmentIndex = right.fragmentIndex := by
  have other (header : PacketHeader) (carries : carriesFragment header.type)
      : header.type ≠ PacketType.command.code := by
    intro command
    rw [carriesFragment, command] at carries
    revert carries
    decide
  have carries : carriesFragment right.type :=
    fragmentNonce_iff.mp (same ▸ fragmentNonce_iff.mpr fragment)
  rw [buildNonce_other (other left fragment), buildNonce_other (other right carries)] at same
  have message (header : PacketHeader) : get32 (put32 header.clientId ++ put32 header.messageId
      ++ put16 header.fragmentIndex ++ [header.type, 0]) 4 = header.messageId :=
    get32_put32 _
  have index (header : PacketHeader) : get16 (put32 header.clientId ++ put32 header.messageId
      ++ put16 header.fragmentIndex ++ [header.type, 0]) 8 = header.fragmentIndex :=
    get16_put16 _
  exact ⟨by rw [← message left, same, message], by rw [← index left, same, index]⟩

-- The fragments of one record

namespace Transport

/-- The record under a key, or a new one. -/
def record (transport : Transport) (key : Bytes) : Peer := transport.peers.getD key {}

/-- The fragments of a record that the encode thread still has to send. -/
def queuedFor (transport : Transport) (key : Bytes) : List FragmentCall :=
  (transport.encoding.filter fun entry => entry.1 = key).map Prod.snd

/-- The packets that may be pending or sealed for a record that has sent these fragments. -/
def sentOnly (sent : List (PacketHeader × Bytes)) (header : PacketHeader) (payload : Bytes) : Prop :=
  carriesFragment header.type → (header, payload) ∈ sent

/-- A fragment at the place of a call. -/
def atPlace (call : FragmentCall) (header : PacketHeader) : Prop :=
  header.messageId = call.msgId ∧ header.fragmentIndex = call.idx

/-- The fragments that a record has sent have places of their own, apart from those that are still queued,
and are all that is kept of it or was sealed.
-/
structure Booked (key : Bytes) (messages : Nat) (sent : List (PacketHeader × Bytes)) (life : List Seal)
    (transport : Transport)
    : Prop where
  counted : 0 < (transport.record key).msgIdOut ∧ (transport.record key).msgIdOut ≤ messages + 1
  pending : ∀ (seq : Nat) (entry : PendingSend), (transport.record key).pending[seq]? = some entry
    → sentOnly sent entry.header entry.payload
  seals : ∀ input ∈ life, ∃ header payload, sentOnly sent header payload
    ∧ input.call = aeadCall header payload
  drawn : ∀ fragment ∈ sent, fragment.1.messageId.toNat < (transport.record key).msgIdOut
  distinct : ∀ left ∈ sent, ∀ right ∈ sent, left.1.messageId = right.1.messageId
    → left.1.fragmentIndex = right.1.fragmentIndex
    → left = right
  queued : ∀ call ∈ transport.queuedFor key, call.msgId.toNat < (transport.record key).msgIdOut
    ∧ ∀ fragment ∈ sent, ¬atPlace call fragment.1
  places : ((transport.queuedFor key).map fun call => (call.msgId, call.idx)).Nodup

variable {numerics : Numerics} {key other : Bytes} {messages : Nat}
  {sent : List (PacketHeader × Bytes)} {life : List Seal} {transport after : Transport} {outputs : List Effect}

theorem booked_initial (identity : Identity) (key : Bytes) : Booked key 0 [] [] (initial identity) where
  counted := ⟨Nat.zero_lt_one, Nat.le_refl _⟩
  pending := by
    intro seq entry stored
    rw [record, initial, Std.TreeMap.getD_emptyc, Std.TreeMap.getElem?_emptyc] at stored
    cases stored
  seals := fun input member => absurd member List.not_mem_nil
  drawn := fun fragment member => absurd member List.not_mem_nil
  distinct := fun left member => absurd member List.not_mem_nil
  queued := fun call member => absurd member List.not_mem_nil
  places := List.nodup_nil

/-- A change that leaves the pending packets, the message ids and the queue of a record alone. -/
theorem Booked.of_same (booked : Booked key messages sent life transport)
    (pending : (after.record key).pending = (transport.record key).pending)
    (msgIdOut : (after.record key).msgIdOut = (transport.record key).msgIdOut)
    (queue : after.queuedFor key = transport.queuedFor key)
    : Booked key messages sent life after where
  counted := msgIdOut ▸ booked.counted
  pending := fun seq entry stored => booked.pending seq entry (pending ▸ stored)
  seals := booked.seals
  drawn := msgIdOut ▸ booked.drawn
  distinct := booked.distinct
  queued := by
    rw [queue, msgIdOut]
    exact booked.queued
  places := queue ▸ booked.places

theorem record_insert {peer : Peer} (table : after.peers = transport.peers.insert other peer)
    : after.record key = if other = key then peer else transport.record key := by
  rw [record, table, Std.TreeMap.getD_insert]
  by_cases same : other = key
  · rw [if_pos (Std.LawfulEqCmp.compare_eq_iff_eq.mpr same), if_pos same]
  · rw [if_neg fun here => same (Std.LawfulEqCmp.compare_eq_iff_eq.mp here), if_neg same]
    rfl

theorem record_of_found {peer : Peer} (found : transport.peers[key]? = some peer)
    : transport.record key = peer := by
  rw [record, Std.TreeMap.getD_eq_getD_getElem?, found, Option.getD_some]

theorem record_queueMessage (transport : Transport) (key peerId payload : Bytes)
    : (transport.queueMessage peerId payload).record key = transport.record key := by
  unfold queueMessage
  split
  · rfl
  · split
    · rfl
    · split <;> rfl

theorem record_encodeNext (numerics : Numerics) (transport : Transport) (key : Bytes)
    : ∃ msgIdOut, (transport.encodeNext numerics).record key
      = { transport.record key with msgIdOut := msgIdOut } := by
  unfold encodeNext
  split
  · rename_i on payload tasks _ _
    split
    · exact ⟨_, rfl⟩
    · rename_i peer found
      generalize Fragmenter.fragmentAndSend _ _ _ _ _ = outcome
      by_cases here : on = key
      · refine ⟨outcome.msgIdOut, ((record_insert rfl).trans (if_pos here)).trans ?_⟩
        rw [← here, record_of_found found]
      · exact ⟨(transport.record key).msgIdOut, (record_insert rfl).trans (if_neg here)⟩
  · exact ⟨_, rfl⟩

/-- The table after a handler has run on a record. -/
def stored (key : Bytes) (next : Link) (transport : Transport) : Transport :=
  { transport with peers := transport.peers.insert key next.peer, rttUs := next.rttUs }

/-- What a visit makes of the record of a key: there is nobody to visit, the handler runs on that record, or
it runs on another one and shows nothing of this.
-/
inductive Visits (key other : Bytes) (body : Link → Except Fault Link) (before : Transport)
    : Transport → List Effect → Prop
  | absent (found : before.peers[other]? = none) : Visits key other body before before []
  | here {next : Link} (same : other = key)
      (ran : body { key := key, peer := before.record key, rttUs := before.rttUs } = .ok next)
      (owned : ∀ effect ∈ next.effects, effect.owner = key)
      (changed : (before.stored other next).record key = next.peer)
      : Visits key other body before (before.stored other next) next.effects
  | elsewhere {next : Link} (apart : other ≠ key)
      (others : ∀ effect ∈ next.effects, effect.owner ≠ key)
      (unchanged : (before.stored other next).record key = before.record key)
      : Visits key other body before (before.stored other next) next.effects

theorem visits_of_ok {body : Link → Except Fault Link} (key : Bytes)
    (visited : transport.visit other body = .ok (after, outputs))
    (confined : ∀ peer next, body { key := other, peer := peer, rttUs := transport.rttUs } = .ok next
      → next.Confined other True)
    : Visits key other body transport after outputs := by
  rcases visit_cases visited with ⟨missing, rfl, rfl⟩ | ⟨peer, next, found, ran, rfl, rfl⟩
  · exact .absent missing
  · have owned := (confined peer next ran).2
    have changed : (transport.stored other next).record key
        = if other = key then next.peer else transport.record key :=
      record_insert rfl
    by_cases same : other = key
    · subst same
      exact .here rfl (record_of_found found ▸ ran) (fun effect member => (owned effect member).1)
        (changed.trans (if_pos rfl))
    · refine .elsewhere same (fun effect member owner => ?_) (changed.trans (if_neg same))
      exact same ((owned effect member).1.symm.trans owner)

theorem visits_of_plain {body : Link → Link} (key : Bytes)
    (visited : transport.visit other (fun link => .ok (body link)) = .ok (after, outputs))
    (confined : ∀ link, Link.Confined other True link → (body link).Confined other True)
    : Visits key other (fun link => .ok (body link)) transport after outputs := by
  refine visits_of_ok key visited fun peer next ran => ?_
  cases ran
  exact confined _ (Link.confined_start _ _ _ _)

/-- What a step does to the record of a key: a handler visits a record, or the queues alone change. -/
inductive Steps (numerics : Numerics) (key : Bytes) (before : Transport) (moment : Moment)
    : Event → Transport → List Effect → Prop
  | connect {remoteId : Bytes} {addr : AddrKey}
      (visits : Visits key remoteId (fun link => .ok (link.sendHandshake before.identity moment))
        (before.addPeer moment remoteId addr) later shown)
      : Steps numerics key before moment (.connect remoteId addr) later shown
  | undecoded {source : AddrKey} {bytes : Bytes} {draw : Nat}
      : Steps numerics key before moment (.datagram source bytes draw) before []
  | datagram {source : AddrKey} {bytes payload : Bytes} {draw : Nat} {header : PacketHeader}
      (decoded : PacketCodec.decode (bytes.take 2048) = some (header, payload))
      (visits : Visits key (before.findOrCreatePeerByAddr moment source draw).2
        (Link.handlePacket numerics (before.findOrCreatePeerByAddr moment source draw).1.identity
          moment header payload)
        (before.findOrCreatePeerByAddr moment source draw).1 later shown)
      : Steps numerics key before moment (.datagram source bytes draw) later shown
  | refused {peerId payload : Bytes}
      (refused : payload.length ≤ before.maxCommandBytes → before.findPeer peerId = none)
      : Steps numerics key before moment (.sendCommand peerId payload) before []
  | sendCommand {on peerId payload : Bytes} (short : payload.length ≤ before.maxCommandBytes)
      (found : before.findPeer peerId = some on)
      (visits : Visits key on (fun link => .ok (link.sendCommand before.identity moment payload)) before
        later shown)
      : Steps numerics key before moment (.sendCommand peerId payload) later shown
  | processSend {peerId payload : Bytes}
      : Steps numerics key before moment (.processSend peerId payload)
          (before.queueMessage peerId payload) []
  | encode : Steps numerics key before moment .encode (before.encodeNext numerics) []
  | drained : Steps numerics key before moment .fragment before []
  | fragment {on : Bytes} {call : FragmentCall} {rest : List (Bytes × FragmentCall)}
      (queue : before.encoding = (on, call) :: rest)
      (visits : Visits key on (fun link => .ok (link.sendDataPacket before.identity moment call))
        { before with encoding := rest } later shown)
      : Steps numerics key before moment .fragment later shown
  | sendHandshakes {on : Bytes}
      (visits : Visits key on (fun link => .ok (link.sendHandshakes before.identity moment)) before
        later shown)
      : Steps numerics key before moment (.sendHandshakes on) later shown
  | sendHeartbeats {on : Bytes}
      (visits : Visits key on (fun link => .ok (link.sendHeartbeats before.identity moment)) before
        later shown)
      : Steps numerics key before moment (.sendHeartbeats on) later shown
  | sendReports {on : Bytes}
      (visits : Visits key on (fun link => .ok (link.sendReports numerics before.identity moment))
        before later shown)
      : Steps numerics key before moment (.sendReports on) later shown
  | checkOffline {on : Bytes}
      (visits : Visits key on (fun link => .ok (link.checkOffline before.identity moment)) before
        later shown)
      : Steps numerics key before moment (.checkOffline on) later shown
  | flushCommands {on : Bytes}
      (visits : Visits key on (fun link => .ok (link.flushCommands moment)) before later shown)
      : Steps numerics key before moment (.flushCommands on) later shown

theorem steps_of_ok {moment : Moment} {event : Event} (key : Bytes)
    (taken : step numerics transport ⟨moment, event⟩ = .ok (after, outputs))
    : Steps numerics key transport moment event after outputs := by
  cases event with
  | connect remoteId addr =>
      exact .connect (visits_of_plain key taken fun link => Link.Confined.sendHandshake)
  | datagram source bytes draw =>
      simp only [step, receive] at taken
      split at taken
      · cases taken
        exact .undecoded
      · rename_i header payload decoded
        refine .datagram decoded (visits_of_ok key taken fun peer next ran => ?_)
        exact (Link.confined_start _ _ _ True).handlePacket ran fun _ => trivial
  | sendCommand peerId payload =>
      simp only [step] at taken
      split at taken
      · rename_i long
        cases taken
        exact .refused fun short => absurd short (Nat.not_le_of_lt long)
      · rename_i short
        split at taken
        · rename_i missing
          cases taken
          exact .refused fun _ => missing
        · rename_i on found
          exact .sendCommand (Nat.le_of_not_lt short) found
            (visits_of_plain key taken fun link => Link.Confined.sendCommand)
  | processSend peerId payload =>
      cases taken
      exact .processSend
  | encode =>
      cases taken
      exact .encode
  | fragment =>
      simp only [step] at taken
      split at taken
      · cases taken
        exact .drained
      · rename_i on call rest queue
        exact .fragment queue
          (visits_of_plain key taken fun link confined => confined.sendDataPacket call)
  | sendHandshakes on =>
      exact .sendHandshakes (visits_of_plain key taken fun link => Link.Confined.sendHandshakes)
  | sendHeartbeats on =>
      exact .sendHeartbeats (visits_of_plain key taken fun link => Link.Confined.sendHeartbeats)
  | sendReports on =>
      exact .sendReports (visits_of_plain key taken fun link => Link.Confined.sendReports)
  | checkOffline on =>
      exact .checkOffline (visits_of_plain key taken fun link => Link.Confined.checkOffline)
  | flushCommands on =>
      exact .flushCommands (visits_of_plain key taken fun link => Link.Confined.flushCommands)

theorem mem_sealsFor {input : Seal} {effects : List Effect}
    : input ∈ sealsFor key effects
      ↔ ∃ effect ∈ effects, effect.owner = key ∧ effect.seal? = some input := by
  simp only [sealsFor, List.mem_filterMap, List.mem_filter, decide_eq_true_eq]
  constructor
  · rintro ⟨effect, ⟨member, owner⟩, sealed⟩
    exact ⟨effect, member, owner, sealed⟩
  · rintro ⟨effect, member, owner, sealed⟩
    exact ⟨effect, ⟨member, owner⟩, sealed⟩

/-- A handler at work on a record keeps the books if all it keeps and seals is in them. -/
theorem Booked.visit {body : Link → Except Fault Link} (booked : Booked key messages sent life transport)
    (visits : Visits key other body transport after outputs)
    (vouched : ∀ next, other = key
      → body { key := key, peer := transport.record key, rttUs := transport.rttUs } = .ok next
      → next.Vouched (sentOnly sent) (transport.record key).msgIdOut)
    : Booked key messages sent (life ++ sealsFor key outputs) after := by
  cases visits with
  | absent =>
      rw [sealsFor, List.filter_nil, List.filterMap_nil, List.append_nil]
      exact booked
  | @here next same ran owned changed =>
      obtain ⟨msgIdOut, pending, effects⟩ := vouched next same ran
      refine ⟨?_, ?_, ?_, ?_, booked.distinct, ?_, booked.places⟩
      · rw [changed, msgIdOut]
        exact booked.counted
      · rw [changed]
        exact pending
      · intro input member
        rcases List.mem_append.mp member with earlier | last
        · exact booked.seals input earlier
        · obtain ⟨effect, shown, -, sealed⟩ := mem_sealsFor.mp last
          exact (effects effect shown).sealed sealed
      · rw [changed, msgIdOut]
        exact booked.drawn
      · rw [changed, msgIdOut]
        exact booked.queued
  | @elsewhere next apart others unchanged =>
      have quiet : sealsFor key next.effects = [] := by
        refine List.eq_nil_iff_forall_not_mem.mpr fun input member => ?_
        obtain ⟨effect, shown, owner, -⟩ := mem_sealsFor.mp member
        exact others effect shown owner
      rw [quiet, List.append_nil]
      exact booked.of_same (congrArg Peer.pending unchanged) (congrArg Peer.msgIdOut unchanged) rfl

theorem Booked.vouched (booked : Booked key messages sent life transport)
    : Link.Vouched (sentOnly sent) (transport.record key).msgIdOut
        { key := key, peer := transport.record key, rttUs := transport.rttUs } where
  msgIdOut := rfl
  pending := booked.pending
  effects := fun _ member => absurd member List.not_mem_nil

theorem apart_sentOnly (sent : List (PacketHeader × Bytes)) : Link.Apart (sentOnly sent) := by
  have foreign (type : UInt8) (other : ¬carriesFragment type) (header : PacketHeader) (payload : Bytes)
      (same : header.type = type) : sentOnly sent header payload :=
    fun carries => absurd (same ▸ carries) other
  exact {
    handshake := foreign _ (by unfold carriesFragment; decide)
    handshakeAck := foreign _ (by unfold carriesFragment; decide)
    online := foreign _ (by unfold carriesFragment; decide)
  }

-- The table and the queue

/-- A record that is updated elsewhere, or is new, keeps the books. -/
theorem Booked.insert (booked : Booked key messages sent life transport) {peer : Peer}
    (table : after.peers = transport.peers.insert other peer)
    (pending : peer.pending = (transport.record other).pending)
    (msgIdOut : peer.msgIdOut = (transport.record other).msgIdOut)
    (queue : after.encoding = transport.encoding)
    : Booked key messages sent life after := by
  have changed : after.record key = if other = key then peer else transport.record key :=
    record_insert table
  have queues : after.queuedFor key = transport.queuedFor key := by rw [queuedFor, queue, queuedFor]
  by_cases same : other = key
  · rw [if_pos same] at changed
    exact booked.of_same (by rw [changed, pending, same]) (by rw [changed, msgIdOut, same]) queues
  · rw [if_neg same] at changed
    exact booked.of_same (by rw [changed]) (by rw [changed]) queues

theorem Booked.findOrCreatePeerByAddr (booked : Booked key messages sent life transport)
    (moment : Moment) (source : AddrKey) (draw : Nat)
    : Booked key messages sent life (transport.findOrCreatePeerByAddr moment source draw).1 := by
  unfold Transport.findOrCreatePeerByAddr
  split
  · exact booked
  · exact booked.insert rfl rfl rfl rfl

theorem record_removePeer (differs : other ≠ key)
    : (transport.removePeer other).record key = transport.record key := by
  rw [record, removePeer, Std.TreeMap.getD_erase, if_neg fun here =>
    differs (Std.LawfulEqCmp.compare_eq_iff_eq.mp here)]
  rfl

theorem queuedFor_removePeer (differs : other ≠ key)
    : (transport.removePeer other).queuedFor key = transport.queuedFor key := by
  rw [queuedFor, removePeer, List.filter_filter, queuedFor]
  refine congrArg (List.map Prod.snd) (List.filter_congr fun entry _ => ?_)
  by_cases same : entry.1 = key
  · simp [same, differs.symm]
  · simp [same]

theorem Booked.removePeer (booked : Booked key messages sent life transport) (differs : other ≠ key)
    : Booked key messages sent life (transport.removePeer other) :=
  booked.of_same (by rw [record_removePeer differs]) (by rw [record_removePeer differs])
    (queuedFor_removePeer differs)

theorem booked_removed (transport : Transport) (key : Bytes) (messages : Nat)
    : Booked key messages [] [] (transport.removePeer key) := by
  have fresh : (transport.removePeer key).record key = {} := by
    rw [record, Transport.removePeer, Std.TreeMap.getD_erase_self]
  have empty : (transport.removePeer key).queuedFor key = [] := by
    rw [queuedFor, Transport.removePeer, List.filter_filter]
    simp
  refine ⟨?_, ?_, ?_, ?_, ?_, ?_, ?_⟩
  · rw [fresh]
    exact ⟨Nat.zero_lt_one, Nat.le_add_left _ _⟩
  · intro seq entry stored
    rw [fresh, Std.TreeMap.getElem?_emptyc] at stored
    cases stored
  · exact fun input member => absurd member List.not_mem_nil
  · exact fun fragment member => absurd member List.not_mem_nil
  · exact fun left member => absurd member List.not_mem_nil
  · rw [empty]
    exact fun call member => absurd member List.not_mem_nil
  · rw [empty]
    exact List.nodup_nil

/-- The history of a record begins anew where a connection to its address takes another id. -/
def removes (key : Bytes) (transport : Transport) (event : Event) : Bool :=
  match event with
  | .connect remoteId addr => transport.replaced remoteId addr = some key
  | _ => false

/-- A connection keeps the books of a record unless it removes it. -/
theorem Booked.addPeer (booked : Booked key messages sent life transport) (moment : Moment)
    (remoteId : Bytes) (addr : AddrKey)
    : ∃ sent, Booked key messages sent
        (if removes key transport (.connect remoteId addr) then [] else life)
        (transport.addPeer moment remoteId addr) := by
  have decided : removes key transport (.connect remoteId addr)
      = decide (transport.replaced remoteId addr = some key) := rfl
  rw [decided]
  unfold Transport.addPeer
  rcases transport.replaced remoteId addr with - | removed
  · refine ⟨sent, ?_⟩
    rw [if_neg (by simp)]
    exact booked.insert rfl rfl rfl rfl
  · by_cases same : removed = key
    · subst same
      refine ⟨[], ?_⟩
      rw [if_pos (decide_eq_true rfl)]
      exact (booked_removed transport removed messages).insert rfl rfl rfl rfl
    · refine ⟨sent, ?_⟩
      rw [if_neg (by simpa using same)]
      exact (booked.removePeer same).insert rfl rfl rfl rfl

-- Fragments are drawn and sent

/-- The next id is the counter itself as long as it has 31 bits. -/
theorem nextMsgId_eq {msgIdOut : Nat} (positive : 0 < msgIdOut) (small : msgIdOut < 2 ^ 31)
    : Fragmenter.nextMsgId msgIdOut = (msgIdOut, msgIdOut + 1) := by
  have id : msgIdOut % 2 ^ 31 = msgIdOut := Nat.mod_eq_of_lt small
  have next : u32 (msgIdOut + 1) = msgIdOut + 1 := Nat.mod_eq_of_lt (by omega)
  simp only [Fragmenter.nextMsgId, id, next]
  rw [if_neg (by omega)]

/-- The calls for one message have places of their own if their indices fit. -/
theorem nodup_places (sending : Sending) (fits : sending.totalCount ≤ 65536)
    : (sending.calls.map fun call => (call.msgId, call.idx)).Nodup := by
  rw [sending.calls_eq, List.map_map]
  refine List.Nodup.map_on ?_ List.nodup_range
  intro left leftIn right rightIn same
  have index : UInt16.ofNat left = UInt16.ofNat right := (Prod.mk.inj same).2
  have numbers := congrArg UInt16.toNat index
  rw [UInt16.toNat_ofNat', UInt16.toNat_ofNat'] at numbers
  have leftBound := List.mem_range.mp leftIn
  have rightBound := List.mem_range.mp rightIn
  omega

/-- Splitting a message draws a new id for all its fragments. -/
theorem Booked.encodeNext (booked : Booked key messages sent life transport)
    (few : messages + 1 < 2 ^ 31)
    (fits : ∀ peer, ∀ entry ∈ transport.tasks, (Sending.mk numerics peer entry.2
      transport.identity.config.mtu transport.scratch).totalCount ≤ 65536)
    : Booked key (messages + 1) sent life (transport.encodeNext numerics) := by
  have later : Booked key (messages + 1) sent life transport :=
    { booked with counted := ⟨booked.counted.1, Nat.le_succ_of_le booked.counted.2⟩ }
  unfold Transport.encodeNext
  split
  · rename_i other payload tasks idle queue
    split
    · exact later.of_same rfl rfl rfl
    · rename_i peer found
      dsimp only
      have mine : transport.queuedFor key = [] := by rw [queuedFor, idle]; rfl
      by_cases same : other = key
      · subst same
        have here : transport.record other = peer := record_of_found found
        obtain ⟨positive, bound⟩ := booked.counted
        rw [here] at positive bound
        let sending : Sending := ⟨numerics, peer, payload, transport.identity.config.mtu,
          transport.scratch⟩
        have drawn : Fragmenter.nextMsgId peer.msgIdOut = (peer.msgIdOut, peer.msgIdOut + 1) :=
          nextMsgId_eq positive (by omega)
        have number : sending.messageId = peer.msgIdOut := congrArg Prod.fst drawn
        have counter : (Fragmenter.fragmentAndSend numerics peer payload
            transport.identity.config.mtu transport.scratch).msgIdOut = peer.msgIdOut + 1 :=
          congrArg Prod.snd drawn
        have total : sending.totalCount ≤ 65536 :=
          fits peer (other, payload) (queue ▸ List.mem_cons_self)
        have changed (rest : List (Bytes × FragmentCall)) (scratch : List Bytes) : (({
            transport with
            peers := transport.peers.insert other { peer with msgIdOut := peer.msgIdOut + 1 }
            tasks := tasks
            encoding := rest
            scratch := scratch
          } : Transport).record other) = { peer with msgIdOut := peer.msgIdOut + 1 } := by
          rw [record, Std.TreeMap.getD_insert_self]
        have queued (table : Std.TreeMap Bytes Peer) (scratch : List Bytes) : (({
            transport with
            peers := table
            tasks := tasks
            encoding := sending.calls.map fun call => (other, call)
            scratch := scratch
          } : Transport).queuedFor other) = sending.calls := by
          rw [queuedFor, List.filter_eq_self.mpr, List.map_map]
          · exact List.map_id _
          · simp
        have below : ∀ fragment ∈ sent, fragment.1.messageId.toNat < peer.msgIdOut :=
          here ▸ booked.drawn
        have numbered : ∀ call ∈ sending.calls, call.msgId.toNat = peer.msgIdOut := by
          intro call member
          rw [sending.calls_eq] at member
          obtain ⟨i, -, rfl⟩ := List.mem_map.mp member
          have id : (sending.call i).msgId = UInt32.ofNat peer.msgIdOut := by rw [← number]; rfl
          rw [id, UInt32.toNat_ofNat']
          exact Nat.mod_eq_of_lt (by omega)
        rw [counter]
        refine ⟨?_, ?_, booked.seals, ?_, booked.distinct, ?_, ?_⟩
        · rw [changed]
          exact ⟨Nat.succ_pos _, Nat.succ_le_succ bound⟩
        · rw [changed]
          exact here ▸ booked.pending
        · rw [changed]
          exact fun fragment member => Nat.lt_succ_of_lt (below fragment member)
        · intro call member
          have drawnNow : call.msgId.toNat = peer.msgIdOut := numbered call (queued _ _ ▸ member)
          rw [changed]
          refine ⟨drawnNow ▸ Nat.lt_succ_self _, fun fragment earlier place => ?_⟩
          have old := below fragment earlier
          rw [place.1, drawnNow] at old
          exact Nat.lt_irrefl _ old
        · exact queued _ _ ▸ nodup_places sending total
      · refine later.of_same ?_ ?_ ?_
        · exact congrArg Peer.pending ((record_insert rfl).trans (if_neg same))
        · exact congrArg Peer.msgIdOut ((record_insert rfl).trans (if_neg same))
        · rw [mine, queuedFor, List.filter_map]
          simp [Function.comp_def, same]
  · exact later

theorem sentOnly_append {header : PacketHeader} {payload : Bytes} (fragment : PacketHeader × Bytes)
    (known : sentOnly sent header payload)
    : sentOnly (sent ++ [fragment]) header payload :=
  fun carries => List.mem_append_left _ (known carries)

/-- A queued fragment that is sent takes the place that was kept for it. -/
theorem Booked.fragment (booked : Booked key messages sent life transport)
    {call : FragmentCall} {rest : List (Bytes × FragmentCall)}
    (queue : transport.encoding = (other, call) :: rest) (identity : Identity) (moment : Moment)
    : ∃ sent, Booked key messages sent life { transport with encoding := rest }
        ∧ (other = key
          → sentOnly sent (Link.fragmentHeader identity moment (transport.record key) call)
              call.payload) := by
  by_cases same : other = key
  · subst same
    let header := Link.fragmentHeader identity moment (transport.record other) call
    have place : atPlace call header := by
      simp only [header, Link.fragmentHeader]
      split <;> exact ⟨rfl, rfl⟩
    have queued : transport.queuedFor other
        = call :: ({ transport with encoding := rest } : Transport).queuedFor other := by
      rw [queuedFor, queue, List.filter_cons_of_pos (by simp), List.map_cons]
      rfl
    have places := booked.places
    rw [queued, List.map_cons, List.nodup_cons] at places
    have mine := booked.queued call (queued ▸ List.mem_cons_self)
    have apart : ∀ fragment ∈ sent, fragment.1.messageId = header.messageId
        → fragment.1.fragmentIndex = header.fragmentIndex → False := by
      intro fragment member message index
      exact mine.2 fragment member ⟨message.trans place.1, index.trans place.2⟩
    refine ⟨sent ++ [(header, call.payload)], ?_, fun _ _ => ?_⟩
    · refine ⟨booked.counted, ?_, ?_, ?_, ?_, ?_, places.2⟩
      · exact fun seq entry stored => sentOnly_append _ (booked.pending seq entry stored)
      · intro input member
        obtain ⟨packet, payload, known, called⟩ := booked.seals input member
        exact ⟨packet, payload, sentOnly_append _ known, called⟩
      · intro fragment member
        rcases List.mem_append.mp member with earlier | last
        · exact booked.drawn fragment earlier
        · rw [List.mem_singleton.mp last]
          exact place.1.symm ▸ mine.1
      · intro left leftIn right rightIn message index
        rcases List.mem_append.mp leftIn with leftOld | leftNew
        · rcases List.mem_append.mp rightIn with rightOld | rightNew
          · exact booked.distinct left leftOld right rightOld message index
          · rw [List.mem_singleton.mp rightNew] at message index
            exact absurd index (apart left leftOld message)
        · rcases List.mem_append.mp rightIn with rightOld | rightNew
          · rw [List.mem_singleton.mp leftNew] at message index
            exact absurd index.symm (apart right rightOld message.symm)
          · rw [List.mem_singleton.mp leftNew, List.mem_singleton.mp rightNew]
      · intro later member
        have old := booked.queued later (queued ▸ List.mem_cons_of_mem _ member)
        refine ⟨old.1, fun fragment sentNow => ?_⟩
        rcases List.mem_append.mp sentNow with earlier | last
        · exact old.2 fragment earlier
        · rw [List.mem_singleton.mp last]
          intro taken
          refine places.1 (List.mem_map.mpr ⟨later, member, ?_⟩)
          exact Prod.ext (taken.1.symm.trans place.1) (taken.2.symm.trans place.2)
    · exact List.mem_append_right _ List.mem_cons_self
  · refine ⟨sent, booked.of_same rfl rfl ?_, fun here => absurd here same⟩
    rw [queuedFor, queuedFor, queue, List.filter_cons_of_neg (by simpa using same)]

-- One step

/-- How many messages a step splits. -/
def splits (event : Event) : Nat := if event = .encode then 1 else 0

/-- The encryption calls that a record has made since it was made, after one more step. -/
def lifeAfter (key : Bytes) (life : List Seal) (transport : Transport) (event : Event)
    (outputs : List Effect)
    : List Seal :=
  (if removes key transport event then [] else life) ++ sealsFor key outputs

/-- Every message that waits to be split has few enough fragments for their 16-bit indices. -/
def QueueFits (numerics : Numerics) (transport : Transport) : Prop :=
  ∀ peer, ∀ entry ∈ transport.tasks,
    (Sending.mk numerics peer entry.2 transport.identity.config.mtu transport.scratch).totalCount
      ≤ 65536

/-- A step keeps the books of every record. Witness: only the fragment step seals a fragment that was not
pending, and the call that it takes from the queue has kept a place for it.
-/
theorem Booked.step {occurrence : Occurrence} (booked : Booked key messages sent life transport)
    (taken : step numerics transport occurrence = .ok (after, outputs))
    (few : messages + splits occurrence.event < 2 ^ 31) (fits : QueueFits numerics transport)
    : ∃ sent, Booked key (messages + splits occurrence.event) sent
        (lifeAfter key life transport occurrence.event outputs) after := by
  have plain {body : Link → Link} {on : Bytes} {inner : Transport} {books : List Seal}
      {fragments : List (PacketHeader × Bytes)} (start : Booked key messages fragments books inner)
      (visits : Visits key on (fun link => .ok (body link)) inner after outputs)
      (vouched : ∀ link : Link,
        link.Vouched (sentOnly fragments) (inner.record key).msgIdOut
        → (body link).Vouched (sentOnly fragments) (inner.record key).msgIdOut)
      : Booked key messages fragments (books ++ sealsFor key outputs) after := by
    refine start.visit visits fun next _ ran => ?_
    cases ran
    exact vouched _ start.vouched
  have apart := apart_sentOnly sent
  rcases occurrence with ⟨moment, event⟩
  cases steps_of_ok key taken with
  | @connect _ _ remoteId addr visits =>
      obtain ⟨sent, added⟩ := booked.addPeer moment remoteId addr
      exact ⟨sent, plain added visits fun link vouched =>
        vouched.sendHandshake (apart_sentOnly sent)⟩
  | undecoded | refused | drained =>
      exact ⟨sent, by simpa [lifeAfter, removes, sealsFor, splits] using booked⟩
  | @datagram _ _ source bytes payload draw header decoded visits =>
      have found := booked.findOrCreatePeerByAddr moment source draw
      exact ⟨sent, found.visit visits fun next _ ran => found.vouched.handlePacket apart ran⟩
  | sendCommand short found visits =>
      refine ⟨sent, plain booked visits fun link vouched => ?_⟩
      refine vouched.sendCommand fun header payload command carries => ?_
      rw [command] at carries
      exact absurd carries (by unfold carriesFragment; decide)
  | @processSend peerId payload =>
      refine ⟨sent, ?_⟩
      have kept : Booked key messages sent life (transport.queueMessage peerId payload) := by
        unfold queueMessage
        split
        · exact booked
        · split
          · exact booked
          · split
            · exact booked.of_same rfl rfl rfl
            · exact booked
      simpa [lifeAfter, removes, sealsFor, splits] using kept
  | encode =>
      refine ⟨sent, ?_⟩
      simpa [lifeAfter, removes, sealsFor, splits] using booked.encodeNext few fits
  | fragment queue visits =>
      obtain ⟨sent, next, known⟩ := booked.fragment queue transport.identity moment
      refine ⟨sent, next.visit visits fun link same ran => ?_⟩
      cases ran
      exact next.vouched.sendDataPacket (known same)
  | sendHandshakes visits =>
      exact ⟨sent, plain booked visits fun link vouched => vouched.sendHandshakes apart⟩
  | sendHeartbeats visits =>
      exact ⟨sent, plain booked visits fun link vouched => vouched.sendHeartbeats⟩
  | sendReports visits =>
      exact ⟨sent, plain booked visits fun link vouched => vouched.sendReports⟩
  | checkOffline visits =>
      exact ⟨sent, plain booked visits fun link vouched => vouched.checkOffline⟩
  | flushCommands visits =>
      exact ⟨sent, plain booked visits fun link vouched => vouched.flushCommands⟩

-- Runs

/-- How many messages a history splits. -/
def messagesIn (history : List (Stage Transport Occurrence Effect)) : Nat :=
  (history.map fun stage => splits stage.event.event).sum

/-- The encryption calls of a record since it was made last. -/
def lifeOf (key : Bytes) (history : List (Stage Transport Occurrence Effect)) : List Seal :=
  history.foldl (fun life stage => lifeAfter key life stage.before stage.event.event stage.outputs) []

/-- Messages of every length that is accepted have few enough fragments for their 16-bit indices. -/
def FragmentsFit (identity : Identity) : Prop :=
  ∀ payload : Bytes, payload.length ≤ identity.maxMessageBytes
    → Fragmenter.dataCount payload identity.config.mtu + 3 ≤ 65536

/-- The messages that wait to be split were accepted by this end. -/
structure Accepted (identity : Identity) (transport : Transport) : Prop where
  same : transport.identity = identity
  tasks : ∀ entry ∈ transport.tasks, entry.2.length ≤ identity.maxMessageBytes

variable {identity : Identity} {history front back : List (Stage Transport Occurrence Effect)}
  {last : Transport}

theorem Accepted.of_subset (accepted : transport.Accepted identity)
    (same : after.identity = transport.identity) (tasks : after.tasks ⊆ transport.tasks)
    : after.Accepted identity :=
  ⟨same.trans accepted.same, fun entry member => accepted.tasks entry (tasks member)⟩

theorem Accepted.visit {body : Link → Except Fault Link} (accepted : transport.Accepted identity)
    (visits : Visits key other body transport after outputs)
    : after.Accepted identity := by
  cases visits with
  | absent => exact accepted
  | _ => exact ⟨accepted.same, accepted.tasks⟩

theorem Accepted.addPeer (accepted : transport.Accepted identity) (moment : Moment) (remoteId : Bytes)
    (addr : AddrKey)
    : (transport.addPeer moment remoteId addr).Accepted identity := by
  unfold Transport.addPeer
  rcases transport.replaced remoteId addr with - | removed
  · exact ⟨accepted.same, accepted.tasks⟩
  · exact ⟨accepted.same, fun entry member => accepted.tasks entry (List.mem_filter.mp member).1⟩

theorem Accepted.queueMessage (accepted : transport.Accepted identity) (peerId payload : Bytes)
    : (transport.queueMessage peerId payload).Accepted identity := by
  unfold Transport.queueMessage
  split
  · exact accepted
  · rename_i short
    split
    · exact accepted
    · split
      · refine ⟨accepted.same, fun entry member => ?_⟩
        rcases List.mem_append.mp member with earlier | last
        · exact accepted.tasks entry earlier
        · rw [List.mem_singleton.mp last, ← accepted.same]
          exact Nat.le_of_not_lt short
      · exact accepted

theorem Accepted.encodeNext (accepted : transport.Accepted identity)
    : (transport.encodeNext numerics).Accepted identity := by
  unfold Transport.encodeNext
  split
  · rename_i queue
    have shorter : ∀ tasks : List (Bytes × Bytes), (∃ entry, transport.tasks = entry :: tasks)
        → tasks ⊆ transport.tasks := by
      rintro tasks ⟨entry, same⟩ task member
      rw [same]
      exact List.mem_cons_of_mem _ member
    split
    · exact accepted.of_subset rfl (shorter _ ⟨_, queue⟩)
    · exact accepted.of_subset rfl (shorter _ ⟨_, queue⟩)
  · exact accepted

theorem Accepted.step {occurrence : Occurrence} (accepted : transport.Accepted identity)
    (taken : step numerics transport occurrence = .ok (after, outputs))
    : after.Accepted identity := by
  rcases occurrence with ⟨moment, event⟩
  cases steps_of_ok [] taken with
  | @connect _ _ remoteId addr visits => exact (accepted.addPeer moment remoteId addr).visit visits
  | undecoded | refused | drained => exact accepted
  | @datagram _ _ source bytes payload draw header decoded visits =>
      have created : (transport.findOrCreatePeerByAddr moment source draw).1.Accepted identity := by
        unfold Transport.findOrCreatePeerByAddr
        split
        · exact accepted
        · exact ⟨accepted.same, accepted.tasks⟩
      exact created.visit visits
  | @processSend peerId payload => exact accepted.queueMessage peerId payload
  | encode => exact accepted.encodeNext
  | @fragment _ _ on call rest queue visits =>
      have popped : Accepted identity { transport with encoding := rest } :=
        ⟨accepted.same, accepted.tasks⟩
      exact popped.visit visits
  | sendCommand short found visits => exact accepted.visit visits
  | sendHandshakes visits | sendHeartbeats visits | sendReports visits | checkOffline visits
  | flushCommands visits => exact accepted.visit visits

theorem Accepted.queueFits (accepted : transport.Accepted identity) (fits : FragmentsFit identity)
    : QueueFits numerics transport := by
  intro peer entry member
  have data := fits entry.2 (accepted.tasks entry member)
  rw [← accepted.same] at data
  have parity := (Sending.mk numerics peer entry.2 transport.identity.config.mtu
    transport.scratch).parityCount_le
  exact Nat.le_trans (Nat.add_le_add_left parity _) data

theorem messagesIn_append (history : List (Stage Transport Occurrence Effect))
    (stage : Stage Transport Occurrence Effect)
    : messagesIn (history ++ [stage]) = messagesIn history + splits stage.event.event := by
  simp [messagesIn]

theorem lifeOf_append (key : Bytes) (history : List (Stage Transport Occurrence Effect))
    (stage : Stage Transport Occurrence Effect)
    : lifeOf key (history ++ [stage])
      = lifeAfter key (lifeOf key history) stage.before stage.event.event stage.outputs := by
  simp [lifeOf]

theorem run_booked
    (run : Run (step numerics) (fun _ _ _ => True) (initial identity) history last)
    (fits : FragmentsFit identity) (few : messagesIn history < 2 ^ 31) (key : Bytes)
    : last.Accepted identity
      ∧ ∃ sent, Booked key (messagesIn history) sent (lifeOf key history) last := by
  refine run.invariant (fun history last => messagesIn history < 2 ^ 31 → last.Accepted identity
    ∧ ∃ sent, Booked key (messagesIn history) sent (lifeOf key history) last) ?_ ?_ few
  · exact fun _ => ⟨⟨rfl, fun entry member => absurd member List.not_mem_nil⟩, [],
      booked_initial identity key⟩
  · intro history state event after outputs _ kept _ taken few
    rw [messagesIn_append] at few ⊢
    rw [lifeOf_append]
    obtain ⟨accepted, sent, booked⟩ := kept (by omega)
    exact ⟨accepted.step taken, booked.step taken few (accepted.queueFits fits)⟩

/-- The encryption calls of a record in a stretch that does not remove it are among those of its life.
-/
theorem sealsFor_subset_life (front : List (Stage Transport Occurrence Effect))
    (stays : ∀ stage ∈ back, removes key stage.before stage.event.event = false)
    : (back.flatMap fun stage => sealsFor key stage.outputs) ⊆ lifeOf key (front ++ back) := by
  induction back using List.reverseRecOn with
  | nil => exact List.nil_subset _
  | append_singleton earlier stage ih =>
      have kept := stays stage (List.mem_append_right _ List.mem_cons_self)
      have before := ih fun other member => stays other (List.mem_append_left _ member)
      rw [← List.append_assoc, lifeOf_append, lifeAfter, kept, if_neg Bool.false_ne_true,
        List.flatMap_append]
      intro input member
      rcases List.mem_append.mp member with first | second
      · exact List.mem_append_left _ (before first)
      · exact List.mem_append_right _ (by simpa using second)

/-- Two encryption calls of a record for fragments that share a nonce are the same call but for the key, as
long as no connection has removed the record between them, fewer than 2^31 messages were split, and
every accepted message has few enough fragments for their 16-bit indices.
-/
theorem shared_fragment_nonce
    (run : Run (step numerics) (fun _ _ _ => True) (initial identity) (front ++ back) last)
    (fits : FragmentsFit identity) (few : messagesIn (front ++ back) < 2 ^ 31)
    (stays : ∀ stage ∈ back, removes key stage.before stage.event.event = false)
    {left right : Seal} (leftIn : left ∈ back.flatMap fun stage => sealsFor key stage.outputs)
    (rightIn : right ∈ back.flatMap fun stage => sealsFor key stage.outputs)
    (fragment : fragmentNonce left.nonce) (same : left.nonce = right.nonce)
    : left.aad = right.aad ∧ left.plaintext = right.plaintext := by
  obtain ⟨-, sent, booked⟩ := run_booked run fits few key
  have within := sealsFor_subset_life front stays
  obtain ⟨leftHeader, leftPayload, leftKnown, leftCall⟩ := booked.seals left (within leftIn)
  obtain ⟨rightHeader, rightPayload, rightKnown, rightCall⟩ := booked.seals right (within rightIn)
  have leftNonce : left.nonce = buildNonce (wireHeader true leftHeader leftPayload) :=
    congrArg Prod.fst leftCall
  have rightNonce : right.nonce = buildNonce (wireHeader true rightHeader rightPayload) :=
    congrArg Prod.fst rightCall
  have leftCarries : carriesFragment leftHeader.type := fragmentNonce_iff.mp (leftNonce ▸ fragment)
  have rightCarries : carriesFragment rightHeader.type :=
    fragmentNonce_iff.mp (rightNonce ▸ same ▸ fragment)
  obtain ⟨message, index⟩ := place_of_nonce leftCarries (leftNonce ▸ rightNonce ▸ same)
  have packets := booked.distinct _ (leftKnown leftCarries) _ (rightKnown rightCarries) message index
  obtain ⟨header, payload⟩ := Prod.mk.inj packets
  have calls : left.call = right.call := by rw [leftCall, rightCall, header, payload]
  exact ⟨congrArg (fun call => call.2.1) calls, congrArg (fun call => call.2.2) calls⟩

-- A fragment that is sealed twice

/-- What the transport does with the report of a stranger that misses its second packet. -/
def takesComplaint (transport : Transport) : Except Fault (Transport × List Effect) :=
  let payload := Report.encode 0 0 [2] 0
  let header := strangerHeader .report payload
  let found := transport.findOrCreatePeerByAddr ⟨0, 0⟩ stranger 0
  found.1.visit found.2 (Link.handlePacket default transport.identity ⟨0, 0⟩
    { header with checksum := PacketCodec.checksumOf header payload } payload)

/-- The stranger misses its second packet. -/
def complains : Occurrence := strangerSends .report (Report.encode 0 0 [2] 0)

theorem step_complains : step default transport complains = transport.takesComplaint := by
  rw [complains, strangerSends, step_datagram rfl rfl (by decide) (by decide)]
  rfl

/-- Whether a step succeeds and what it leaves passes a check. -/
def leaves (result : Except Fault (Transport × List Effect))
    (check : Transport → List Effect → Bool)
    : Bool :=
  match result with
  | .error _ => false
  | .ok (after, outputs) => check after outputs

theorem leaves_ok {result : Except Fault (Transport × List Effect)}
    {check : Transport → List Effect → Bool} (passes : leaves result check = true)
    : ∃ after outputs, result = .ok (after, outputs) ∧ check after outputs = true := by
  rcases result with fault | ⟨after, outputs⟩
  · cases passes
  · exact ⟨after, outputs, rfl, passes⟩

/-- Whether both lists show a call for a fragment, with one nonce. -/
def sealedAgain (first second : List Seal) : Bool :=
  first.any fun left => fragmentNonce left.nonce && second.any fun right => left.nonce = right.nonce

theorem sealedAgain_ok {first second : List Seal} (again : sealedAgain first second = true)
    : ∃ left ∈ first, ∃ right ∈ second, fragmentNonce left.nonce ∧ left.nonce = right.nonce := by
  obtain ⟨left, leftIn, both⟩ := List.any_eq_true.mp again
  obtain ⟨fragment, found⟩ := Bool.and_eq_true_iff.mp both
  obtain ⟨right, rightIn, same⟩ := List.any_eq_true.mp found
  exact ⟨left, leftIn, right, rightIn, of_decide_eq_true fragment, of_decide_eq_true same⟩

/-- The stranger links up, a byte is sent to it in one fragment, and its report asks for that again. -/
def sendsTwice : Bool :=
  let key := anonymousId stranger 0
  leaves (step default (initial strangerIdentity) acknowledges) fun linked _ =>
    leaves (step default linked ⟨⟨0, 0⟩, .processSend key [7]⟩) fun queued _ =>
      leaves (step default queued ⟨⟨0, 0⟩, .encode⟩) fun split _ =>
        leaves (step default split ⟨⟨0, 0⟩, .fragment⟩) fun sent first =>
          leaves sent.takesComplaint fun _ second =>
            sealedAgain (sealsFor key first) (sealsFor key second)

theorem sendsTwice_true : sendsTwice = true := by
  rw [sendsTwice, acknowledges, step_datagram rfl rfl (by decide) (by decide)]
  decide +kernel

/-- Under the default limits a message has few enough fragments. -/
theorem strangerIdentity_fragmentsFit : FragmentsFit strangerIdentity := by
  intro payload short
  have few : payload.length ≤ 10 * 1024 * 1024 := Nat.le_trans short (by decide)
  have whole : (Fragmenter.full payload).length = payload.length + 4 := by
    rw [Fragmenter.full, List.length_append]
    exact Nat.add_comm _ _
  have width : Fragmenter.fragPayload strangerIdentity.config.mtu = 1302 := by decide
  rw [Fragmenter.dataCount, whole, width]
  omega

/-- The fragment that a report asks for is sealed twice with one nonce, and both calls encrypt the same.
-/
theorem shared_fragment_nonce_resent
    : ∃ history last, ∃ first ∈ history, ∃ second ∈ history,
      Run (step default) (fun _ _ _ => True) (initial strangerIdentity) history last
      ∧ first.event ≠ second.event
      ∧ ∃ left ∈ sealsFor (anonymousId stranger 0) first.outputs,
        ∃ right ∈ sealsFor (anonymousId stranger 0) second.outputs,
          left.nonce = right.nonce ∧ left.aad = right.aad ∧ left.plaintext = right.plaintext := by
  have shown := sendsTwice_true
  rw [sendsTwice] at shown
  obtain ⟨linked, greeting, acked, rest⟩ := leaves_ok shown
  obtain ⟨queued, silent, accepted, rest⟩ := leaves_ok rest
  obtain ⟨split, quiet, encoded, rest⟩ := leaves_ok rest
  obtain ⟨sent, first, fragmented, rest⟩ := leaves_ok rest
  obtain ⟨last, second, complained, again⟩ := leaves_ok rest
  obtain ⟨left, leftIn, right, rightIn, fragment, same⟩ := sealedAgain_ok again
  have begun : Run (step default) (fun _ _ _ => True) (initial strangerIdentity) []
      (initial strangerIdentity) :=
    .start
  have upToFragment := (((begun.next trivial acked).next trivial accepted).next trivial encoded).next
    trivial fragmented
  have run := upToFragment.next trivial (step_complains.trans complained)
  refine ⟨_, last, ⟨split, ⟨⟨0, 0⟩, .fragment⟩, first⟩, ?_, ⟨sent, complains, second⟩, ?_, run, ?_,
    left, leftIn, right, rightIn, same, ?_⟩
  · simp
  · simp
  · intro equal
    cases equal
  · refine @shared_fragment_nonce default (anonymousId stranger 0) strangerIdentity [] _ last run
      strangerIdentity_fragmentsFit ?_ ?_ left right ?_ ?_ fragment same
    · simp [messagesIn, splits, acknowledges, complains, strangerSends]
    · simp [removes, acknowledges, complains, strangerSends]
    · simp [leftIn]
    · simp [rightIn]

end Transport

end Creek.Tight
