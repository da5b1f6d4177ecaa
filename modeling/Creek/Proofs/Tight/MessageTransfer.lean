import Creek.Proofs.Tight.KeyAgreement
import Creek.Proofs.Tight.MessageIntegrity
import Creek.Proofs.Tight.SentMessages
import Creek.Proofs.Tight.WireRoundTrip

/-! Messages from one transport to another. Whatever the network loses, repeats, delays or reorders, and
whatever else both ends do, a message handed over for a peer is one that was submitted to the other end.
-/

namespace Creek.Tight

open Library PacketCodec

-- What a group of fragments assembles to

namespace Sending

variable {sending : Sending} {seen : Finset Nat} {firstSeen : TimePoint}

/-- The fragments of a group encode the message, whether or not its gaps can be told apart. -/
theorem coded_group (sending : Sending) (seen : Finset Nat) (firstSeen : TimePoint)
    : ReedSolomon.Coded sending.originals
        ((sending.group seen firstSeen).fragments.take sending.dataCount)
        (Reassembler.arrivedParities (sending.group seen firstSeen) sending.dataCount
          sending.parityCount)
        sending.width := by
  constructor
  · intro original member
    obtain ⟨i, inRange, rfl⟩ := List.mem_map.mp member
    exact Nat.le_of_eq (sending.length_shard (lt_totalCount (List.mem_range.mp inRange)))
  · rw [take_fragments_group, length_originals, List.length_map, List.length_range]
  · exact fun j fragment => originals_group
  · intro p fragment member k _
    rw [arrivedParities_group] at member
    obtain ⟨q, inSeen, same⟩ := List.mem_map.mp member
    obtain ⟨rfl, rfl⟩ := Prod.mk.inj same
    exact sending.symbol_shard_parity (List.mem_range.mp (List.mem_of_mem_filter inSeen)) k

/-- Whatever a group assembles to is the stream of the message. Witness: a decoding that succeeds has
solved equations that the fragments of the message solve.
-/
theorem tryAssemble_sound (known : seen ⊆ Finset.range sending.totalCount) {limit : Nat}
    {bytes : Bytes}
    (assembled : Reassembler.tryAssemble (sending.group seen firstSeen) limit = .ok (some bytes))
    : bytes = Reassembler.unframe limit (sending.stream seen) := by
  by_cases all : Finset.range sending.dataCount ⊆ seen
  · rw [tryAssemble_all all limit] at assembled
    exact (Option.some.inj (Except.ok.inj assembled)).symm
  have inFragments : sending.dataCount ≤ (sending.group seen firstSeen).fragments.length := by
    simp [group, totalCount]
  have inSizes : sending.dataCount ≤ (sending.group seen firstSeen).sizes.length := by
    simp [group, totalCount]
  have gaps := dataSeen_ne all
  have atMost := sending.dataSeen_le seen
  rw [tryAssemble_group, if_neg gaps] at assembled
  have fewGaps : sending.dataCount - sending.dataSeen seen ≤ sending.parityCount := by
    by_contra many
    rw [Reassembler.recover, if_pos (Nat.lt_of_not_le many)] at assembled
    cases assembled
  have enough : sending.dataCount - sending.dataSeen seen
      ≤ (Reassembler.arrivedParities (sending.group seen firstSeen) sending.dataCount
        sending.parityCount).length := by
    by_contra few
    rw [Reassembler.recover_few inFragments limit (Nat.lt_of_not_le few)] at assembled
    cases assembled
  have nonempty : seen.Nonempty := by
    rw [arrivedParities_group, List.length_map] at enough
    have counted := card_seen known
    exact Finset.card_pos.mp (by omega)
  have width := maxWidth_group firstSeen known nonempty
  have positive := sending.width_pos
  rcases decoded : ReedSolomon.decode ((sending.group seen firstSeen).fragments.take sending.dataCount)
      (Reassembler.arrivedParities (sending.group seen firstSeen) sending.dataCount
        sending.parityCount)
      (Reassembler.maxWidth (sending.group seen firstSeen)) with - | recovered
  · rw [Reassembler.recover_undecodable inFragments limit decoded] at assembled
    cases assembled
  · obtain ⟨filled, isFilled, delivered⟩ := Reassembler.recover_decoded inFragments limit inSizes
      fewGaps enough (by omega) decoded
    rw [delivered] at assembled
    obtain rfl := Option.some.inj (Except.ok.inj assembled)
    rw [width] at isFilled decoded
    rw [stream_filled isFilled]
    intro i inRange _
    have restored := (sending.coded_group seen firstSeen).decode decoded
      (sending.getElem?_originals inRange)
    rwa [ReedSolomon.padded_of_length (sending.length_shard (lt_totalCount inRange)), ite_self]
      at restored

end Sending

-- What a posted datagram opens to

/-- The sizes and counts of a message fit their header fields, also behind a tag. -/
structure Sending.Narrow (sending : Sending) : Prop where
  width : sending.width + kGcmTagSize ≤ 65535
  count : sending.totalCount < 2 ^ 15

variable {log : List Sending} {receiver : Peer} {header : PacketHeader} {payload : Bytes}

theorem CarriedBy.fit {sending : Sending} {call : FragmentCall} (narrow : sending.Narrow)
    (made : call ∈ sending.calls) (carried : CarriedBy call header payload)
    : header.flags < kFlagEncrypted ∧ payload.length = header.payloadSize.toNat
      ∧ payload.length + kGcmTagSize ≤ 65535 := by
  obtain ⟨⟨clientId, sessionId, tick, sequence, rfl⟩, rfl⟩ := carried
  rw [sending.calls_eq] at made
  obtain ⟨i, inRange, rfl⟩ := List.mem_map.mp made
  have bound := List.mem_range.mp inRange
  have length : (sending.call i).payload.length = sending.width := by
    rw [sending.payload_call bound, sending.length_shard bound]
  have wide := narrow.width
  have count := narrow.count
  have data : sending.dataCount ≤ sending.totalCount := Nat.le_add_right _ _
  refine ⟨?_, ?_, length ▸ wide⟩
  · show UInt16.ofNat sending.dataCount < kFlagEncrypted
    rw [UInt16.lt_iff_toNat_lt, UInt16.toNat_ofNat']
    show sending.dataCount % 2 ^ 16 < 32768
    omega
  · show (sending.call i).payload.length = (UInt16.ofNat (sending.call i).payload.length).toNat
    rw [UInt16.toNat_ofNat', length]
    omega

/-- A datagram opens to the packet it was made of, under the key that sealed it if at all. -/
theorem opened_wire {encryptionEnabled : Bool} {sender : Peer} {received : PacketHeader}
    {body : Bytes} {opened : PacketHeader × Bytes} {buffer : Nat}
    (agreed : (encryptionEnabled && sender.cryptoReady) = true → receiver.cryptoReady = true
      → receiver.cryptoKey = sender.cryptoKey)
    (low : header.flags < kFlagEncrypted) (size : payload.length = header.payloadSize.toNat)
    (room : payload.length + kGcmTagSize ≤ 65535)
    (decoded : decode ((buildWirePacket encryptionEnabled sender header payload).take buffer)
      = some (received, body))
    (opens : openPayload receiver received body = some opened)
    : ∃ checksum, opened = ({ header with checksum := checksum }, payload) := by
  rw [buildWirePacket_eq_encode size room, encode, encodeTo] at decoded
  obtain ⟨checksum, rfl, rfl, -⟩ := decode_take_finalizeCrc decoded
  rw [length_wireBody size room, List.take_length] at opens
  have holds : (encryptionEnabled && sender.cryptoReady) = true
      → receiver.cryptoReady = true ∧ receiver.cryptoKey = sender.cryptoKey := by
    intro mode
    have ready : receiver.cryptoReady = true := by
      by_contra unready
      rw [mode, openPayload, if_pos (wireHeader_marked header payload), decryptPayload,
        if_pos (by simpa using unready)] at opens
      cases opens
    exact ⟨ready, agreed mode ready⟩
  rw [openPayload_wireBody holds low size] at opens
  exact ⟨checksum, (Option.some.inj opens).symm⟩

theorem sealOf_of_ready {encryptionEnabled : Bool} {sender : Peer}
    (on : (encryptionEnabled && sender.cryptoReady) = true) (header : PacketHeader) (payload : Bytes)
    : sealOf encryptionEnabled sender header payload
      = some
          {
            key := sender.cryptoKey
            nonce := buildNonce (wireHeader true header payload)
            aad := (encodeHeaderTo (wireHeader true header payload)).take 44
            plaintext := payload
          } := by
  simp only [sealOf, on, if_true]

/-- A posted datagram with a fragment opens to a fragment of the log. -/
theorem Posted.opened {datagram body : Bytes} {sealed : Option Seal} {received : PacketHeader}
    {opened : PacketHeader × Bytes} {buffer : Nat} (posted : Posted (fromLog log) datagram sealed)
    (narrow : ∀ sending ∈ log, sending.Narrow)
    (agreed : ∀ input, sealed = some input → receiver.cryptoReady
      → receiver.cryptoKey = input.key)
    (decoded : decode (datagram.take buffer) = some (received, body))
    (opens : openPayload receiver received body = some opened)
    (carries : carriesFragment opened.1.type)
    : ∃ sending ∈ log, ∃ call ∈ sending.calls, ∃ header checksum,
        CarriedBy call header opened.2 ∧ opened.1 = { header with checksum := checksum } := by
  have type := (openPayload_header opens).1
  cases posted with
  | @control header payload plain =>
      rw [encode, encodeTo] at decoded
      obtain ⟨checksum, rfl, -, -⟩ := decode_take_finalizeCrc decoded
      cases plain.symm.trans (carriesUserData_of_fragment (type ▸ carries))
  | @wire encryptionEnabled sender header payload holds =>
      have kind : carriesFragment header.type := by
        have built := decoded
        simp only [buildWirePacket] at built
        obtain ⟨checksum, rfl, -, -⟩ := decode_take_finalizeCrc built
        rw [type] at carries
        simp only [wireHeader] at carries
        split at carries <;> exact carries
      obtain ⟨sending, member, call, made, carried⟩ := holds kind
      obtain ⟨low, size, room⟩ := carried.fit (narrow sending member) made
      have same : ∃ checksum, opened = ({ header with checksum := checksum }, payload) := by
        refine opened_wire (fun mode ready => ?_) low size room decoded opens
        exact agreed _ (sealOf_of_ready mode header payload) ready
      obtain ⟨checksum, rfl⟩ := same
      exact ⟨sending, member, call, made, header, checksum, carried, rfl⟩

-- What a receiver holds

/-- Every group under reassembly holds fragments of one message of the log. -/
def Held (log : List Sending) (collection : Collection) : Prop :=
  ∀ (id : Nat) (group : IncomingMessage), collection.incoming[id]? = some group
    → ∃ sending ∈ log, sending.messageId = id
      ∧ ∃ seen ⊆ Finset.range sending.totalCount, ∃ firstSeen, group = sending.group seen firstSeen

theorem held_empty (log : List Sending) : Held log {} := by
  intro id group stored
  simp at stored

theorem Held.fewer {collection fewer : Collection} (held : Held log collection)
    (kept : ∀ (id : Nat) (group : IncomingMessage), fewer.incoming[id]? = some group
      → collection.incoming[id]? = some group)
    : Held log fewer :=
  fun id group stored => held id group (kept id group stored)

theorem Held.put {collection : Collection} (held : Held log collection) {sending : Sending}
    (member : sending ∈ log) {seen : Finset Nat} (known : seen ⊆ Finset.range sending.totalCount)
    (firstSeen : TimePoint)
    : Held log
        {
          collection with
          incoming :=
            collection.incoming.insert sending.messageId (sending.group seen firstSeen)
        } := by
  intro id group stored
  rw [Std.TreeMap.getElem?_insert] at stored
  split at stored
  · rename_i same
    cases stored
    exact ⟨sending, member, Std.LawfulEqCmp.compare_eq_iff_eq.mp same, seen, known, firstSeen, rfl⟩
  · exact held id group stored

/-- The messages of the log have ids of their own and go into one limit. -/
structure Transferable (limit : Nat) (log : List Sending) : Prop where
  distinct : ∀ left ∈ log, ∀ right ∈ log, left.messageId = right.messageId → left = right
  payload : ∀ sending ∈ log, sending.payload.length ≤ limit
  narrow : ∀ sending ∈ log, sending.Narrow
  wide : ∀ sending ∈ log, 4 ≤ sending.width
  limit : limit < 2 ^ 32

/-- The group that a fragment of the log finds holds fragments of its message. -/
theorem Held.openGroup {collection : Collection} (held : Held log collection)
    {limit : Nat} (transferable : Transferable limit log) {sending : Sending}
    (member : sending ∈ log) {i : Nat} {arrival : Reassembler.Arrival}
    (carries : sending.CarriesIndex i arrival)
    : ∃ seen ⊆ Finset.range sending.totalCount, ∃ firstSeen,
        Reassembler.openGroup collection arrival.header arrival.context.now
          = sending.group seen firstSeen := by
  simp only [Reassembler.openGroup, carries.messageId, carries.fragmentCount, carries.flags,
    Std.TreeMap.getD_eq_getD_getElem?]
  rcases stored : collection.incoming[sending.messageId]? with - | group
  · refine ⟨∅, Finset.empty_subset _, arrival.context.now, ?_⟩
    simp [Sending.group]
  · obtain ⟨other, known, same, seen, inside, firstSeen, rfl⟩ := held _ _ stored
    obtain rfl := transferable.distinct other known sending member same
    have belongs : (other.group seen firstSeen).messageId ≠ 0 :=
      Nat.ne_of_gt other.messageId_range.1
    exact ⟨seen, inside, firstSeen, by rw [Option.getD_some, if_neg belongs]⟩

/-- Collecting a fragment of the log keeps what is held, and completes the message it belongs to or none.
-/
theorem Held.collect {collection next : Collection} (held : Held log collection)
    {limit : Nat} (transferable : Transferable limit log) {sending : Sending}
    (member : sending ∈ log) {i : Nat} {arrival : Reassembler.Arrival}
    (carries : sending.CarriesIndex i arrival)
    (atLimit : arrival.context.maxMessageBytes = limit) {delivered : Option Bytes}
    (collected : Reassembler.collect collection arrival.header arrival.payload arrival.context
      = .ok (next, delivered))
    : Held log next ∧ ∀ bytes, delivered = some bytes → bytes = sending.payload := by
  obtain ⟨seen, known, firstSeen, opened⟩ := held.openGroup transferable member carries
  have length : (sending.group seen firstSeen).fragments.length = sending.totalCount := by
    simp [Sending.group]
  have counts : ¬(sending.group seen firstSeen).totalCount ≠ sending.totalCount :=
    not_not_intro rfl
  have inside : insert i seen ⊆ Finset.range sending.totalCount :=
    Finset.insert_subset (Finset.mem_range.mpr carries.index) known
  rw [Reassembler.collect] at collected
  simp only [opened, carries.messageId, carries.fragmentCount, carries.fragmentIndex, counts,
    if_false, length, ge_iff_le, Nat.not_le.mpr carries.index,
    Sending.storeFragment_group carries, atLimit] at collected
  rcases assembled : Reassembler.tryAssemble (sending.group (insert i seen) firstSeen) limit with
    fault | result
  · rw [assembled] at collected
    cases collected
  · rw [assembled, ok_bind] at collected
    cases result with
    | none =>
        obtain ⟨rfl, rfl⟩ := Prod.mk.inj (Except.ok.inj collected)
        exact ⟨held.put member inside firstSeen, fun bytes none_ => by cases none_⟩
    | some bytes =>
        obtain ⟨rfl, rfl⟩ := Prod.mk.inj (Except.ok.inj collected)
        refine ⟨held.fewer fun id group stored => ?_, fun other same => ?_⟩
        · dsimp only at stored
          rw [Std.TreeMap.getElem?_erase] at stored
          split at stored
          · cases stored
          · exact stored
        · obtain rfl := Option.some.inj same
          have narrow := (transferable.narrow sending member).width
          have sizes : sending.SizesFit := .inl (by omega)
          rw [Sending.tryAssemble_sound inside assembled]
          exact sizes.unframe_stream (transferable.payload sending member) transferable.limit
            (transferable.wide sending member) _

/-- A packet with a fragment of the log, or with none, leaves what is held. -/
theorem Held.handleData {numerics : Numerics} {peer next : Peer} (held : Held log peer.collection)
    {limit : Nat} (transferable : Transferable limit log) {sending : Sending}
    (member : sending ∈ log) {i : Nat} {arrival : Reassembler.Arrival}
    (carries : sending.CarriesIndex i arrival)
    (atLimit : arrival.context.maxMessageBytes = limit) {delivered : Option Bytes}
    (handled : Reassembler.handleData numerics peer arrival.header arrival.payload arrival.context
      = .ok (next, delivered))
    : Held log next.collection ∧ ∀ bytes, delivered = some bytes → bytes = sending.payload := by
  rw [Reassembler.handleData] at handled
  simp only at handled
  split at handled
  · obtain ⟨rfl, rfl⟩ := Prod.mk.inj (Except.ok.inj handled)
    exact ⟨held, fun bytes none_ => by cases none_⟩
  · rcases collected : Reassembler.collect peer.collection arrival.header arrival.payload
      arrival.context with fault | ⟨collection, result⟩
    · rw [collected] at handled
      cases handled
    · rw [collected, ok_bind] at handled
      obtain ⟨rfl, rfl⟩ := Prod.mk.inj (Except.ok.inj handled)
      exact held.collect transferable member carries atLimit collected

-- Handlers that collect nothing

namespace Link

variable {numerics : Numerics} {identity : Identity} {moment : Moment} {link after : Link}

@[simp] theorem sendControl_collection (type : PacketType) (ackable : Bool)
    : (link.sendControl identity moment type payload ackable).peer.collection
      = link.peer.collection := by
  rw [sendControl_peer]
  split <;> rfl

@[simp] theorem syncClock_collection (tick : UInt32) (arrivalMs : Nat)
    : (link.syncClock tick arrivalMs).peer.collection = link.peer.collection := by
  obtain ⟨clock, synced⟩ := syncClock_peer link tick arrivalMs
  rw [synced]

@[simp] theorem adoptKey_collection (pub : Option Bytes) (clientId : UInt32)
    : (link.adoptKey identity pub clientId).peer.collection = link.peer.collection := by
  cases pub with
  | none => rfl
  | some pub => rw [adoptKey_some, installKey_peer]

@[simp] theorem sendHandshake_collection
    : (link.sendHandshake identity moment).peer.collection = link.peer.collection :=
  sendControl_collection _ _

theorem acceptHandshake_collection (contents : HandshakeContents)
    : (link.acceptHandshake identity moment header contents).peer.collection
      = link.peer.collection := by
  have adopted : (((link.syncClock header.tick moment.unixMs).resetCommands.adoptIdentity
      contents).adoptKey identity contents.peerPub header.clientId).peer.collection
      = link.peer.collection := by
    rw [adoptKey_collection]
    exact syncClock_collection _ _
  rw [acceptHandshake, sendControl_collection, establish_peer]
  dsimp only
  split
  · rw [sendHandshake_collection, adopted]
  · exact adopted

theorem handleHandshake_collection
    : (link.handleHandshake identity moment header payload).peer.collection
      = link.peer.collection := by
  unfold handleHandshake
  split
  · rfl
  · dsimp only
    split
    · rw [acceptHandshake_collection, adoptRetransmit_peer]
    · rw [adoptRetransmit_peer]

theorem handleHandshakeAck_collection
    : (link.handleHandshakeAck identity moment header payload).peer.collection
      = link.peer.collection := by
  have adopted : (link.acknowledged identity moment header payload).peer.collection
      = link.peer.collection := by
    unfold acknowledged
    split
    · exact syncClock_collection _ _
    · rw [adoptKey_collection, adoptRetransmit_peer]
      exact syncClock_collection _ _
  rw [handleHandshakeAck_eq]
  dsimp only
  split
  · rw [goOnline_peer]
    exact (sendControl_collection _ _).trans adopted
  · exact adopted

theorem handleReport_collection
    : (link.handleReport identity moment header payload).peer.collection
      = link.peer.collection := by
  obtain ⟨ratio, pending, handled⟩ := @reportHandle_peer payload link.peer moment.now
  rw [handleReport_peer, handled]

/-- A packet without a fragment leaves the collection alone. -/
theorem dispatch_collection (other : ¬carriesFragment header.type)
    (dispatched : link.dispatch numerics identity moment header payload = .ok after)
    : after.peer.collection = link.peer.collection := by
  unfold dispatch at dispatched
  split at dispatched
  · cases dispatched
    rw [sendAckPacket_peer, handleHandshake_collection]
  · cases dispatched
    rw [sendAckPacket_peer, handleHandshakeAck_collection]
  · cases dispatched
    rw [sendAckPacket_peer, handleOnline_peer]
  · cases dispatched
    obtain ⟨rtt, clock, handled⟩ := @handleHeartbeat_peer moment header payload link
    rw [handled]
  · cases dispatched
    rw [handleBye_peer]
  · rename_i kind
    exact absurd (.inl (PacketType.code_of_ofCode? kind)) other
  · rename_i kind
    exact absurd (.inr (PacketType.code_of_ofCode? kind)) other
  · cases dispatched
    obtain ⟨pending, clock, handled, -⟩ := @handleAck_peer moment header link
    rw [handled]
  · cases dispatched
    exact handleReport_collection
  · cases dispatched
    rfl
  · cases dispatched
    rw [handleCommand_peer]
  · cases dispatched
    rfl

-- What a handler holds and hands over

/-- A link that holds fragments of the log alone, and hands over its messages alone. -/
structure Gathers (log : List Sending) (link : Link) : Prop where
  held : Held log link.peer.collection
  messages : ∀ key id payload, Effect.message key id payload ∈ link.deliveries
    → ∃ sending ∈ log, sending.payload = payload

/-- A step that forgets groups at most, and delivers nothing but commands. -/
theorem Gathers.of_fewer {other : Link} (gathers : link.Gathers log)
    (kept : ∀ (id : Nat) (group : IncomingMessage), other.peer.collection.incoming[id]? = some group
      → link.peer.collection.incoming[id]? = some group)
    (deliveries : ∀ key id payload, Effect.message key id payload ∈ other.deliveries
      → Effect.message key id payload ∈ link.deliveries)
    : other.Gathers log where
  held := gathers.held.fewer kept
  messages := fun key id payload member =>
    gathers.messages key id payload (deliveries key id payload member)

theorem Gathers.of_same {other : Link} (gathers : link.Gathers log)
    (collection : other.peer.collection = link.peer.collection)
    (deliveries : other.deliveries = link.deliveries)
    : other.Gathers log :=
  gathers.of_fewer (fun _ _ stored => collection ▸ stored) fun _ _ _ member => deliveries ▸ member

theorem mem_of_mem_commands {effects : List Effect} {ready : List Bytes} {key id owner name : Bytes}
    (member : Effect.message key id payload ∈ effects ++ ready.map (.command owner name))
    : Effect.message key id payload ∈ effects := by
  rcases List.mem_append.mp member with earlier | command
  · exact earlier
  · obtain ⟨bytes, -, same⟩ := List.mem_map.mp command
    cases same

/-- A packet hands over a message of the log if its fragment is one of the log. -/
theorem Gathers.dispatch (gathers : link.Gathers log)
    (transferable : Transferable identity.maxMessageBytes log)
    (fragment : carriesFragment header.type → ∃ sending ∈ log, ∃ i, ∀ context,
      sending.CarriesIndex i { header := header, payload := payload, context := context })
    (dispatched : link.dispatch numerics identity moment header payload = .ok after)
    : after.Gathers log := by
  by_cases carries : carriesFragment header.type
  · obtain ⟨sending, member, i, carriesIndex⟩ := fragment carries
    have handled : link.handleData numerics identity moment header payload = .ok after := by
      rcases carries with data | parity
      · simpa only [Link.dispatch, data, PacketType.ofCode?_code] using dispatched
      · simpa only [Link.dispatch, parity, PacketType.ofCode?_code] using dispatched
    obtain ⟨peer, delivered, collected, eq, view⟩ := handleData_eq handled
    obtain ⟨held, whole⟩ := Held.handleData gathers.held transferable member (carriesIndex _) rfl
      collected
    refine ⟨eq ▸ held, fun key id bytes handed => ?_⟩
    have deliveries := congrArg View.deliveries view
    have shown : Effect.message key id bytes ∈ after.view.deliveries := handed
    rw [deliveries] at shown
    rcases List.mem_append.mp shown with earlier | last
    · exact gathers.messages key id bytes earlier
    · obtain ⟨complete, inDelivered, same⟩ := List.mem_map.mp last
      cases same
      exact ⟨sending, member, (whole bytes (Option.mem_toList.mp inDelivered)).symm⟩
  · have collection := dispatch_collection carries dispatched
    by_cases command : header.type = PacketType.command.code
    · simp only [Link.dispatch, command, PacketType.ofCode?_code] at dispatched
      cases dispatched
      refine gathers.of_fewer (fun id group stored => collection ▸ stored) ?_
      intro key id bytes member
      have deliveries := congrArg View.deliveries
        (@handleCommand_view moment header payload link)
      have shown : Effect.message key id bytes
          ∈ (link.handleCommand moment header payload).view.deliveries := member
      rw [deliveries] at shown
      exact mem_of_mem_commands shown
    · refine gathers.of_same collection (dispatch_deliveries ?_ dispatched)
      simp only [carriesFragment, not_or] at carries
      simp [carriesUserData, carries.1, carries.2, command]

theorem Gathers.handlePacket (gathers : link.Gathers log)
    (transferable : Transferable identity.maxMessageBytes log)
    (fragment : ∀ opened, openPayload (link.touch moment header).peer header payload = some opened
      → carriesFragment opened.1.type
      → ∃ sending ∈ log, ∃ i, ∀ context,
        sending.CarriesIndex i { header := opened.1, payload := opened.2, context := context })
    (handled : link.handlePacket numerics identity moment header payload = .ok after)
    : after.Gathers log := by
  have touched : (link.touch moment header).Gathers log := gathers.of_same rfl rfl
  unfold Link.handlePacket at handled
  dsimp only at handled
  rcases ran : openPayload (link.touch moment header).peer header payload with - | opened
  · rw [ran] at handled
    cases handled
    exact touched
  · rw [ran] at handled
    exact touched.dispatch transferable (fragment opened ran) handled

theorem Gathers.sendRaw (gathers : link.Gathers log) (datagram : Bytes) (sealed : Option Seal)
    : (link.sendRaw datagram sealed).Gathers log := by
  refine gathers.of_same ?_ ?_
  · rw [sendRaw_peer]
  · exact congrArg View.deliveries (sendRaw_view_sealed datagram sealed)

theorem Gathers.firePeerEvent (gathers : link.Gathers log) (state : LinkState)
    : (link.firePeerEvent state).Gathers log :=
  gathers.of_same rfl (congrArg View.deliveries (firePeerEvent_view state))

theorem Gathers.sendControl (gathers : link.Gathers log) (type : PacketType) (ackable : Bool)
    : (link.sendControl identity moment type payload ackable).Gathers log :=
  gathers.of_same (sendControl_collection _ _) (congrArg View.deliveries (sendControl_view _ _ _))

theorem Gathers.sendHandshake (gathers : link.Gathers log)
    : (link.sendHandshake identity moment).Gathers log :=
  gathers.of_same sendHandshake_collection (congrArg View.deliveries sendHandshake_view)

theorem Gathers.sendHandshakes (gathers : link.Gathers log)
    : (link.sendHandshakes identity moment).Gathers log := by
  have dropped : Link.Gathers log {
      link with
      peer := {
        link.peer with
        pending :=
          link.peer.pending.filter fun _ entry => entry.header.type ≠ PacketType.handshake.code
      }
    } :=
    gathers.of_same rfl rfl
  unfold Link.sendHandshakes
  split
  · exact gathers
  · dsimp only
    split
    · exact dropped
    · exact dropped.sendHandshake.of_same rfl rfl

theorem Gathers.sendHeartbeats (gathers : link.Gathers log)
    : (link.sendHeartbeats identity moment).Gathers log := by
  unfold Link.sendHeartbeats
  split
  · exact gathers
  · split
    · exact gathers
    · exact (gathers.sendControl _ _).of_same rfl rfl

theorem Gathers.sendReports (gathers : link.Gathers log)
    : (link.sendReports numerics identity moment).Gathers log := by
  unfold Link.sendReports
  split
  · exact gathers
  · split
    · exact gathers
    · refine Gathers.of_same (Gathers.sendRaw (gathers.of_same ?_ ?_) _ _) rfl rfl
      · rfl
      · rfl

theorem Gathers.checkOffline (gathers : link.Gathers log)
    : (link.checkOffline identity moment).Gathers log := by
  have expired (peer : Peer)
      (collection : peer.collection
        = expireCollection identity.config.deadTimeout moment.now link.peer.collection)
      : Link.Gathers log { link with peer := peer } := by
    refine gathers.of_fewer (fun id group stored => ?_) fun key id payload member => member
    dsimp only at stored
    rw [collection, expireCollection, Std.TreeMap.getElem?_filter',
      Option.filter_eq_some_iff] at stored
    exact stored.1
  unfold Link.checkOffline
  dsimp only
  split
  · exact expired _ rfl
  · split
    · exact expired _ rfl
    · have announced : Link.Gathers log
          (Link.firePeerEvent
            {
              link with
              peer := {
                link.peer with
                collection :=
                  expireCollection identity.config.deadTimeout moment.now link.peer.collection
                state := .closed
                pending := ∅
              }
            }
            .closed) := by
        refine Gathers.firePeerEvent (expired _ ?_) _
        rfl
      split
      · exact announced.of_same rfl rfl
      · exact announced

theorem Gathers.flushCommands (gathers : link.Gathers log)
    : (link.flushCommands moment).Gathers log := by
  simp only [Link.flushCommands]
  refine gathers.of_fewer (fun id group stored => ?_) fun key id payload member => ?_
  · rw [(foldl_fireCommand _).1] at stored
    exact stored
  · have shown : Effect.message key id payload ∈ (Link.view _).deliveries := member
    rw [(foldl_fireCommand _).2] at shown
    exact mem_of_mem_commands shown

theorem Gathers.sendCommand (gathers : link.Gathers log)
    : (link.sendCommand identity moment payload).Gathers log := by
  unfold Link.sendCommand
  split
  · exact gathers
  · refine Gathers.sendRaw (gathers.of_same ?_ ?_) _ _
    · rfl
    · rfl

theorem Gathers.sendDataPacket (gathers : link.Gathers log) (call : FragmentCall)
    : (link.sendDataPacket identity moment call).Gathers log := by
  have numbered : Link.Gathers log
      { link with peer := { link.peer with sequenceOut := u32 (link.peer.sequenceOut + 1) } } :=
    gathers.of_same rfl rfl
  unfold Link.sendDataPacket
  dsimp only
  split
  · split
    · refine Gathers.sendRaw (numbered.of_same ?_ ?_) _ _
      · rfl
      · rfl
    · exact numbered.sendRaw _ _
  · exact gathers.sendRaw _ _

end Link

-- Steps and runs of the receiver

namespace Transport

variable {numerics : Numerics} {identity : Identity} {key other : Bytes} {transport after : Transport}
  {outputs : List Effect}

/-- The messages that the effects hand over for a peer are those of the log. -/
def HandsOver (log : List Sending) (key : Bytes) (outputs : List Effect) : Prop :=
  ∀ id payload, Effect.message key id payload ∈ outputs → ∃ sending ∈ log, sending.payload = payload

/-- What the record of a peer holds. -/
structure Collects (identity : Identity) (log : List Sending) (key : Bytes) (transport : Transport) : Prop where
  same : transport.identity = identity
  held : Held log (transport.record key).collection

theorem Collects.of_same (collects : Collects identity log key transport)
    (identical : after.identity = transport.identity)
    (collection : (after.record key).collection = (transport.record key).collection)
    : Collects identity log key after :=
  ⟨identical.trans collects.same, collection ▸ collects.held⟩

theorem Collects.visit {body : Link → Except Fault Link} (collects : Collects identity log key transport)
    (visits : Visits key other body transport after outputs)
    (gathers : ∀ next, other = key
      → body { key := key, peer := transport.record key, rttUs := transport.rttUs } = .ok next
      → next.Gathers log)
    : Collects identity log key after ∧ HandsOver log key outputs := by
  cases visits with
  | absent => exact ⟨collects, fun id payload member => absurd member List.not_mem_nil⟩
  | @here next same ran owned changed =>
      obtain ⟨held, messages⟩ := gathers next same ran
      refine ⟨⟨collects.same, ?_⟩, fun id payload member => ?_⟩
      · rw [changed]
        exact held
      · exact messages key id payload (List.mem_filter.mpr ⟨member, rfl⟩)
  | @elsewhere next apart others unchanged =>
      refine ⟨collects.of_same rfl (congrArg Peer.collection unchanged), fun id payload member => ?_⟩
      exact absurd rfl (others _ member)

theorem Collects.insert (collects : Collects identity log key transport) {peer : Peer}
    (identical : after.identity = transport.identity)
    (table : after.peers = transport.peers.insert other peer)
    (collection : peer.collection = (transport.record other).collection)
    : Collects identity log key after := by
  have changed : after.record key = if other = key then peer else transport.record key :=
    record_insert table
  refine collects.of_same identical ?_
  rw [changed]
  split
  · rename_i same
    rw [collection, same]
  · rfl

theorem Collects.findOrCreatePeerByAddr (collects : Collects identity log key transport)
    (moment : Moment) (source : AddrKey) (draw : Nat)
    : Collects identity log key (transport.findOrCreatePeerByAddr moment source draw).1 := by
  unfold Transport.findOrCreatePeerByAddr
  split
  · exact collects
  · exact collects.insert rfl rfl rfl

theorem Collects.removePeer (collects : Collects identity log key transport) (other : Bytes)
    : Collects identity log key (transport.removePeer other) := by
  by_cases same : other = key
  · subst same
    refine ⟨collects.same, ?_⟩
    rw [record, Transport.removePeer, Std.TreeMap.getD_erase_self]
    exact held_empty log
  · exact collects.of_same rfl (by rw [record_removePeer same])

theorem Collects.addPeer (collects : Collects identity log key transport) (moment : Moment)
    (remoteId : Bytes) (addr : AddrKey)
    : Collects identity log key (transport.addPeer moment remoteId addr) := by
  unfold Transport.addPeer
  rcases transport.replaced remoteId addr with - | gone
  · exact collects.insert rfl rfl rfl
  · exact (collects.removePeer gone).insert rfl rfl rfl

theorem Collects.encodeNext (collects : Collects identity log key transport)
    : Collects identity log key (transport.encodeNext numerics) := by
  have identical : (transport.encodeNext numerics).identity = transport.identity := by
    unfold Transport.encodeNext
    split
    · split <;> rfl
    · rfl
  obtain ⟨msgIdOut, same⟩ := record_encodeNext numerics transport key
  exact collects.of_same identical (by rw [same])

/-- What arrives on the record of a peer was posted by the other end, and is opened under the key that
sealed it if at all.
-/
def Relays (posted : List Effect) (sender : Bytes) (key : Bytes) (transport : Transport)
    (occurrence : Occurrence)
    : Prop :=
  ∀ source bytes draw, occurrence.event = .datagram source bytes draw
    → (transport.findOrCreatePeerByAddr occurrence.moment source draw).2 = key
    → ∃ addr sealed, Effect.send sender addr bytes sealed ∈ posted
      ∧ ∀ input, sealed = some input
        → ((transport.findOrCreatePeerByAddr occurrence.moment source draw).1.record key).cryptoReady
        → ((transport.findOrCreatePeerByAddr occurrence.moment source draw).1.record key).cryptoKey
          = input.key

/-- A sender whose MTU splits every message it accepts into fragments that fit their header fields. -/
structure Splits (identity : Identity) : Prop where
  low : 112 ≤ identity.config.mtu
  high : identity.config.mtu ≤ 65535
  count : ∀ payload : Bytes, payload.length ≤ identity.maxMessageBytes
    → Fragmenter.dataCount payload identity.config.mtu + 3 < 2 ^ 15

/-- The messages of a log are within the limits of a receiver. -/
structure Receivable (limit : Nat) (log : List Sending) : Prop where
  distinct : ∀ left ∈ log, ∀ right ∈ log, left.messageId = right.messageId → left = right
  within : ∀ sending ∈ log, sending.Within limit
  narrow : ∀ sending ∈ log, sending.Narrow

theorem Receivable.transferable {limit : Nat} (receivable : Receivable limit log) (low : limit < 2 ^ 32)
    : Transferable limit log where
  distinct := receivable.distinct
  payload := fun sending member => (receivable.within sending member).payload
  narrow := receivable.narrow
  wide := fun sending member => Nat.le_trans (by decide) (receivable.within sending member).width
  limit := low

theorem Collects.step {occurrence : Occurrence} {posted : List Effect} {sender : Bytes}
    (collects : Collects identity log key transport)
    (receivable : Receivable identity.maxMessageBytes log)
    (logged : ∀ effect ∈ posted, effect.owner = sender → effect.Vouched (fromLog log))
    (relays : transport.Relays posted sender key occurrence)
    (taken : step numerics transport occurrence = .ok (after, outputs))
    : Collects identity log key after ∧ HandsOver log key outputs := by
  have small : identity.maxMessageBytes < 2 ^ 32 := by
    rw [Identity.maxMessageBytes]
    omega
  have quiet (held : Collects identity log key after)
      : Collects identity log key after ∧ HandsOver log key [] :=
    ⟨held, fun id payload member => absurd member List.not_mem_nil⟩
  have plain {body : Link → Link} {on : Bytes} {inner : Transport}
      (start : Collects identity log key inner)
      (visits : Visits key on (fun link => .ok (body link)) inner after outputs)
      (gathers : ∀ link : Link, link.Gathers log → (body link).Gathers log)
      : Collects identity log key after ∧ HandsOver log key outputs := by
    refine start.visit visits fun next _ ran => ?_
    cases ran
    exact gathers _ ⟨start.held, fun _ _ _ member => absurd member List.not_mem_nil⟩
  rcases occurrence with ⟨moment, event⟩
  cases steps_of_ok key taken with
  | @connect _ _ remoteId addr visits =>
      exact plain (collects.addPeer moment remoteId addr) visits fun link gathers =>
        gathers.sendHandshake
  | undecoded | refused | drained => exact quiet collects
  | @datagram _ _ source bytes payload draw header decoded visits =>
      have found := collects.findOrCreatePeerByAddr moment source draw
      refine found.visit visits fun next same ran => ?_
      obtain ⟨addr, sealed, inPosted, agreed⟩ := relays source bytes draw rfl same
      rw [found.same] at ran
      refine Link.Gathers.handlePacket
        ⟨found.held, fun _ _ _ member => absurd member List.not_mem_nil⟩
        (receivable.transferable small) ?_ ran
      intro opened opens carries
      have posted : Posted (fromLog log) bytes sealed := logged _ inPosted rfl
      obtain ⟨sending, member, call, made, head, checksum, carried, heading⟩ :=
        posted.opened receivable.narrow agreed decoded opens carries
      have within := receivable.within sending member
      rw [sending.calls_eq] at made
      obtain ⟨i, inRange, rfl⟩ := List.mem_map.mp made
      refine ⟨sending, member, i, fun context => ?_⟩
      refine within.carriesIndex (List.mem_range.mp inRange) ?_
      obtain ⟨⟨clientId, sessionId, tick, sequence, rfl⟩, body⟩ := carried
      rw [heading]
      exact ⟨rfl, rfl, rfl, rfl, rfl, body⟩
  | sendCommand short found visits =>
      exact plain collects visits fun link gathers => gathers.sendCommand
  | processSend =>
      refine quiet ?_
      unfold queueMessage
      split
      · exact collects
      · split
        · exact collects
        · split
          · exact collects.of_same rfl rfl
          · exact collects
  | encode => exact quiet collects.encodeNext
  | @fragment _ _ on call rest queue visits =>
      have popped : Collects identity log key { transport with encoding := rest } :=
        collects.of_same rfl rfl
      exact plain popped visits fun link gathers => gathers.sendDataPacket call
  | sendHandshakes visits => exact plain collects visits fun link gathers => gathers.sendHandshakes
  | sendHeartbeats visits => exact plain collects visits fun link gathers => gathers.sendHeartbeats
  | sendReports visits => exact plain collects visits fun link gathers => gathers.sendReports
  | checkOffline visits => exact plain collects visits fun link gathers => gathers.checkOffline
  | flushCommands visits => exact plain collects visits fun link gathers => gathers.flushCommands

-- Two runs

/-- The books of a sender within its own limits are within those of a receiver that allows no less. -/
theorem Ledger.receivable {messages limit : Nat} {submitted : List Bytes} {posts : List Effect}
    (ledger : Ledger identity key messages submitted posts log transport) (splits : Splits identity)
    (bounded : ∀ payload ∈ submitted, payload.length ≤ identity.maxMessageBytes)
    (low : 8192 ≤ limit) (high : limit ≤ 10485760) (limits : identity.maxMessageBytes ≤ limit)
    : Receivable limit log := by
  have mtuLow := splits.low
  have mtuHigh := splits.high
  have width (sending : Sending) (member : sending ∈ log)
      : sending.width = identity.config.mtu - 48 := by
    rw [Sending.width, (ledger.split sending member).1, Fragmenter.fragPayload]
    have long : identity.config.mtu > kHeaderSize := by
      rw [kHeaderSize]
      omega
    rw [if_pos long, if_neg (by rw [kHeaderSize]; omega), kHeaderSize]
  have count (sending : Sending) (member : sending ∈ log) : sending.totalCount < 2 ^ 15 := by
    have most := sending.parityCount_le
    have few := splits.count sending.payload (bounded _ (ledger.split sending member).2)
    have same : sending.dataCount = Fragmenter.dataCount sending.payload identity.config.mtu := by
      rw [Sending.dataCount, (ledger.split sending member).1]
    rw [Sending.totalCount]
    omega
  refine ⟨ledger.distinct, fun sending member => ?_, fun sending member => ?_⟩
  · refine ⟨low, high, ?_, ?_, count sending member⟩
    · exact (bounded _ (ledger.split sending member).2).trans limits
    · rw [width sending member]
      omega
  · refine ⟨?_, count sending member⟩
    rw [width sending member, kGcmTagSize]
    omega

/-- What was submitted in a run is within the limit of the sender. -/
theorem length_of_mem_submittedIn {sent : List (Stage Transport Occurrence Effect)}
    {last : Transport} (run : Run (Transport.step numerics) (Keeps key) (initial identity) sent last)
    {payload : Bytes} (member : payload ∈ submittedIn key sent)
    : payload.length ≤ identity.maxMessageBytes := by
  obtain ⟨stage, inSent, shown⟩ := List.mem_flatMap.mp member
  have always : ∀ history last, Run (Transport.step numerics) (Keeps key) (initial identity) history last
      → last.Accepted identity := fun history last run =>
    run.invariant (fun _ transport => transport.Accepted identity)
      ⟨rfl, fun entry member => absurd member List.not_mem_nil⟩
      fun _ _ _ _ _ _ accepted _ taken => accepted.step taken
  have identical : ∀ stage ∈ sent, stage.before.identity = identity :=
    run.forall_stage always fun _ _ _ _ _ accepted _ _ => accepted.same
  have same := identical stage inSent
  unfold submittedBy at shown
  split at shown
  · split at shown
    · rename_i short
      rw [List.mem_singleton.mp shown, ← same]
      exact short.1
    · exact absurd shown List.not_mem_nil
  · exact absurd shown List.not_mem_nil

/-- Every message handed over for a peer was submitted to the other end, whatever both ends do and whatever the
network loses, repeats, delays or reorders. The record of the sender is not removed, fewer than 2^31
messages are split, and a sealed datagram is opened under the key that sealed it.
-/
theorem delivered_was_submitted {near far : Numerics} {sender receiver : Identity}
    {outKey inKey : Bytes} {sent received : List (Stage Transport Occurrence Effect)}
    {lastSent lastReceived : Transport} (splits : Splits sender)
    (limits : sender.maxMessageBytes ≤ receiver.maxMessageBytes)
    (sending : Run (Transport.step near) (Keeps outKey) (initial sender) sent lastSent)
    (few : messagesIn sent < 2 ^ 31)
    (receiving : Run (Transport.step far)
      (fun _ before occurrence => before.Relays (emitted sent) outKey inKey occurrence)
      (initial receiver) received lastReceived)
    : ∀ stage ∈ received, ∀ id payload, Effect.message inKey id payload ∈ stage.outputs
      → payload ∈ submittedIn outKey sent := by
  obtain ⟨log, ledger⟩ := run_ledger sending few
  have receivable : Receivable receiver.maxMessageBytes log := by
    refine ledger.receivable splits (fun payload => length_of_mem_submittedIn sending) ?_ ?_ limits
    · exact Nat.le_max_left _ _
    · rw [Identity.maxMessageBytes]
      omega
  have always : ∀ history last,
      Run (Transport.step far)
        (fun _ before occurrence => before.Relays (emitted sent) outKey inKey occurrence)
        (initial receiver) history last
      → Collects receiver log inKey last := by
    intro history last run
    refine run.invariant (fun _ transport => Collects receiver log inKey transport) ⟨rfl, ?_⟩ ?_
    · rw [record, initial, Std.TreeMap.getD_emptyc]
      exact held_empty log
    · intro _ _ _ _ _ _ collects relays taken
      exact (collects.step receivable ledger.posts relays taken).1
  have handsOver : ∀ stage ∈ received, HandsOver log inKey stage.outputs := by
    refine receiving.forall_stage always ?_
    intro _ _ _ _ _ collects relays taken
    exact (collects.step receivable ledger.posts relays taken).2
  intro stage member id payload handed
  obtain ⟨message, booked, rfl⟩ := handsOver stage member id payload handed
  exact (ledger.split message booked).2

-- A sealed message

theorem sendWire_effects {link : Link} {header : PacketHeader} {payload : Bytes}
    (addressed : link.peer.addrSet = true)
    : (link.sendWire identity header payload).effects
      = link.effects ++ [
          .send link.key link.peer.addr
            (buildWirePacket identity.config.encryptionEnabled link.peer header payload)
            (sealOf identity.config.encryptionEnabled link.peer header payload)
        ] := by
  rw [Link.sendWire, Link.sendRaw, if_pos addressed]
  rfl

theorem sendDataPacket_effects {link : Link} {moment : Moment} {call : FragmentCall}
    (addressed : link.peer.addrSet = true)
    : (link.sendDataPacket identity moment call).effects
      = link.effects ++ [
          .send link.key link.peer.addr
            (buildWirePacket identity.config.encryptionEnabled link.peer
              (Link.fragmentHeader identity moment link.peer call) call.payload)
            (sealOf identity.config.encryptionEnabled link.peer
              (Link.fragmentHeader identity moment link.peer call) call.payload)
        ] := by
  simp only [Link.sendDataPacket, Link.fragmentHeader]
  split
  · split
    · refine (sendWire_effects ?_).trans rfl
      exact addressed
    · refine (sendWire_effects ?_).trans rfl
      exact addressed
  · exact sendWire_effects addressed

theorem step_fragment_addressed {call : FragmentCall} {rest : List (Bytes × FragmentCall)} {peer : Peer}
    {moment : Moment} (queue : transport.encoding = (key, call) :: rest)
    (found : transport.peers[key]? = some peer) (addressed : peer.addrSet = true)
    : ∃ after, Transport.step numerics transport ⟨moment, .fragment⟩
        = .ok (
            after,
            [
              .send key peer.addr
                (buildWirePacket transport.identity.config.encryptionEnabled peer
                  (Link.fragmentHeader transport.identity moment peer call) call.payload)
                (sealOf transport.identity.config.encryptionEnabled peer
                  (Link.fragmentHeader transport.identity moment peer call) call.payload)
            ]) := by
  have effects := @sendDataPacket_effects transport.identity
    { key := key, peer := peer, rttUs := transport.rttUs } moment call addressed
  simp only [Transport.step, queue, Transport.visit, found]
  rw [effects]
  exact ⟨_, rfl⟩

/-- The twins, with datagrams of the usual size. -/
def sibling (side : End) : Identity := { Exchange.twin side with config := {} }

theorem sibling_mates : Mates sibling := ⟨fun _ => rfl, rfl, fun _ => rfl, rfl⟩

theorem sibling_splits : Splits (sibling .left) := by
  refine ⟨by decide, by decide, fun payload short => ?_⟩
  have few : payload.length ≤ 10 * 1024 * 1024 := Nat.le_trans short (by decide)
  have whole : (Fragmenter.full payload).length = payload.length + 4 := by
    rw [Fragmenter.full, List.length_append]
    exact Nat.add_comm _ _
  have width : Fragmenter.fragPayload (sibling .left).config.mtu = 1302 := by decide
  rw [Fragmenter.dataCount, whole, width]
  omega

/-- What the left end greets with, and what the right one answers. -/
def greeting : Bytes := Link.handshakePayload (sibling .left)

def greetingHeader : PacketHeader :=
  Link.controlHeader (sibling .left) ⟨0, 0⟩ .handshake greeting 1

def answer : Bytes := Link.announcedKey (sibling .right) ++ Link.capabilities (sibling .right)

def answerHeader : PacketHeader :=
  Link.controlHeader (sibling .right) ⟨0, 0⟩ .handshakeAck answer 2

theorem answer_outgoing : Link.Outgoing (sibling .right) answerHeader answer where
  clientId := rfl
  shown whole announced :=
    (Option.some.inj announced : answer = whole) ▸ List.prefix_rfl
  claim whole _ := (by decide : answerHeader.payloadSize.toNat ≤ answer.length)
  plain _ _ := rfl

/-- A packet of the stranger, once it is decoded. -/
def takes (header : PacketHeader) (body : Bytes) (transport : Transport)
    : Except Fault (Transport × List Effect) :=
  (transport.findOrCreatePeerByAddr ⟨0, 0⟩ stranger 0).1.visit
    (transport.findOrCreatePeerByAddr ⟨0, 0⟩ stranger 0).2
    (Link.handlePacket default transport.identity ⟨0, 0⟩
      { header with checksum := PacketCodec.checksumOf header body } body)

theorem step_takes {header : PacketHeader} {body : Bytes} (magic : header.magic = kMagic)
    (version : header.version = kVersion) (size : header.payloadSize.toNat = body.length)
    (short : kHeaderSize + body.length ≤ 2048)
    : Transport.step default transport ⟨⟨0, 0⟩, .datagram stranger (PacketCodec.encode header body) 0⟩
      = transport.takes header body :=
  step_datagram magic version size short

/-- Whether a packet of the stranger hands over the byte 7 once it is opened. -/
def handsSeven (listening : Transport) (header : PacketHeader) (payload : Bytes) : Bool :=
  leaves (listening.visit (anonymousId stranger 0) fun link =>
      (link.touch ⟨0, 0⟩ header).dispatch default listening.identity ⟨0, 0⟩ header payload)
    fun _ outputs => outputs.any fun effect =>
      effect == .message (anonymousId stranger 0) (anonymousId stranger 0) [7]

/-- Whether the next fragment of an end is sealed and fit for the wire, and hands over the byte 7 at the
other end.
-/
def sendsSeven (listening transport : Transport) : Bool :=
  match transport.encoding with
  | [] => false
  | (key, call) :: _ =>
      transport.peers[key]?.any fun peer =>
        let header := Link.fragmentHeader transport.identity ⟨0, 0⟩ peer call
        key = [9] && peer.addrSet && transport.identity.config.encryptionEnabled && peer.cryptoReady
          && header.magic = kMagic && header.version = kVersion && header.flags < kFlagEncrypted
          && header.payloadSize.toNat = call.payload.length && call.payload.length ≤ 1900
          && handsSeven listening header call.payload

/-- Whether an end holds a key for the stranger. -/
def listens (transport : Transport) : Bool :=
  transport.known stranger = some (anonymousId stranger 0)
    && transport.peers[anonymousId stranger 0]?.any Peer.cryptoReady

/-- The left end connects, the right one hears the greeting and answers, and a byte is split. -/
def preparesSeven : Bool :=
  leaves ((initial (sibling .right)).takes greetingHeader greeting) fun listening _ =>
    listens listening
      && leaves (Transport.step default (initial (sibling .left)) ⟨⟨0, 0⟩, .connect [9] stranger⟩)
        fun greeted _ => leaves (greeted.takes answerHeader answer) fun linked _ =>
          leaves (Transport.step default linked ⟨⟨0, 0⟩, .processSend [9] [7]⟩) fun queued _ =>
            leaves (Transport.step default queued ⟨⟨0, 0⟩, .encode⟩) fun split _ =>
              sendsSeven listening split

theorem preparesSeven_true : preparesSeven = true := by decide +kernel

theorem step_connect
    : ∃ greeted,
      Transport.step default (initial (sibling .left)) ⟨⟨0, 0⟩, .connect [9] stranger⟩
        = .ok (greeted, [.send [9] stranger (PacketCodec.encode greetingHeader greeting) none]) :=
  ⟨_, rfl⟩

theorem initial_agreed (identity : Identity) (key : Option Bytes)
    : (initial identity).Agreed identity key :=
  ⟨rfl, fun id peer stored => by simp [initial] at stored⟩

/-- A datagram that the other end says the truth in keeps an end agreed. -/
theorem Agreed.hears {side : End} {key : Option Bytes} {datagram : Bytes} {after : Transport}
    {outputs : List Effect} (agreed : transport.Agreed (sibling side) key)
    (paired : Link.Paired (sibling side) (sibling side.other) key)
    (truthful : Link.Truthful (sibling side.other) key datagram)
    (taken : Transport.step default transport ⟨⟨0, 0⟩, .datagram stranger datagram 0⟩
      = .ok (after, outputs))
    : after.Agreed (sibling side) key := by
  refine (agreed.step paired ?_ taken).1
  intro source bytes draw event
  obtain ⟨-, rfl, -⟩ := Event.datagram.inj event
  exact truthful

theorem keeps_of_ne_connect {key : Bytes} {history : List (Stage Transport Occurrence Effect)}
    {occurrence : Occurrence} (other : ∀ id addr, occurrence.event ≠ .connect id addr)
    : Keeps key history transport occurrence := by
  obtain ⟨moment, event⟩ := occurrence
  cases event with
  | connect remoteId addr => exact absurd rfl (other remoteId addr)
  | _ => rfl

/-- Two runs lead up to the byte, after which both ends hold the agreed key if they hold one. -/
theorem exists_prepared
    : ∃ sent split listening greets,
      Run (Transport.step default) (Keeps [9]) (initial (sibling .left)) sent split
      ∧ Transport.step default (initial (sibling .right))
          ⟨⟨0, 0⟩, .datagram stranger (PacketCodec.encode greetingHeader greeting) 0⟩
        = .ok (listening, greets)
      ∧ Effect.send [9] stranger (PacketCodec.encode greetingHeader greeting) none ∈ emitted sent
      ∧ messagesIn sent ≤ 1
      ∧ split.Agreed (sibling .left) (agreedKey sibling)
      ∧ listening.Agreed (sibling .right) (agreedKey sibling)
      ∧ listens listening = true ∧ sendsSeven listening split = true := by
  obtain ⟨listening, greets, heard, shown⟩ := leaves_ok preparesSeven_true
  obtain ⟨listens, shown⟩ := Bool.and_eq_true_iff.mp shown
  obtain ⟨greeted, posts, connected, shown⟩ := leaves_ok shown
  obtain ⟨linked, welcome, answered, shown⟩ := leaves_ok shown
  obtain ⟨queued, silent, accepted, shown⟩ := leaves_ok shown
  obtain ⟨split, quiet, encoded, shown⟩ := leaves_ok shown
  rw [← step_takes rfl rfl rfl (by decide)] at heard answered
  obtain ⟨same, connects⟩ := step_connect
  obtain ⟨rfl, rfl⟩ := Prod.mk.inj (Except.ok.inj (connected.symm.trans connects))
  have own := sibling_mates.paired .left
  obtain ⟨greetedAgreed, truthful⟩ := (initial_agreed (sibling .left) (agreedKey sibling)).step own
    (fun _ _ _ event => by cases event) connected
  have listeningAgreed := (initial_agreed (sibling .right) _).hears (sibling_mates.paired .right)
    (truthful _ List.mem_cons_self) heard
  have linkedAgreed := greetedAgreed.hears own answer_outgoing.truthful_encode answered
  have queuedAgreed := (linkedAgreed.step own (fun _ _ _ event => by cases event) accepted).1
  have splitAgreed := (queuedAgreed.step own (fun _ _ _ event => by cases event) encoded).1
  have begun : Run (Transport.step default) (Keeps [9]) (initial (sibling .left)) []
      (initial (sibling .left)) :=
    .start
  have kept : Keeps [9] [] (initial (sibling .left)) ⟨⟨0, 0⟩, .connect [9] stranger⟩ :=
    (rfl : removes [9] (initial (sibling .left)) (.connect [9] stranger) = false)
  have sending := (((begun.next kept connected).next (keeps_of_ne_connect (by simp)) answered).next
    (keeps_of_ne_connect (by simp)) accepted).next (keeps_of_ne_connect (by simp)) encoded
  refine ⟨_, split, listening, greets, sending, heard, ?_, ?_, splitAgreed, listeningAgreed, listens,
    shown⟩
  · simp [emitted]
  · simp [messagesIn, splits]

/-- The byte is sealed at one end, and opened at the other one. -/
theorem delivered_was_submitted_sealed
    : ∃ sent received lastSent lastReceived,
      Run (Transport.step default) (Keeps [9]) (initial (sibling .left)) sent lastSent
      ∧ Run (Transport.step default)
          (fun _ before occurrence =>
            before.Relays (emitted sent) [9] (anonymousId stranger 0) occurrence)
          (initial (sibling .right)) received lastReceived
      ∧ (∃ addr datagram input, Effect.send [9] addr datagram (some input) ∈ emitted sent)
      ∧ ∃ stage ∈ received, ∃ id, Effect.message (anonymousId stranger 0) id [7] ∈ stage.outputs
        ∧ [7] ∈ submittedIn [9] sent := by
  obtain ⟨before, split, listening, greets, leads, heard, first, single, splitAgreed, listeningAgreed,
    listens, shown⟩ := exists_prepared
  simp only [Transport.listens, Bool.and_eq_true, decide_eq_true_eq] at listens
  obtain ⟨known, any⟩ := listens
  obtain ⟨other, stored, otherReady⟩ := (Option.any_eq_true _ _).mp any
  unfold sendsSeven at shown
  rcases queue : split.encoding with - | ⟨⟨key, call⟩, rest⟩
  · rw [queue] at shown
    cases shown
  rw [queue] at shown
  obtain ⟨peer, found, passes⟩ := (Option.any_eq_true _ _).mp shown
  simp only [Bool.and_eq_true, decide_eq_true_eq] at passes
  obtain ⟨⟨⟨⟨⟨⟨⟨⟨⟨rfl, addressed⟩, on⟩, ready⟩, magic⟩, version⟩, low⟩, size⟩, short⟩, handed⟩ :=
    passes
  have agreed : other.cryptoKey = peer.cryptoKey :=
    Option.some.inj (((listeningAgreed.peers _ _ stored).key otherReady).symm.trans
      ((splitAgreed.peers _ _ found).key ready))
  obtain ⟨last, outputs, arrived, delivers⟩ := leaves_ok handed
  obtain ⟨effect, shownEffect, same⟩ := List.any_eq_true.mp delivers
  have handedOver : .message (anonymousId stranger 0) (anonymousId stranger 0) [7] ∈ outputs := by
    rw [← eq_of_beq same]
    exact shownEffect
  obtain ⟨after, fragmented⟩ :=
    @step_fragment_addressed default [9] split call rest peer ⟨0, 0⟩ queue found addressed
  rw [sealOf_of_ready (Bool.and_eq_true_iff.mpr ⟨on, ready⟩)] at fragmented
  generalize built : buildWirePacket split.identity.config.encryptionEnabled peer
    (Link.fragmentHeader split.identity ⟨0, 0⟩ peer call) call.payload = datagram at fragmented
  obtain ⟨sent, posted, greeted, few, sending⟩ : ∃ sent,
      Effect.send [9] peer.addr datagram _ ∈ emitted sent
      ∧ Effect.send [9] stranger (PacketCodec.encode greetingHeader greeting) none ∈ emitted sent
      ∧ messagesIn sent < 2 ^ 31
      ∧ Run (Transport.step default) (Keeps [9]) (initial (sibling .left)) sent after := by
    refine ⟨_, ?_, ?_, ?_, leads.next (keeps_of_ne_connect (by simp)) fragmented⟩
    · rw [emitted_append, emitted_singleton]
      exact List.mem_append_right _ List.mem_cons_self
    · rw [emitted_append]
      exact List.mem_append_left _ first
    · rw [messagesIn, List.map_append, List.sum_append]
      exact Nat.lt_of_le_of_lt (Nat.add_le_add_right single _)
        (by decide : 1 + (splits .fragment + 0) < 2 ^ 31)
  have finds : listening.findOrCreatePeerByAddr ⟨0, 0⟩ stranger 0
      = (listening, anonymousId stranger 0) := by
    simp only [findOrCreatePeerByAddr, known]
  have taken : Transport.step default listening ⟨⟨0, 0⟩, .datagram stranger datagram 0⟩
      = .ok (last, outputs) := by
    rw [← built]
    refine (step_wire magic version low size.symm ?_ finds stored fun _ => ?_).trans arrived
    · rw [kHeaderSize, kGcmTagSize]
      omega
    · exact ⟨otherReady, agreed⟩
  have greets_ : (initial (sibling .right)).Relays (emitted sent) [9] (anonymousId stranger 0)
      ⟨⟨0, 0⟩, .datagram stranger (PacketCodec.encode greetingHeader greeting) 0⟩ := by
    intro source bytes draw event _
    obtain ⟨-, rfl, -⟩ := Event.datagram.inj event
    exact ⟨stranger, none, greeted, fun input none_ => by cases none_⟩
  have relays : listening.Relays (emitted sent) [9] (anonymousId stranger 0)
      ⟨⟨0, 0⟩, .datagram stranger datagram 0⟩ := by
    intro source bytes draw event _
    obtain ⟨rfl, rfl, rfl⟩ := Event.datagram.inj event
    refine ⟨peer.addr, _, posted, fun input sealed _ => ?_⟩
    cases sealed
    rw [finds, record, Std.TreeMap.getD_eq_getD_getElem?, stored]
    exact agreed
  have receiving : Run (Transport.step default)
      (fun _ before occurrence =>
        before.Relays (emitted sent) [9] (anonymousId stranger 0) occurrence)
      (initial (sibling .right)) _ last :=
    Run.next (Run.next .start greets_ heard) relays taken
  refine ⟨sent, _, after, last, sending, receiving, ⟨_, _, _, posted⟩, _,
    List.mem_append_right _ List.mem_cons_self, anonymousId stranger 0, handedOver, ?_⟩
  have limits : (sibling .left).maxMessageBytes ≤ (sibling .right).maxMessageBytes := Nat.le_refl _
  exact delivered_was_submitted sibling_splits limits sending few receiving _
    (List.mem_append_right _ List.mem_cons_self) _ _ handedOver

end Transport

end Creek.Tight
