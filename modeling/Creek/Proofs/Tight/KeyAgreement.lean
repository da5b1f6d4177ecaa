import Creek.Proofs.Tight.AnnouncedKeys
import Creek.Proofs.Tight.MtuBound
import Creek.Tight.Exchange

/-! Two ends that only hear each other hold one session key. Each end sends no public key but its own, so
every key that is derived is the one of the two key pairs; what is sealed under it opens at the other end
as long as its size does not wrap.
-/

namespace Creek.Tight

open Library PacketCodec

namespace Link

variable {numerics : Numerics} {identity other : Identity} {moment : Moment} {header : PacketHeader}
  {payload : Bytes} {link : Link} {key : Option Bytes}

-- Links that hold one key

/-- A datagram among effects is truthful. -/
def TruthfulEffect (identity : Identity) (key : Option Bytes) : Effect → Prop
  | .send _ _ datagram _ => Truthful identity key datagram
  | _ => True

/-- A record whose key, if it has one, is this, and whose pending packets announce their end. -/
structure Keyed (identity : Identity) (key : Option Bytes) (peer : Peer) : Prop where
  key : peer.cryptoReady = true → key = some peer.cryptoKey
  pending : ∀ (seq : Nat) (entry : PendingSend), peer.pending[seq]? = some entry
    → Outgoing identity entry.header entry.payload

/-- A link with such a record that has sent truthful datagrams. -/
structure Agreed (identity : Identity) (key : Option Bytes) (link : Link) : Prop where
  peer : Keyed identity key link.peer
  effects : ∀ effect ∈ link.effects, TruthfulEffect identity key effect

/-- A record may drop pending packets and count their resends. -/
theorem Keyed.derived {before after : Peer} (keyed : Keyed identity key before)
    (ready : after.cryptoReady = before.cryptoReady) (same : after.cryptoKey = before.cryptoKey)
    (origin : ∀ (seq : Nat) (entry : PendingSend), after.pending[seq]? = some entry
      → ∃ old, before.pending[seq]? = some old ∧ entry.header = old.header
        ∧ entry.payload = old.payload)
    : Keyed identity key after := by
  refine ⟨by rw [ready, same]; exact keyed.key, ?_⟩
  intro seq entry stored
  obtain ⟨old, storedBefore, header, payload⟩ := origin seq entry stored
  rw [header, payload]
  exact keyed.pending seq old storedBefore

theorem Keyed.fewer {before after : Peer} (keyed : Keyed identity key before)
    (ready : after.cryptoReady = before.cryptoReady) (same : after.cryptoKey = before.cryptoKey)
    (fewer : ∀ (seq : Nat) (entry : PendingSend), after.pending[seq]? = some entry
      → before.pending[seq]? = some entry)
    : Keyed identity key after :=
  keyed.derived ready same fun seq entry stored => ⟨entry, fewer seq entry stored, rfl, rfl⟩

theorem Agreed.update (agreed : link.Agreed identity key) {peer : Peer}
    (ready : peer.cryptoReady = link.peer.cryptoReady) (same : peer.cryptoKey = link.peer.cryptoKey)
    (pending : peer.pending = link.peer.pending)
    : Agreed identity key { link with peer := peer } :=
  ⟨agreed.peer.fewer ready same fun _ _ stored => by rwa [pending] at stored, agreed.effects⟩

theorem Agreed.fire (agreed : link.Agreed identity key) {effect : Effect}
    (truthful : TruthfulEffect identity key effect)
    : (link.fire effect).Agreed identity key := by
  refine ⟨agreed.peer, ?_⟩
  intro other member
  rcases List.mem_append.mp member with earlier | last
  · exact agreed.effects other earlier
  · rwa [List.mem_singleton.mp last]

theorem Agreed.onAck (agreed : link.Agreed identity key) (rtt : Int)
    : (link.onAck rtt).Agreed identity key := by
  unfold Link.onAck
  split
  · exact agreed
  · exact ⟨agreed.peer, agreed.effects⟩

theorem Agreed.syncClock (agreed : link.Agreed identity key) (tick : UInt32) (arrivalMs : Nat)
    : (link.syncClock tick arrivalMs).Agreed identity key := by
  unfold Link.syncClock
  split
  · exact agreed
  · split <;> exact agreed.update rfl rfl rfl

theorem Agreed.trySyncClock (agreed : link.Agreed identity key)
    : link.trySyncClock.Agreed identity key := by
  unfold Link.trySyncClock
  split
  · exact agreed.syncClock _ _
  · exact agreed

theorem Agreed.feedRttFromTick (agreed : link.Agreed identity key) (tick : UInt32)
    : (link.feedRttFromTick tick moment).Agreed identity key := by
  simp only [Link.feedRttFromTick]
  split
  · exact agreed
  · exact agreed.onAck _

-- Sending

theorem announcement_none {type : UInt8} (handshake : type ≠ PacketType.handshake.code)
    (ack : type ≠ PacketType.handshakeAck.code)
    : announcement identity type = none := by
  rw [announcement, if_neg handshake, if_neg ack]

theorem outgoing_of_none (clientId : header.clientId = identity.clientId)
    (silent : announcement identity header.type = none)
    : Outgoing identity header payload where
  clientId := clientId
  shown := fun _ announced => by cases silent.symm.trans announced
  claim := fun _ announced => by cases silent.symm.trans announced
  plain := fun _ announced => by cases silent.symm.trans announced

theorem Agreed.sendRaw (agreed : link.Agreed identity key) {datagram : Bytes}
    (truthful : Truthful identity key datagram) (sealed : Option Seal)
    : (link.sendRaw datagram sealed).Agreed identity key := by
  unfold Link.sendRaw
  split
  · exact agreed.fire truthful
  · exact agreed

theorem Agreed.sendWire (agreed : link.Agreed identity key) (outgoing : Outgoing identity header payload)
    : (link.sendWire identity header payload).Agreed identity key :=
  agreed.sendRaw (outgoing.truthful_buildWirePacket agreed.peer.key) _

theorem Agreed.keepPending (agreed : link.Agreed identity key)
    (outgoing : Outgoing identity header payload) (now : TimePoint) (bytes : Nat)
    : (link.keepPending header payload now bytes).Agreed identity key := by
  refine ⟨⟨agreed.peer.key, ?_⟩, agreed.effects⟩
  intro seq entry stored
  simp only [Link.keepPending, Std.TreeMap.getElem?_insert] at stored
  split at stored
  · obtain rfl := Option.some.inj stored
    exact outgoing
  · exact agreed.peer.pending seq entry stored

theorem Agreed.sendControl (agreed : link.Agreed identity key) {type : PacketType} {payload : Bytes}
    (announced : ∀ whole, announcement identity type.code = some whole → payload = whole)
    (ackable : Bool)
    : (link.sendControl identity moment type payload ackable).Agreed identity key := by
  have outgoing (sequence : UInt32)
      : Outgoing identity
          {
            Link.header identity moment type with
            payloadSize := UInt16.ofNat payload.length
            sequence := sequence
          }
          payload := by
    refine ⟨⟨rfl, ?_⟩, fun _ _ => Nat.mod_le _ _, fun _ _ => rfl⟩
    intro whole same
    exact ⟨[], (List.append_nil payload).trans (announced whole same)⟩
  cases ackable with
  | false => exact agreed.sendRaw (outgoing 0).truthful_encode _
  | true =>
      have drawn : Agreed identity key
          { link with peer := { link.peer with sequenceOut := u32 (link.peer.sequenceOut + 1) } } :=
        agreed.update rfl rfl rfl
      exact (drawn.sendRaw (outgoing _).truthful_encode none).keepPending (outgoing _) _ _

theorem Agreed.sendHandshake (agreed : link.Agreed identity key)
    : (link.sendHandshake identity moment).Agreed identity key := by
  refine Agreed.sendControl (Agreed.update agreed ?_ ?_ ?_) ?_ _
  · rfl
  · rfl
  · rfl
  intro whole announced
  rw [announcement, if_pos rfl] at announced
  exact Option.some.inj announced

theorem Agreed.sendQuiet (agreed : link.Agreed identity key) {type : PacketType}
    (silent : ∀ identity, announcement identity type.code = none) (payload : Bytes) (ackable : Bool)
    : (link.sendControl identity moment type payload ackable).Agreed identity key :=
  agreed.sendControl (fun _ announced => by cases (silent identity).symm.trans announced) ackable

theorem Agreed.sendPlain (agreed : link.Agreed identity key)
    (clientId : header.clientId = identity.clientId)
    (silent : announcement identity header.type = none)
    : (link.sendRaw (PacketCodec.encode header payload) none).Agreed identity key := by
  rw [PacketCodec.encode, encodeTo]
  exact agreed.sendRaw (truthful_of_none clientId silent) none

theorem Agreed.sendAckPacket (agreed : link.Agreed identity key) (ack : UInt32)
    : (link.sendAckPacket identity moment ack).Agreed identity key :=
  agreed.sendPlain rfl (@announcement_none identity PacketType.ack.code (by decide) (by decide))

theorem probeDatagrams_truthful {fragment remaining fuel : Nat}
    : ∀ datagram ∈ probeDatagrams identity moment fragment remaining fuel,
      Truthful identity key datagram := by
  intro datagram member
  obtain ⟨n, same⟩ := mem_probeDatagrams member
  rw [same, PacketCodec.encode, encodeTo]
  exact truthful_of_none rfl
    (@announcement_none identity PacketType.probe.code (by decide) (by decide))

theorem Agreed.foldl_sendRaw (agreed : link.Agreed identity key) {datagrams : List Bytes}
    (truthful : ∀ datagram ∈ datagrams, Truthful identity key datagram)
    : (datagrams.foldl (fun link datagram => link.sendRaw datagram none) link).Agreed identity key := by
  induction datagrams generalizing link with
  | nil => exact agreed
  | cons datagram rest ih =>
      refine ih (agreed.sendRaw (truthful datagram List.mem_cons_self) none) ?_
      exact fun other member => truthful other (List.mem_cons_of_mem _ member)

theorem Agreed.setState (agreed : link.Agreed identity key) (state : LinkState)
    : (link.setState state).Agreed identity key :=
  agreed.update rfl rfl rfl

theorem Agreed.goOnline (agreed : link.Agreed identity key)
    : (link.goOnline identity moment).Agreed identity key := by
  have online : ((link.setState .online).firePeerEvent .online).Agreed identity key :=
    (agreed.setState .online).fire trivial
  rw [Link.goOnline, Link.sendSpeedTest]
  split
  · exact online.foldl_sendRaw probeDatagrams_truthful
  · exact online

-- Handlers

/-- Two ends that encrypt under one token, and the key that the first derives from the public key of the
second.
-/
structure Paired (identity other : Identity) (key : Option Bytes) : Prop where
  enabled : identity.config.encryptionEnabled = true
  otherEnabled : other.config.encryptionEnabled = true
  token : identity.config.token = other.config.token
  publicKey : other.publicKey.length = 32
  derived : derivedKey identity other.publicKey other.clientId = key

theorem Agreed.adoptRetransmit (agreed : link.Agreed identity key) (announced : Option Bool)
    : (link.adoptRetransmit announced).Agreed identity key := by
  cases announced with
  | none => exact agreed
  | some flag => exact agreed.update rfl rfl rfl

theorem Agreed.adoptKey (agreed : link.Agreed identity key) (paired : Paired identity other key)
    {pub : Option Bytes} (theirs : ∀ bytes, pub = some bytes → bytes = other.publicKey)
    : (link.adoptKey identity pub other.clientId).Agreed identity key := by
  cases pub with
  | none => exact agreed
  | some pub =>
      rw [adoptKey_some, theirs pub rfl, paired.derived]
      cases key with
      | none => exact agreed
      | some bytes => exact ⟨⟨fun _ => rfl, agreed.peer.pending⟩, agreed.effects⟩

theorem Agreed.establish (agreed : link.Agreed identity key) : link.establish.Agreed identity key := by
  unfold Link.establish
  split
  · exact (agreed.setState .established).fire trivial
  · exact agreed

theorem Agreed.resetCommands (agreed : link.Agreed identity key)
    : link.resetCommands.Agreed identity key :=
  agreed.update rfl rfl rfl

theorem Agreed.acceptHandshake (agreed : link.Agreed identity key) (paired : Paired identity other key)
    {contents : HandshakeContents}
    (theirs : ∀ bytes, contents.peerPub = some bytes → bytes = other.publicKey)
    (clientId : header.clientId = other.clientId)
    : (link.acceptHandshake identity moment header contents).Agreed identity key := by
  have named : (((link.syncClock header.tick moment.unixMs).resetCommands).adoptIdentity
      contents).Agreed identity key :=
    (agreed.syncClock header.tick moment.unixMs).resetCommands.update rfl rfl rfl
  have keyed := named.adoptKey paired theirs
  have announced : ∀ whole, announcement identity PacketType.handshakeAck.code = some whole
      → announcedKey identity ++ capabilities identity = whole := by
    intro whole announced
    rw [announcement, if_neg (by decide), if_pos rfl] at announced
    exact Option.some.inj announced
  rw [Link.acceptHandshake, clientId]
  refine Agreed.sendControl (Agreed.establish ?_) announced true
  split
  · exact keyed.sendHandshake
  · exact keyed

theorem Agreed.handleHandshake (agreed : link.Agreed identity key) (paired : Paired identity other key)
    (clientId : header.clientId = other.clientId) (front : payload <+: handshakePayload other)
    : (link.handleHandshake identity moment header payload).Agreed identity key := by
  unfold Link.handleHandshake
  rw [paired.enabled]
  split
  · exact agreed
  · rename_i contents parsed
    dsimp only
    split
    · rename_i token
      refine (agreed.adoptRetransmit _).acceptHandshake paired ?_ clientId
      intro bytes carried
      exact peerPub_of_prefix paired.publicKey paired.otherEnabled front parsed
        (token.trans paired.token) carried
    · exact agreed.adoptRetransmit _

theorem Agreed.handleHandshakeAck (agreed : link.Agreed identity key)
    (paired : Paired identity other key) (clientId : header.clientId = other.clientId)
    (front : payload <+: announcedKey other ++ capabilities other)
    : (link.handleHandshakeAck identity moment header payload).Agreed identity key := by
  have reset : ((link.syncClock header.tick moment.unixMs).resetCommands).Agreed identity key :=
    (agreed.syncClock header.tick moment.unixMs).resetCommands
  have finish : ∀ next : Link, next.Agreed identity key
      → Agreed identity key
          (if next.peer.state = .handshake ∨ next.peer.state = .established then
            let link := next.sendControl identity moment .online [] true
            let link := { link with peer := { link.peer with handshakeBackoff := 500000000 } }
            link.goOnline identity moment
          else next) := by
    intro next agreed
    have answered : (next.sendControl identity moment .online [] true).Agreed identity key :=
      agreed.sendQuiet (fun _ => announcement_none (by decide) (by decide)) _ _
    split
    · refine Agreed.goOnline (Agreed.update answered ?_ ?_ ?_)
      all_goals rfl
    · exact agreed
  unfold Link.handleHandshakeAck
  refine finish _ ?_
  split
  · exact reset
  · rw [paired.enabled, clientId]
    refine (reset.adoptRetransmit _).adoptKey paired ?_
    intro bytes carried
    exact acknowledgedKey_of_prefix paired.publicKey paired.otherEnabled front carried

theorem Agreed.handleOnline (agreed : link.Agreed identity key)
    : (link.handleOnline identity moment).Agreed identity key := by
  unfold Link.handleOnline
  split
  · exact agreed.goOnline
  · exact agreed

theorem Agreed.handleHeartbeat (agreed : link.Agreed identity key)
    : (link.handleHeartbeat moment header payload).Agreed identity key := by
  unfold Link.handleHeartbeat
  refine Agreed.feedRttFromTick (Agreed.syncClock ?_ _ _) _
  split
  · exact agreed.update rfl rfl rfl
  · exact agreed

theorem Agreed.handleBye (agreed : link.Agreed identity key)
    : link.handleBye.Agreed identity key := by
  unfold Link.handleBye
  split
  · exact (agreed.setState .closed).fire trivial
  · exact agreed

theorem Agreed.handleData (agreed : link.Agreed identity key) {after : Link}
    (handled : link.handleData numerics identity moment header payload = .ok after)
    : after.Agreed identity key := by
  rw [Link.handleData] at handled
  obtain ⟨⟨peer, delivered⟩, ran, handled⟩ := ok_of_bind handled
  obtain ⟨late, collection, same⟩ := reassemblerHandleData_peer ran
  have next : Agreed identity key { link with peer := peer } :=
    agreed.update (by rw [same]) (by rw [same]) (by rw [same])
  cases delivered with
  | none =>
      cases handled
      exact next
  | some message =>
      cases handled
      exact next.fire trivial

theorem Agreed.foldl_fireCommand (agreed : link.Agreed identity key) (ready : List Bytes)
    : (ready.foldl fireCommand link).Agreed identity key := by
  induction ready generalizing link with
  | nil => exact agreed
  | cons payload rest ih => exact ih (agreed.fire trivial)

theorem Agreed.handleCommand (agreed : link.Agreed identity key)
    : (link.handleCommand moment header payload).Agreed identity key := by
  simp only [Link.handleCommand]
  refine Agreed.foldl_fireCommand (Agreed.update agreed ?_ ?_ ?_) _
  all_goals rfl

theorem Agreed.handleAck (agreed : link.Agreed identity key)
    : (link.handleAck moment header).Agreed identity key := by
  simp only [Link.handleAck]
  split
  · exact agreed
  · split
    · exact agreed
    · have erased : Agreed identity key
          {
            link with
            peer := {
              link.peer with
              pending := link.peer.pending.erase header.acknowledgment.toNat
            }
          } := by
        refine ⟨agreed.peer.fewer rfl rfl ?_, agreed.effects⟩
        intro seq entry stored
        rw [Std.TreeMap.getElem?_erase] at stored
        split at stored
        · cases stored
        · exact stored
      exact (erased.onAck _).trySyncClock

/-- A report prunes pending packets and has some of them sent again. -/
theorem Agreed.handleReport (agreed : link.Agreed identity key)
    : (link.handleReport identity moment header payload).Agreed identity key := by
  have resend : ∀ (entries : List PendingSend) (link : Link), link.Agreed identity key
      → (∀ entry ∈ entries, Outgoing identity entry.header entry.payload)
      → (entries.foldl (fun link entry => link.sendWire identity entry.header entry.payload)
          link).Agreed identity key := by
    intro entries
    induction entries with
    | nil => exact fun link agreed _ => agreed
    | cons entry rest ih =>
        intro link agreed outgoing
        refine ih _ (agreed.sendWire (outgoing entry List.mem_cons_self)) ?_
        exact fun other member => outgoing other (List.mem_cons_of_mem _ member)
  have sampled : (link.feedRttFromTick header.tick moment).Agreed identity key :=
    agreed.feedRttFromTick header.tick
  simp only [Link.handleReport]
  unfold Report.handle
  split
  · exact resend _ _ ⟨sampled.peer, sampled.effects⟩ fun entry member => absurd member List.not_mem_nil
  · rename_i report parsed
    refine resend _ _ ⟨sampled.peer.derived rfl rfl ?_, sampled.effects⟩ ?_
    · intro seq entry stored
      obtain ⟨old, storedBefore, header, payload⟩ := foldl_countResend_origin stored
      rw [Std.TreeMap.getElem?_filter', Option.filter_eq_some_iff] at storedBefore
      exact ⟨old, storedBefore.1, header, payload⟩
    · intro entry member
      obtain ⟨⟨seq, old⟩, resent, rfl⟩ := List.mem_map.mp member
      have stored := (List.mem_filter.mp resent).1
      exact sampled.peer.pending seq old (Std.TreeMap.mem_toList_iff_getElem?_eq_some.mp stored)

theorem Agreed.dispatch (agreed : link.Agreed identity key) (paired : Paired identity other key)
    (announces : Announces other header payload) {after : Link}
    (dispatched : link.dispatch numerics identity moment header payload = .ok after)
    : after.Agreed identity key := by
  have shown (type : PacketType) (kind : PacketType.ofCode? header.type = some type)
      : ∀ whole, announcement other type.code = some whole → payload <+: whole := by
    rw [← PacketType.code_of_ofCode? kind]
    exact announces.shown
  rw [Link.dispatch] at dispatched
  rcases kind : PacketType.ofCode? header.type with - | type
  · rw [kind] at dispatched
    exact Except.ok.inj dispatched ▸ agreed
  rw [kind] at dispatched
  cases type with
  | handshake =>
      have front := shown .handshake kind _ (if_pos rfl)
      exact Except.ok.inj dispatched
        ▸ (agreed.handleHandshake paired announces.clientId front).sendAckPacket _
  | handshakeAck =>
      have front := shown .handshakeAck kind _ ((if_neg (by decide)).trans (if_pos rfl))
      exact Except.ok.inj dispatched
        ▸ (agreed.handleHandshakeAck paired announces.clientId front).sendAckPacket _
  | online => exact Except.ok.inj dispatched ▸ agreed.handleOnline.sendAckPacket _
  | heartbeat => exact Except.ok.inj dispatched ▸ agreed.handleHeartbeat
  | bye => exact Except.ok.inj dispatched ▸ agreed.handleBye
  | data => exact agreed.handleData dispatched
  | parity => exact agreed.handleData dispatched
  | ack => exact Except.ok.inj dispatched ▸ agreed.handleAck
  | report => exact Except.ok.inj dispatched ▸ agreed.handleReport
  | probe => exact Except.ok.inj dispatched ▸ agreed.update rfl rfl rfl
  | command => exact Except.ok.inj dispatched ▸ agreed.handleCommand

/-- So does a truthful datagram of the other end, whatever it decodes to. -/
theorem Agreed.handlePacket (agreed : link.Agreed identity key) (paired : Paired identity other key)
    {bytes : Bytes} (truthful : Truthful other key bytes)
    (decoded : decode (bytes.take 2048) = some (header, payload)) {after : Link}
    (handled : link.handlePacket numerics identity moment header payload = .ok after)
    : after.Agreed identity key := by
  have touched : (link.touch moment header).Agreed identity key := agreed.update rfl rfl rfl
  rw [Link.handlePacket] at handled
  rcases ran : openPayload (link.touch moment header).peer header payload with - | opened
  · rw [ran] at handled
    exact Except.ok.inj handled ▸ touched
  · rw [ran] at handled
    have announces := truthful _ header payload opened decoded touched.peer.key ran
    exact touched.dispatch paired announces handled

-- The reactor and the callers

theorem announcement_call (call : FragmentCall)
    : announcement identity call.header.type = none := by
  rw [FragmentCall.header]
  dsimp only
  split <;> exact announcement_none (by decide) (by decide)

theorem Agreed.sendDataPacket (agreed : link.Agreed identity key) (call : FragmentCall)
    : (link.sendDataPacket identity moment call).Agreed identity key := by
  have outgoing (header : PacketHeader) (clientId : header.clientId = identity.clientId)
      (type : header.type = call.header.type)
      : Outgoing identity header call.payload :=
    outgoing_of_none clientId (by rw [type, announcement_call])
  have drawn : Agreed identity key
      { link with peer := { link.peer with sequenceOut := u32 (link.peer.sequenceOut + 1) } } :=
    agreed.update rfl rfl rfl
  simp only [Link.sendDataPacket]
  split
  · split
    · refine Agreed.sendWire (Agreed.keepPending drawn ?_ _ _) ?_
      · exact outgoing _ rfl rfl
      · exact outgoing _ rfl rfl
    · refine Agreed.sendWire drawn ?_
      exact outgoing _ rfl rfl
  · refine agreed.sendWire ?_
    exact outgoing _ rfl rfl

theorem Agreed.sendCommand (agreed : link.Agreed identity key)
    : (link.sendCommand identity moment payload).Agreed identity key := by
  unfold Link.sendCommand
  split
  · exact agreed
  · refine Agreed.sendWire (agreed.update ?_ ?_ ?_) (outgoing_of_none ?_ ?_)
    all_goals rfl

theorem Agreed.sendHandshakes (agreed : link.Agreed identity key)
    : (link.sendHandshakes identity moment).Agreed identity key := by
  have pruned : Agreed identity key
      {
        link with
        peer := {
          link.peer with
          pending := link.peer.pending.filter fun _ entry =>
            entry.header.type ≠ PacketType.handshake.code
        }
      } := by
    refine ⟨agreed.peer.fewer rfl rfl ?_, agreed.effects⟩
    intro seq entry stored
    rw [Std.TreeMap.getElem?_filter', Option.filter_eq_some_iff] at stored
    exact stored.1
  unfold Link.sendHandshakes
  split
  · exact agreed
  · dsimp only
    split
    · exact pruned
    · exact pruned.sendHandshake.update rfl rfl rfl

theorem Agreed.sendHeartbeats (agreed : link.Agreed identity key)
    : (link.sendHeartbeats identity moment).Agreed identity key := by
  unfold Link.sendHeartbeats
  split
  · exact agreed
  · split
    · exact agreed
    · refine Agreed.update (Agreed.sendQuiet agreed ?_ _ _) rfl rfl rfl
      exact fun _ => announcement_none (by decide) (by decide)

theorem Agreed.sendReports (agreed : link.Agreed identity key)
    : (link.sendReports numerics identity moment).Agreed identity key := by
  have built : Agreed identity key
      {
        link with
        peer := (Report.buildPayload numerics link.peer identity.config.reportInterval moment.now).1
      } :=
    agreed.update rfl rfl rfl
  unfold Link.sendReports
  split
  · exact agreed
  · split
    · exact agreed
    · refine Agreed.update (built.sendPlain ?_ ?_) ?_ ?_ ?_
      all_goals rfl

theorem Agreed.checkOffline (agreed : link.Agreed identity key)
    : (link.checkOffline identity moment).Agreed identity key := by
  have expired : Agreed identity key
      {
        link with
        peer := {
          link.peer with
          collection := expireCollection identity.config.deadTimeout moment.now
            link.peer.collection
        }
      } :=
    agreed.update rfl rfl rfl
  have closed : Agreed identity key
      (Link.firePeerEvent
        {
          link with
          peer := {
            link.peer with
            collection := expireCollection identity.config.deadTimeout moment.now
              link.peer.collection
            state := .closed
            pending := ∅
          }
        }
        .closed) := by
    refine Agreed.fire ?_ trivial
    refine ⟨⟨agreed.peer.key, ?_⟩, agreed.effects⟩
    intro seq entry stored
    simp at stored
  unfold Link.checkOffline
  dsimp only
  split
  · exact expired
  · split
    · exact expired
    · split
      · exact Agreed.update closed rfl rfl rfl
      · exact closed

theorem Agreed.flushCommands (agreed : link.Agreed identity key)
    : (link.flushCommands moment).Agreed identity key := by
  unfold Link.flushCommands
  refine Agreed.foldl_fireCommand (Agreed.update agreed ?_ ?_ ?_) _
  all_goals rfl

end Link

-- One end

namespace Transport

open Link

variable {numerics : Numerics} {identity other : Identity} {transport after : Transport}
  {occurrence : Occurrence} {outputs : List Effect} {key : Option Bytes}

/-- A transport all of whose records hold this key, if they hold one. -/
structure Agreed (identity : Identity) (key : Option Bytes) (transport : Transport) : Prop where
  same : transport.identity = identity
  peers : ∀ (id : Bytes) (peer : Peer), transport.peers[id]? = some peer → Keyed identity key peer

theorem Agreed.insert (agreed : transport.Agreed identity key) {id : Bytes} {peer : Peer}
    (keyed : Keyed identity key peer) (rttUs : Nat)
    : Transport.Agreed identity key
        { transport with peers := transport.peers.insert id peer, rttUs := rttUs } := by
  refine ⟨agreed.same, ?_⟩
  intro found peer stored
  rw [Std.TreeMap.getElem?_insert] at stored
  split at stored
  · obtain rfl := Option.some.inj stored
    exact keyed
  · exact agreed.peers found peer stored

theorem Agreed.getD (agreed : transport.Agreed identity key) (id : Bytes)
    : Keyed identity key (transport.peers.getD id {}) := by
  rw [Std.TreeMap.getD_eq_getD_getElem?]
  cases found : transport.peers[id]? with
  | none => exact ⟨Bool.noConfusion, fun seq entry stored => by simp at stored⟩
  | some peer => exact agreed.peers id peer found

theorem Agreed.visit (agreed : transport.Agreed identity key) {id : Bytes}
    {body : Link → Except Fault Link}
    (each : ∀ link next : Link, link.Agreed identity key → body link = .ok next
      → next.Agreed identity key)
    (taken : transport.visit id body = .ok (after, outputs))
    : after.Agreed identity key ∧ ∀ effect ∈ outputs, TruthfulEffect identity key effect := by
  rcases visit_cases taken with ⟨-, rfl, rfl⟩ | ⟨peer, next, found, ran, rfl, rfl⟩
  · exact ⟨agreed, fun effect member => absurd member List.not_mem_nil⟩
  · have done := each _ next ⟨agreed.peers id peer found, fun effect member =>
      absurd member List.not_mem_nil⟩ ran
    exact ⟨agreed.insert done.peer _, done.effects⟩

theorem Agreed.visit_total (agreed : transport.Agreed identity key) {id : Bytes} {body : Link → Link}
    (each : ∀ link : Link, link.Agreed identity key → (body link).Agreed identity key)
    (taken : transport.visit id (fun link => .ok (body link)) = .ok (after, outputs))
    : after.Agreed identity key ∧ ∀ effect ∈ outputs, TruthfulEffect identity key effect :=
  agreed.visit (fun link _ before ran => Except.ok.inj ran ▸ each link before) taken

theorem Agreed.removePeer (agreed : transport.Agreed identity key) (id : Bytes)
    : (transport.removePeer id).Agreed identity key := by
  refine ⟨agreed.same, ?_⟩
  intro found peer stored
  simp only [Transport.removePeer, Std.TreeMap.getElem?_erase] at stored
  split at stored
  · cases stored
  · exact agreed.peers found peer stored

theorem Agreed.addPeer (agreed : transport.Agreed identity key) (moment : Moment) (remoteId : Bytes)
    (addr : AddrKey)
    : (transport.addPeer moment remoteId addr).Agreed identity key := by
  have finish : ∀ table : Transport, table.Agreed identity key
      → ∀ (peer : Peer) (peerByAddr : AddrKey → Option Bytes),
        peer.pending = (table.peers.getD remoteId {}).pending
      → peer.cryptoReady = (table.peers.getD remoteId {}).cryptoReady
      → peer.cryptoKey = (table.peers.getD remoteId {}).cryptoKey
      → Transport.Agreed identity key
          { table with peers := table.peers.insert remoteId peer, peerByAddr := peerByAddr } := by
    intro table agreed peer peerByAddr pending ready same
    have kept : Keyed identity key peer :=
      (agreed.getD remoteId).fewer ready same fun _ _ stored => by rwa [pending] at stored
    obtain ⟨same, peers⟩ := agreed.insert kept table.rttUs
    exact ⟨same, peers⟩
  unfold Transport.addPeer
  refine finish _ ?_ _ _ rfl rfl rfl
  split
  · exact agreed.removePeer _
  · exact agreed

theorem Agreed.findOrCreatePeerByAddr (agreed : transport.Agreed identity key) (moment : Moment)
    (source : AddrKey) (draw : Nat)
    : (transport.findOrCreatePeerByAddr moment source draw).1.Agreed identity key := by
  unfold Transport.findOrCreatePeerByAddr
  split
  · exact agreed
  · have kept : Keyed identity key
        {
          transport.peers.getD (anonymousId source draw) {} with
          id := anonymousId source draw
          addr := source
          addrSet := true
          role := .leaf
          retransmit := transport.identity.config.retransmitEnabled
          state := .handshake
          lastHandshakeSent := moment.now - 3600000000000
        } :=
      (agreed.getD _).fewer rfl rfl fun _ _ stored => stored
    obtain ⟨same, peers⟩ := agreed.insert kept transport.rttUs
    exact ⟨same, peers⟩

theorem Agreed.queueMessage (agreed : transport.Agreed identity key) (peerId payload : Bytes)
    : (transport.queueMessage peerId payload).Agreed identity key := by
  unfold Transport.queueMessage
  split
  · exact agreed
  · split
    · exact agreed
    · split
      · exact ⟨agreed.same, agreed.peers⟩
      · exact agreed

theorem Agreed.encodeNext (agreed : transport.Agreed identity key)
    : (transport.encodeNext numerics).Agreed identity key := by
  unfold Transport.encodeNext
  split
  · split
    · exact ⟨agreed.same, agreed.peers⟩
    · rename_i id payload tasks _ _ _ peer found
      have kept : Keyed identity key
          {
            peer with
            msgIdOut := (Fragmenter.fragmentAndSend numerics peer payload
              transport.identity.config.mtu transport.scratch).msgIdOut
          } :=
        (agreed.peers id peer found).fewer rfl rfl fun _ _ stored => stored
      obtain ⟨same, peers⟩ := agreed.insert kept transport.rttUs
      exact ⟨same, peers⟩
  · exact agreed

theorem Agreed.receive (agreed : transport.Agreed identity key) (paired : Paired identity other key)
    {moment : Moment} {source : AddrKey} {bytes : Bytes} {draw : Nat}
    (truthful : Truthful other key bytes)
    (taken : transport.receive numerics moment source bytes draw = .ok (after, outputs))
    : after.Agreed identity key ∧ ∀ effect ∈ outputs, TruthfulEffect identity key effect := by
  simp only [Transport.receive] at taken
  rcases decoded : decode (bytes.take 2048) with - | ⟨header, payload⟩
  · rw [decoded] at taken
    cases taken
    exact ⟨agreed, fun effect member => absurd member List.not_mem_nil⟩
  · rw [decoded] at taken
    have found := agreed.findOrCreatePeerByAddr moment source draw
    refine found.visit ?_ taken
    intro link next before handled
    rw [found.same] at handled
    exact before.handlePacket paired truthful decoded handled

/-- A step keeps the transport agreed and sends truthful datagrams if what arrives is truthful. -/
theorem Agreed.step (agreed : transport.Agreed identity key) (paired : Paired identity other key)
    (truthful : ∀ source bytes draw, occurrence.event = .datagram source bytes draw
      → Truthful other key bytes)
    (taken : transport.step numerics occurrence = .ok (after, outputs))
    : after.Agreed identity key ∧ ∀ effect ∈ outputs, TruthfulEffect identity key effect := by
  have silent {next : Transport} (agreed : next.Agreed identity key)
      : next.Agreed identity key ∧ ∀ effect ∈ ([] : List Effect), TruthfulEffect identity key effect :=
    ⟨agreed, fun effect member => absurd member List.not_mem_nil⟩
  obtain ⟨moment, event⟩ := occurrence
  rw [Transport.step, agreed.same] at taken
  cases event with
  | connect remoteId addr =>
      exact (agreed.addPeer moment remoteId addr).visit_total (fun link agreed => agreed.sendHandshake)
        taken
  | datagram source bytes draw => exact agreed.receive paired (truthful source bytes draw rfl) taken
  | sendCommand peerId payload =>
      dsimp only at taken
      split at taken
      · cases taken
        exact silent agreed
      · split at taken
        · cases taken
          exact silent agreed
        · exact agreed.visit_total (fun link agreed => agreed.sendCommand) taken
  | processSend peerId payload =>
      cases taken
      exact silent (agreed.queueMessage peerId payload)
  | encode =>
      cases taken
      exact silent agreed.encodeNext
  | fragment =>
      dsimp only at taken
      split at taken
      · cases taken
        exact silent agreed
      · rename_i id call encoding queued
        have rest : Transport.Agreed identity key
            { transport with identity := identity, encoding := encoding } :=
          ⟨rfl, agreed.peers⟩
        exact rest.visit_total (fun link agreed => agreed.sendDataPacket call) taken
  | sendHandshakes id => exact agreed.visit_total (fun link agreed => agreed.sendHandshakes) taken
  | sendHeartbeats id => exact agreed.visit_total (fun link agreed => agreed.sendHeartbeats) taken
  | sendReports id => exact agreed.visit_total (fun link agreed => agreed.sendReports) taken
  | checkOffline id => exact agreed.visit_total (fun link agreed => agreed.checkOffline) taken
  | flushCommands id => exact agreed.visit_total (fun link agreed => agreed.flushCommands) taken

end Transport

-- Opening at the other end

/-- The receiver decrypts the payload of a datagram, and it is this. -/
def OpensAs (receiver : Peer) (datagram payload : Bytes) : Prop :=
  ∃ header body opened, decode datagram = some (header, body)
    ∧ decryptPayload receiver header body = some (opened, payload)

theorem length_of_decryptPayload {receiver : Peer} {header : PacketHeader} {payload : Bytes}
    {opened : PacketHeader × Bytes} (ran : decryptPayload receiver header payload = some opened)
    : payload.length = opened.2.length + kGcmTagSize := by
  unfold decryptPayload at ran
  split at ran
  · cases ran
  · split at ran
    · cases ran
    · rename_i long
      obtain ⟨plaintext, accepted, rfl⟩ := Option.map_eq_some_iff.mp ran
      rw [Crypto.aes256GcmDecrypt] at accepted
      split at accepted
      · cases accepted
      · obtain rfl := Option.some.inj accepted
        dsimp only
        rw [Crypto.length_aes256GcmCrypt, List.length_take]
        omega

/-- A sealed payload that arrives whole opens under its key. -/
theorem decryptPayload_whole {receiver : Peer} {header : PacketHeader} {input : Seal}
    (ready : receiver.cryptoReady = true) (key : receiver.cryptoKey = input.key)
    (nonce : buildNonce header = input.nonce) (aad : headFields header = input.aad)
    : ∃ opened, decryptPayload receiver header input.output = some (opened, input.plaintext) := by
  have tagLength : (Crypto.aes256GcmEncrypt input.key input.nonce input.aad input.plaintext).2.length
      = kGcmTagSize := by
    simp [Crypto.aes256GcmEncrypt, kGcmTagSize]
  have parts : input.output
      = (Crypto.aes256GcmEncrypt input.key input.nonce input.aad input.plaintext).1
        ++ (Crypto.aes256GcmEncrypt input.key input.nonce input.aad input.plaintext).2 :=
    rfl
  rw [parts, decryptPayload_append ready tagLength, key, nonce, aad,
    Crypto.aes256GcmDecrypt_aes256GcmEncrypt]
  exact ⟨_, rfl⟩

/-- A sealed packet opens under the same key exactly when its size does not wrap: the buffer of one that
does is cut, and no part of it decrypts to the whole payload.
-/
theorem opensAs_buildWirePacket_iff {sender receiver : Peer} {header : PacketHeader} {payload : Bytes}
    (senderReady : sender.cryptoReady = true) (ready : receiver.cryptoReady = true)
    (sameKey : sender.cryptoKey = receiver.cryptoKey) (magic : header.magic = kMagic)
    (version : header.version = kVersion)
    : OpensAs receiver (buildWirePacket true sender header payload) payload
      ↔ payload.length + kGcmTagSize < 2 ^ 16 := by
  obtain ⟨onWire, marked⟩ : ∃ onWire, onWire = wireHeader true header payload := ⟨_, rfl⟩
  have wireMagic : onWire.magic = kMagic := by rw [marked]; exact magic
  have wireVersion : onWire.version = kVersion := by rw [marked]; exact version
  have wireSize : onWire.payloadSize.toNat = (payload.length + kGcmTagSize) % 2 ^ 16 := by
    rw [marked]
    exact UInt16.toNat_ofNat'
  have aad : (encodeHeaderTo onWire).take 44 = headFields onWire := by
    simpa only [List.append_nil] using take_encodeHeaderTo onWire []
  obtain ⟨input, inputs⟩ : ∃ input : Seal, input =
      {
        key := receiver.cryptoKey
        nonce := buildNonce onWire
        aad := headFields onWire
        plaintext := payload
      } :=
    ⟨_, rfl⟩
  obtain ⟨body, filled⟩ : ∃ body, body = fillPayload onWire.payloadSize.toNat input.output := ⟨_, rfl⟩
  have length : body.length = onWire.payloadSize.toNat := by
    rw [filled, fillPayload, List.length_take, List.length_append, List.length_replicate]
    omega
  have decoded : decode (buildWirePacket true sender header payload)
      = some ({ onWire with checksum := checksumOf onWire body }, body) := by
    have datagram : buildWirePacket true sender header payload
        = headFields onWire ++ put32 (checksumOf onWire body) ++ body := by
      simp only [buildWirePacket, sealOf, senderReady, Bool.and_self, if_true, ← marked, aad, sameKey,
        ← inputs, ← filled]
      rw [finalizeCrc_encodeHeaderTo]
    rw [datagram, decode_headFields wireMagic wireVersion length.symm]
  constructor
  · rintro ⟨received, read, opened, same, ran⟩
    obtain ⟨rfl, rfl⟩ := Prod.mk.inj (Option.some.inj (decoded.symm.trans same))
    have longer := length_of_decryptPayload ran
    rw [length, wireSize] at longer
    rw [← longer]
    exact Nat.mod_lt _ (by decide)
  · intro short
    have whole : body = input.output := by
      have size : onWire.payloadSize.toNat = input.output.length := by
        rw [wireSize, Nat.mod_eq_of_lt short, Seal.length_output, inputs]
      rw [filled, size, fillPayload_self]
    obtain ⟨opened, opens⟩ := @decryptPayload_whole receiver
      { onWire with checksum := checksumOf onWire body } input ready (by rw [inputs])
      (by rw [inputs, buildNonce_checksum]) (by rw [inputs, headFields_checksum])
    rw [← whole, inputs] at opens
    exact ⟨_, _, opened, decoded, opens⟩

-- Pairing

namespace Link

variable {numerics : Numerics} {identity other : Identity} {moment : Moment} {header : PacketHeader}
  {payload key : Bytes} {link : Link}

theorem sendControl_sends (addressed : link.peer.addrSet = true) (type : PacketType) (payload : Bytes)
    : ∃ sequence, PacketCodec.encode (controlHeader identity moment type payload sequence) payload
      ∈ datagrams (link.sendControl identity moment type payload true).effects := by
  refine ⟨link.peer.sequenceOut, ?_⟩
  simp only [sendControl, if_true, sendRaw, addressed, keepPending, fire, datagrams,
    List.filterMap_append, List.mem_append]
  exact .inr List.mem_cons_self

theorem sendControl_record (type : PacketType) (payload : Bytes) (ackable : Bool)
    : (link.sendControl identity moment type payload ackable).peer.addrSet = link.peer.addrSet
      ∧ (link.sendControl identity moment type payload ackable).peer.cryptoReady
        = link.peer.cryptoReady := by
  rw [sendControl_peer]
  split <;> exact ⟨rfl, rfl⟩

theorem handlePacket_plain (plain : header.flags = 0)
    : link.handlePacket numerics identity moment header payload
      = (link.touch moment header).dispatch numerics identity moment header payload := by
  have unmarked : ¬header.flags &&& kFlagEncrypted ≠ 0 := by
    rw [plain]
    decide
  rw [handlePacket, openPayload, if_neg unmarked]

theorem handlePacket_handshake (plain : header.flags = 0)
    (kind : header.type = PacketType.handshake.code)
    : link.handlePacket numerics identity moment header payload
      = .ok (((link.touch moment header).handleHandshake identity moment header
          payload).sendAckPacket identity moment header.sequence) := by
  rw [handlePacket_plain plain, dispatch, kind]
  rfl

theorem handlePacket_handshakeAck (plain : header.flags = 0)
    (kind : header.type = PacketType.handshakeAck.code)
    : link.handlePacket numerics identity moment header payload
      = .ok (((link.touch moment header).handleHandshakeAck identity moment header
          payload).sendAckPacket identity moment header.sequence) := by
  rw [handlePacket_plain plain, dispatch, kind]
  rfl

theorem mem_datagrams_sendAckPacket {datagram : Bytes} (ack : UInt32)
    (sent : datagram ∈ datagrams link.effects)
    : datagram ∈ datagrams (link.sendAckPacket identity moment ack).effects := by
  simp only [sendAckPacket, sendRaw]
  split
  · rw [fire, datagrams, List.filterMap_append]
    exact List.mem_append_left _ sent
  · exact sent

/-- The handshake of the other end makes the record ready, and is acknowledged. -/
theorem handleHandshake_pairs (paired : Paired identity other (some key))
    (small : other.config.id.length ≤ 65535) (clientId : header.clientId = other.clientId)
    (addressed : link.peer.addrSet = true)
    : (link.handleHandshake identity moment header (handshakePayload other)).peer.cryptoReady = true
      ∧ ∃ sequence,
        PacketCodec.encode
            (controlHeader identity moment .handshakeAck (announcedKey identity ++ capabilities identity)
              sequence)
            (announcedKey identity ++ capabilities identity)
          ∈ datagrams
            (link.handleHandshake identity moment header (handshakePayload other)).effects := by
  have parsed := parseHandshake_handshakePayload paired.publicKey small
  rw [paired.otherEnabled, ← paired.enabled] at parsed
  have same : (announced other).token = identity.config.token := paired.token.symm
  rw [handleHandshake_of_parse parsed, if_pos same, acceptHandshake]
  obtain ⟨clock, synced⟩ := syncClock_peer
    (link.adoptRetransmit (announced other).peerRetransmit) header.tick moment.unixMs
  rw [adoptRetransmit_peer] at synced
  generalize keyed : Link.adoptKey identity (announced other).peerPub header.clientId _ = next
  have pub : (announced other).peerPub = some other.publicKey := if_pos paired.otherEnabled
  have ready : next.peer.cryptoReady = true ∧ next.peer.addrSet = true := by
    rw [← keyed, adoptKey_peer, pub, clientId, Option.bind_some, paired.derived]
    refine ⟨rfl, ?_⟩
    simp only [adoptIdentity, resetCommands, synced]
    exact addressed
  have answered (link : Link) (ready : link.peer.cryptoReady = true ∧ link.peer.addrSet = true)
      (payload : Bytes)
      : (link.establish.sendControl identity moment .handshakeAck payload true).peer.cryptoReady = true
        ∧ ∃ sequence,
          PacketCodec.encode (controlHeader identity moment .handshakeAck payload sequence) payload
          ∈ datagrams (link.establish.sendControl identity moment .handshakeAck payload true).effects := by
    have established : link.establish.peer.cryptoReady = true ∧ link.establish.peer.addrSet = true := by
      rw [establish_peer]
      exact ready
    refine ⟨(sendControl_record _ _ _).2.trans established.1, sendControl_sends established.2 _ _⟩
  refine answered _ ?_ _
  split
  · have sent := @sendControl_record identity moment
      { next with peer := { next.peer with lastHandshakeSent := moment.now } } .handshake
      (handshakePayload identity) true
    exact ⟨sent.2.trans ready.1, sent.1.trans ready.2⟩
  · exact ready

/-- A record over which sealed packets can be sent. -/
def IsUp (peer : Peer) : Prop :=
  peer.cryptoReady = true ∧ peer.addrSet = true ∧ peer.state = .online

/-- Its acknowledgement makes the record ready as well, and brings the link online. -/
theorem handleHandshakeAck_pairs (paired : Paired identity other (some key))
    (clientId : header.clientId = other.clientId) (waiting : link.peer.state = .handshake)
    (addressed : link.peer.addrSet = true)
    : IsUp (link.handleHandshakeAck identity moment header
        (announcedKey other ++ capabilities other)).peer := by
  have length : (announcedKey other).length = 32 := by
    rw [length_announcedKey paired.publicKey, if_pos paired.otherEnabled]
  obtain ⟨flags, last⟩ : ∃ flags, (announcedKey other ++ capabilities other).getLast? = some flags :=
    ⟨_, List.getLast?_concat⟩
  have pub : acknowledgedKey true (announcedKey other ++ capabilities other) = some other.publicKey := by
    have whole : (announcedKey other ++ capabilities other).length = 33 := by
      rw [List.length_append, length]
      rfl
    rw [acknowledgedKey, if_pos ⟨rfl, whole.ge⟩, whole, Nat.sub_self, List.drop_zero,
      List.take_left' length, announcedKey, if_pos paired.otherEnabled]
  have finish (next : Link)
      (peer : next.peer.cryptoReady = true ∧ next.peer.addrSet = true ∧ next.peer.state = .handshake)
      : IsUp
          (if next.peer.state = .handshake ∨ next.peer.state = .established then
            let link := next.sendControl identity moment .online [] true
            let link := { link with peer := { link.peer with handshakeBackoff := 500000000 } }
            link.goOnline identity moment
          else next).peer := by
    obtain ⟨ready, addressed, waiting⟩ := peer
    have sent := @sendControl_record identity moment next .online [] true
    rw [if_pos (.inl waiting)]
    dsimp only
    rw [goOnline_peer]
    exact ⟨sent.2.trans ready, sent.1.trans addressed, rfl⟩
  obtain ⟨clock, synced⟩ := syncClock_peer link header.tick moment.unixMs
  rw [handleHandshakeAck, last, paired.enabled, pub, clientId]
  refine finish _ ?_
  dsimp only
  rw [adoptKey_peer, Option.bind_some, paired.derived]
  refine ⟨rfl, ?_⟩
  simp only [adoptRetransmit, resetCommands, synced]
  exact ⟨addressed, waiting⟩

theorem handlePacket_pairs (paired : Paired identity other (some key))
    (small : other.config.id.length ≤ 65535) (plain : header.flags = 0)
    (kind : header.type = PacketType.handshake.code) (clientId : header.clientId = other.clientId)
    (addressed : link.peer.addrSet = true)
    : ∃ next,
      link.handlePacket numerics identity moment header (handshakePayload other) = .ok next
      ∧ next.peer.cryptoReady = true
      ∧ ∃ sequence,
        PacketCodec.encode
            (controlHeader identity moment .handshakeAck (announcedKey identity ++ capabilities identity)
              sequence)
            (announcedKey identity ++ capabilities identity)
          ∈ datagrams next.effects := by
  have touched : (link.touch moment header).peer.addrSet = true := addressed
  obtain ⟨ready, sequence, answers⟩ :=
    @handleHandshake_pairs identity other moment header key _ paired small clientId touched
  refine ⟨_, handlePacket_handshake plain kind, ?_, sequence, mem_datagrams_sendAckPacket _ answers⟩
  rw [sendAckPacket_peer]
  exact ready

theorem handlePacket_isUp (paired : Paired identity other (some key)) (plain : header.flags = 0)
    (kind : header.type = PacketType.handshakeAck.code) (clientId : header.clientId = other.clientId)
    (waiting : link.peer.state = .handshake) (addressed : link.peer.addrSet = true)
    : ∃ next,
      link.handlePacket numerics identity moment header (announcedKey other ++ capabilities other)
        = .ok next
      ∧ IsUp next.peer := by
  have touched : (link.touch moment header).peer.state = .handshake
      ∧ (link.touch moment header).peer.addrSet = true := ⟨waiting, addressed⟩
  refine ⟨_, handlePacket_handshakeAck plain kind, ?_⟩
  rw [sendAckPacket_peer]
  exact handleHandshakeAck_pairs paired clientId touched.1 touched.2

end Link

-- Two ends

/-- Two ends that encrypt under one token, and whose key pairs are such that each end computes the same
secret from its private key and the public key of the other.
-/
structure Mates (identity : End → Identity) : Prop where
  encrypts : ∀ side, (identity side).config.encryptionEnabled = true
  token : (identity .left).config.token = (identity .right).config.token
  publicKey : ∀ side, (identity side).publicKey.length = 32
  commutes : Crypto.x25519 (identity .left).privateKey (identity .right).publicKey
    = Crypto.x25519 (identity .right).privateKey (identity .left).publicKey

/-- The session key of two ends, unless they share a low-order secret. -/
def agreedKey (identity : End → Identity) : Option Bytes :=
  Link.derivedKey (identity .left) (identity .right).publicKey (identity .right).clientId

theorem keySalt_comm (left right : UInt32) : Link.keySalt left right = Link.keySalt right left := by
  have least : min left right = min right left := by
    change (if left ≤ right then left else right) = if right ≤ left then right else left
    split <;> split
    · exact UInt32.le_antisymm ‹_› ‹_›
    · rfl
    · rfl
    · exact absurd (UInt32.le_total left right) (not_or.mpr ⟨‹_›, ‹_›⟩)
  have greatest : max left right = max right left := by
    change (if left ≤ right then right else left) = if right ≤ left then left else right
    split <;> split
    · exact UInt32.le_antisymm ‹_› ‹_›
    · rfl
    · rfl
    · exact absurd (UInt32.le_total left right) (not_or.mpr ⟨‹_›, ‹_›⟩)
  rw [Link.keySalt, Link.keySalt, least, greatest]

theorem Mates.paired {identity : End → Identity} (mates : Mates identity) (side : End)
    : Link.Paired (identity side) (identity side.other) (agreedKey identity) where
  enabled := mates.encrypts side
  otherEnabled := mates.encrypts side.other
  token := by
    cases side with
    | left => exact mates.token
    | right => exact mates.token.symm
  publicKey := mates.publicKey side.other
  derived := by
    cases side with
    | left => rfl
    | right =>
        rw [agreedKey, Link.derivedKey, Link.derivedKey, mates.commutes]
        refine congrArg (fun derive => Option.map derive _) (funext fun shared => ?_)
        rw [Link.sessionKey, Link.sessionKey, keySalt_comm]
        rfl

namespace Exchange

open Link

variable {numerics : Numerics} {identity : End → Identity} {exchange after : Exchange}
  {outputs : List Effect} {key : Option Bytes}

/-- Two transports that hold this key, if they hold one, and have sent truthful datagrams only. -/
structure Agreed (identity : End → Identity) (key : Option Bytes) (exchange : Exchange) : Prop where
  transports : ∀ side, (exchange.transport side).Agreed (identity side) key
  sent : ∀ side, ∀ bytes ∈ exchange.sent side, Truthful (identity side) key bytes

theorem truthful_datagrams {identity : Identity} {effects : List Effect}
    (truthful : ∀ effect ∈ effects, TruthfulEffect identity key effect)
    : ∀ bytes ∈ datagrams effects, Truthful identity key bytes := by
  intro bytes member
  obtain ⟨effect, among, same⟩ := List.mem_filterMap.mp member
  cases effect with
  | send id addr datagram sealed =>
      obtain rfl := Option.some.inj same
      exact truthful _ among
  | message id remote payload => cases same
  | command id remote payload => cases same
  | peerEvent id event => cases same

theorem Agreed.perform (agreed : exchange.Agreed identity key) {side : End}
    (paired : Paired (identity side) (identity side.other) key) {occurrence : Occurrence}
    (heard : ∀ source bytes draw, occurrence.event = .datagram source bytes draw
      → Truthful (identity side.other) key bytes)
    (taken : exchange.perform numerics side occurrence = .ok (after, outputs))
    : after.Agreed identity key := by
  rw [Exchange.perform] at taken
  rcases ran : (exchange.transport side).step numerics occurrence with fault | ⟨transport, effects⟩
  · simp only [ran] at taken
    cases taken
  · simp only [ran] at taken
    cases taken
    obtain ⟨kept, truthful⟩ := (agreed.transports side).step paired heard ran
    constructor
    · intro other
      by_cases same : other = side
      · subst same
        simp only [Function.update_self]
        exact kept
      · simp only [Function.update_of_ne same]
        exact agreed.transports other
    · intro other
      by_cases same : other = side
      · subst same
        simp only [Function.update_self]
        exact List.forall_mem_append.mpr ⟨agreed.sent other, truthful_datagrams truthful⟩
      · simp only [Function.update_of_ne same]
        exact agreed.sent other

theorem Agreed.step (agreed : exchange.Agreed identity (agreedKey identity)) (mates : Mates identity)
    {history : List (Stage Exchange ExchangeEvent Effect)} {event : ExchangeEvent}
    (undisturbed : Undisturbed history exchange event)
    (taken : exchange.step numerics event = .ok (after, outputs))
    : after.Agreed identity (agreedKey identity) := by
  cases event with
  | act side occurrence =>
      refine agreed.perform (mates.paired side) ?_ taken
      intro source bytes draw same
      exact absurd same (undisturbed side occurrence source bytes draw rfl)
  | arrive side moment source index draw =>
      rw [Exchange.step] at taken
      rcases found : (exchange.sent side.other)[index]? with - | bytes
      · simp only [found] at taken
        cases taken
        exact agreed
      · simp only [found] at taken
        refine agreed.perform (mates.paired side) ?_ taken
        intro from_ other chance same
        obtain ⟨-, rfl, -⟩ := Event.datagram.inj same
        exact agreed.sent side.other bytes (List.mem_of_getElem? found)

/-- The invariant over whole runs, by induction on their steps. -/
theorem agreed_of_run (mates : Mates identity) {history : List (Stage Exchange ExchangeEvent Effect)}
    {last : Exchange} (run : Run (step numerics) Undisturbed (initial identity) history last)
    : last.Agreed identity (agreedKey identity) := by
  refine run.invariant (fun _ exchange => exchange.Agreed identity (agreedKey identity)) ?_ ?_
  · constructor
    · intro side
      refine ⟨rfl, ?_⟩
      intro id peer stored
      simp [initial, Transport.initial] at stored
    · exact fun side bytes member => absurd member List.not_mem_nil
  · exact fun _ _ _ _ _ _ agreed undisturbed taken => agreed.step mates undisturbed taken

/-- In every run of two ends that only hear each other, two records that are ready hold one key, and a
packet that one of them seals opens at the other exactly when the tag leaves its size within 16 bits.
-/
theorem agree_and_open_iff (mates : Mates identity)
    {history : List (Stage Exchange ExchangeEvent Effect)} {last : Exchange}
    (run : Run (step numerics) Undisturbed (initial identity) history last) {side : End}
    {id otherId : Bytes} {peer otherPeer : Peer}
    (stored : (last.transport side).peers[id]? = some peer)
    (otherStored : (last.transport side.other).peers[otherId]? = some otherPeer)
    (ready : peer.cryptoReady = true) (otherReady : otherPeer.cryptoReady = true)
    : peer.cryptoKey = otherPeer.cryptoKey
      ∧ ∀ header payload, header.magic = kMagic → header.version = kVersion
        → (OpensAs otherPeer
              (buildWirePacket (identity side).config.encryptionEnabled peer header payload) payload
            ↔ payload.length + kGcmTagSize < 2 ^ 16) := by
  have agreed := agreed_of_run mates run
  have own := ((agreed.transports side).peers id peer stored).key ready
  have theirs := ((agreed.transports side.other).peers otherId otherPeer otherStored).key otherReady
  have same : peer.cryptoKey = otherPeer.cryptoKey := Option.some.inj (own.symm.trans theirs)
  refine ⟨same, ?_⟩
  intro header payload magic version
  rw [mates.encrypts side]
  exact opensAs_buildWirePacket_iff ready otherReady same magic version

-- A pairing

theorem step_connect {identity : Identity} (moment : Moment) (id : Bytes) (addr : AddrKey)
    : ∃ after outputs peer sequence,
      (Transport.initial identity).step numerics ⟨moment, .connect id addr⟩ = .ok (after, outputs)
      ∧ after.identity = identity ∧ after.peers[id]? = some peer ∧ after.peerByAddr addr = some id
      ∧ peer.addrSet = true ∧ peer.state = .handshake
      ∧ PacketCodec.encode
          (controlHeader identity moment .handshake (handshakePayload identity) sequence)
          (handshakePayload identity)
        ∈ datagrams outputs := by
  have fresh : (Transport.initial identity).peers.getD id {} = {} := Std.TreeMap.getD_emptyc
  obtain ⟨peer, stored, addressed, waiting⟩
      : ∃ peer, ((Transport.initial identity).addPeer moment id addr).peers[id]? = some peer
        ∧ peer.addrSet = true ∧ peer.state = .handshake := by
    refine ⟨_, Std.TreeMap.getElem?_insert_self, rfl, ?_⟩
    change (if ((Transport.initial identity).peers.getD id {}).state = .closed then LinkState.handshake
      else ((Transport.initial identity).peers.getD id {}).state) = .handshake
    rw [fresh]
    rfl
  obtain ⟨sequence, sends⟩ := @sendControl_sends identity moment
    {
      key := id
      peer := { peer with lastHandshakeSent := moment.now }
      rttUs := ((Transport.initial identity).addPeer moment id addr).rttUs
    }
    addressed .handshake (handshakePayload identity)
  have record := @sendControl_peer identity moment
    {
      key := id
      peer := { peer with lastHandshakeSent := moment.now }
      rttUs := ((Transport.initial identity).addPeer moment id addr).rttUs
    }
    .handshake (handshakePayload identity) true
  rw [if_pos rfl] at record
  simp only [Transport.step, Transport.visit, stored]
  refine ⟨_, _, _, sequence, rfl, rfl, Std.TreeMap.getElem?_insert_self, if_pos rfl, ?_, ?_, sends⟩
  · exact (congrArg Peer.addrSet record).trans addressed
  · exact (congrArg Peer.state record).trans waiting

theorem perform_ok {side : End} {occurrence : Occurrence} {transport : Transport}
    (taken : (exchange.transport side).step numerics occurrence = .ok (transport, outputs))
    : ∃ after, exchange.perform numerics side occurrence = .ok (after, outputs)
      ∧ after.transport side = transport
      ∧ after.transport side.other = exchange.transport side.other
      ∧ after.sent side = exchange.sent side ++ datagrams outputs := by
  have apart : side.other ≠ side := by cases side <;> decide
  simp only [Exchange.perform, taken]
  exact ⟨_, rfl, Function.update_self .., Function.update_of_ne apart .., Function.update_self ..⟩

/-- A packet of the other end arrives, and is handled on the record of its source. -/
theorem step_arrive {side : End} {moment : Moment} {source : AddrKey} {index draw : Nat}
    {header : PacketHeader} {body id : Bytes} {table : Transport} {peer : Peer} {next : Link}
    (sent : (exchange.sent side.other)[index]? = some (PacketCodec.encode header body))
    (magic : header.magic = kMagic) (version : header.version = kVersion)
    (size : header.payloadSize.toNat = body.length) (short : kHeaderSize + body.length ≤ 2048)
    (found : (exchange.transport side).findOrCreatePeerByAddr moment source draw = (table, id))
    (stored : table.peers[id]? = some peer)
    (handled : Link.handlePacket numerics (exchange.transport side).identity moment
      { header with checksum := PacketCodec.checksumOf header body } body
      { key := id, peer := peer, rttUs := table.rttUs } = .ok next)
    : ∃ after, exchange.step numerics (.arrive side moment source index draw)
        = .ok (after, next.effects)
      ∧ (after.transport side).peers[id]? = some next.peer
      ∧ after.transport side.other = exchange.transport side.other
      ∧ after.sent side = exchange.sent side ++ datagrams next.effects := by
  have taken : (exchange.transport side).step numerics
      ⟨moment, .datagram source (PacketCodec.encode header body) draw⟩
      = .ok ({ table with peers := table.peers.insert id next.peer, rttUs := next.rttUs },
          next.effects) := by
    rw [Transport.step_datagram magic version size short, found]
    simp only [Transport.visit, stored, handled]
  obtain ⟨after, performed, own, others, more⟩ := perform_ok taken
  simp only [Exchange.step, sent]
  refine ⟨after, performed, ?_, others, more⟩
  rw [own]
  exact Std.TreeMap.getElem?_insert_self

theorem undisturbed_arrive {history : List (Stage Exchange ExchangeEvent Effect)} {side : End}
    {moment : Moment} {source : AddrKey} {index draw : Nat}
    : Undisturbed history exchange (.arrive side moment source index draw) := by
  intro other occurrence from_ bytes chance same
  cases same

/-- The size of a control packet that fits the receive buffer. -/
theorem controlHeader_size {identity : Identity} {moment : Moment} {type : PacketType} {payload : Bytes}
    {sequence : Nat} (fits : payload.length ≤ 2000)
    : (controlHeader identity moment type payload sequence).payloadSize.toNat = payload.length := by
  rw [controlHeader]
  exact Nat.mod_eq_of_lt (by omega)

/-- A handshake arrives at an end without records: its record is ready, and it answers. -/
theorem step_handshake {side : End} {other : Identity} {moment : Moment} {source : AddrKey}
    {index draw sequence : Nat} {bytes : Bytes} (paired : Paired (identity side) other (some bytes))
    (fresh : exchange.transport side = .initial (identity side))
    (fits : (handshakePayload other).length ≤ 2000)
    (sent : (exchange.sent side.other)[index]? = some (PacketCodec.encode
      (controlHeader other moment .handshake (handshakePayload other) sequence)
      (handshakePayload other)))
    : ∃ (after : Exchange) (outputs : List Effect) (id : Bytes) (peer : Peer) (answer : Nat),
      exchange.step numerics (.arrive side moment source index draw) = .ok (after, outputs)
      ∧ (after.transport side).peers[id]? = some peer ∧ peer.cryptoReady = true
      ∧ after.transport side.other = exchange.transport side.other
      ∧ PacketCodec.encode
          (controlHeader (identity side) moment .handshakeAck
            (announcedKey (identity side) ++ capabilities (identity side)) answer)
          (announcedKey (identity side) ++ capabilities (identity side))
        ∈ after.sent side := by
  have small := length_id_le (fits.trans (by decide))
  obtain ⟨peer, stored, addressed⟩
      : ∃ peer,
        ((exchange.transport side).findOrCreatePeerByAddr moment source draw).1.peers[
          ((exchange.transport side).findOrCreatePeerByAddr moment source draw).2]? = some peer
        ∧ peer.addrSet = true := by
    rw [fresh]
    exact ⟨_, Std.TreeMap.getElem?_insert_self, rfl⟩
  have own : (exchange.transport side).identity = identity side := by rw [fresh]; rfl
  obtain ⟨header, shown⟩ : ∃ header,
      header = controlHeader other moment .handshake (handshakePayload other) sequence := ⟨_, rfl⟩
  rw [← shown] at sent
  obtain ⟨next, handled, ready, answer, answers⟩ :=
    @handlePacket_pairs numerics (identity side) other moment
      { header with checksum := PacketCodec.checksumOf header (handshakePayload other) } bytes
      { key := _, peer := peer, rttUs := _ }
      paired small (by rw [shown]; rfl) (by rw [shown]; rfl) (by rw [shown]; rfl) addressed
  rw [← own] at handled
  obtain ⟨after, taken, kept, others, more⟩ :=
    step_arrive sent (by rw [shown]; rfl) (by rw [shown]; rfl) (by rw [shown, controlHeader_size fits])
      (Nat.add_le_add_left fits 48) rfl stored handled
  refine ⟨after, _, _, _, answer, taken, kept, ready, others, ?_⟩
  rw [more]
  exact List.mem_append_right _ answers

/-- An acknowledgement arrives at the end that waits for it. -/
theorem step_handshakeAck {side : End} {other : Identity} {moment : Moment} {source : AddrKey}
    {index draw sequence : Nat} {bytes id : Bytes} {peer : Peer}
    (paired : Paired (identity side) other (some bytes))
    (own : (exchange.transport side).identity = identity side)
    (stored : (exchange.transport side).peers[id]? = some peer)
    (mapped : (exchange.transport side).peerByAddr source = some id)
    (addressed : peer.addrSet = true) (waiting : peer.state = .handshake)
    (sent : (exchange.sent side.other)[index]? = some (PacketCodec.encode
      (controlHeader other moment .handshakeAck (announcedKey other ++ capabilities other) sequence)
      (announcedKey other ++ capabilities other)))
    : ∃ (after : Exchange) (outputs : List Effect) (peer : Peer),
      exchange.step numerics (.arrive side moment source index draw) = .ok (after, outputs)
      ∧ (after.transport side).peers[id]? = some peer ∧ IsUp peer
      ∧ after.transport side.other = exchange.transport side.other := by
  have fits : (announcedKey other ++ capabilities other).length ≤ 2000 := by
    rw [List.length_append, length_announcedKey paired.publicKey, if_pos paired.otherEnabled]
    exact (by decide : 32 + 1 ≤ 2000)
  have found : (exchange.transport side).findOrCreatePeerByAddr moment source draw
      = (exchange.transport side, id) := by
    have known : (exchange.transport side).known source = some id := by
      rw [Transport.known, mapped, Option.filter_some, if_pos]
      exact Std.TreeMap.contains_eq_isSome_getElem?.trans (by rw [stored]; rfl)
    rw [Transport.findOrCreatePeerByAddr, known]
  obtain ⟨header, shown⟩ : ∃ header,
      header = controlHeader other moment .handshakeAck (announcedKey other ++ capabilities other)
        sequence := ⟨_, rfl⟩
  rw [← shown] at sent
  obtain ⟨next, handled, up⟩ :=
    @handlePacket_isUp numerics (identity side) other moment
      {
        header with
        checksum := PacketCodec.checksumOf header (announcedKey other ++ capabilities other)
      }
      bytes { key := id, peer := peer, rttUs := _ }
      paired (by rw [shown]; rfl) (by rw [shown]; rfl) (by rw [shown]; rfl) waiting addressed
  rw [← own] at handled
  obtain ⟨after, taken, kept, others, -⟩ :=
    step_arrive sent (by rw [shown]; rfl) (by rw [shown]; rfl) (by rw [shown, controlHeader_size fits])
      (Nat.add_le_add_left fits 48) found stored handled
  exact ⟨after, _, _, taken, kept, up, others⟩

/-- Two ends whose secret is not of low order can always come to hold their key: the handshake that
the left one sends when it connects, and its acknowledgement.
-/
theorem exists_up (mates : Mates identity) {bytes : Bytes} (some_ : agreedKey identity = some bytes)
    (fits : (handshakePayload (identity .left)).length ≤ 2000)
    : ∃ (history : List (Stage Exchange ExchangeEvent Effect)) (last : Exchange) (id otherId : Bytes)
        (peer otherPeer : Peer),
      Run (step numerics) Undisturbed (initial identity) history last
      ∧ (last.transport .left).peers[id]? = some peer
      ∧ (last.transport .right).peers[otherId]? = some otherPeer
      ∧ IsUp peer ∧ otherPeer.cryptoReady = true := by
  let moment : Moment := ⟨0, 0⟩
  let addr : AddrKey := { addr := 1, port := 1 }
  have leftPaired := mates.paired .left
  have rightPaired := mates.paired .right
  rw [some_] at leftPaired rightPaired
  -- The left end connects.
  obtain ⟨left, outputs, peer, sequence, connects, same, stored, mapped, addressed, waiting, sends⟩ :=
    @step_connect numerics (identity .left) moment [] addr
  obtain ⟨first, performed, own, others, sent⟩ := @perform_ok numerics (initial identity) _ .left
    ⟨moment, .connect [] addr⟩ left connects
  have undisturbed : Undisturbed [] (initial identity) (.act .left ⟨moment, .connect [] addr⟩) := by
    intro side occurrence source bytes draw same
    obtain ⟨-, rfl⟩ := ExchangeEvent.act.inj same
    exact fun other => by cases other
  have taken : (initial identity).step numerics (.act .left ⟨moment, .connect [] addr⟩)
      = .ok (first, outputs) := performed
  have connected := Run.next .start undisturbed taken
  -- Its handshake arrives at the right end, which has no record yet.
  obtain ⟨index, found⟩ := List.mem_iff_getElem?.mp sends
  obtain ⟨second, answers, otherId, otherPeer, answer, heard, otherStored, otherReady, kept, answered⟩ :=
    @step_handshake numerics identity first .right (identity .left) moment addr index 0 sequence bytes
      rightPaired others fits (by rw [End.other, sent]; exact found)
  have paired := Run.next connected undisturbed_arrive heard
  -- The answer arrives at the left end.
  obtain ⟨place, there⟩ := List.mem_iff_getElem?.mp answered
  have unchanged : second.transport .left = left := kept.trans own
  rw [← unchanged] at same stored mapped
  obtain ⟨third, last, upPeer, acknowledged, upStored, up, rest⟩ :=
    @step_handshakeAck numerics identity second .left (identity .right) moment addr place 0 answer bytes
      [] peer leftPaired same stored mapped addressed waiting there
  have upRun := Run.next paired undisturbed_arrive acknowledged
  have otherKept : third.transport .right = second.transport .right := rest
  refine ⟨_, third, [], otherId, upPeer, otherPeer, upRun, upStored, ?_, up, otherReady⟩
  rw [otherKept]
  exact otherStored

-- A command whose size wraps

/-- A command to a record that is online is one sealed packet. -/
theorem step_sendCommand {transport : Transport} {moment : Moment} {id payload : Bytes} {peer : Peer}
    (stored : transport.peers[id]? = some peer) (online : peer.state = .online)
    (addressed : peer.addrSet = true) (short : payload.length ≤ transport.maxCommandBytes)
    : ∃ after outputs header sender,
      transport.step numerics ⟨moment, .sendCommand id payload⟩ = .ok (after, outputs)
      ∧ datagrams outputs
        = [buildWirePacket transport.identity.config.encryptionEnabled sender header payload]
      ∧ sender.cryptoReady = peer.cryptoReady ∧ sender.cryptoKey = peer.cryptoKey
      ∧ header.magic = kMagic ∧ header.version = kVersion := by
  have found : transport.findPeer id = some id := by
    rw [Transport.findPeer, if_pos]
    exact Std.TreeMap.contains_eq_isSome_getElem?.trans (by rw [stored]; rfl)
  have open_ : ¬peer.state ≠ .online := not_not.mpr online
  rw [Transport.step]
  simp only [Nat.not_lt.mpr short, if_false, found, Transport.visit, stored, Link.sendCommand, open_,
    Link.sendWire, Link.sendRaw, addressed, if_true]
  exact ⟨_, _, _, _, rfl, rfl, rfl, rfl, rfl, rfl⟩

/-- Two ends with the key pair of the zero private key, and datagrams of up to 65568 bytes. -/
def twin (side : End) : Identity where
  config := { mtu := 65568 }
  clientId := if side = .left then 1 else 2
  privateKey := List.replicate 32 0
  publicKey := [
    47, 229, 125, 163, 71, 205, 98, 67, 21, 40, 218, 172, 95, 187, 41, 7, 48, 255, 246, 132, 175, 196,
    207, 194, 237, 144, 153, 95, 88, 203, 59, 116
  ]

theorem twin_mates : Mates twin := ⟨fun _ => rfl, rfl, fun _ => rfl, rfl⟩

theorem exists_agreedKey_twin : ∃ bytes, agreedKey twin = some bytes :=
  Option.isSome_iff_exists.mp (by decide +kernel)

/-- Both ends of a pairing hold one key, and a packet of three bytes opens. -/
theorem three_bytes_open
    : ∃ (history : List (Stage Exchange ExchangeEvent Effect)) (last : Exchange) (id otherId : Bytes)
        (peer otherPeer : Peer),
      Run (step default) Undisturbed (initial twin) history last
      ∧ (last.transport .left).peers[id]? = some peer
      ∧ (last.transport .right).peers[otherId]? = some otherPeer
      ∧ peer.cryptoKey = otherPeer.cryptoKey
      ∧ OpensAs otherPeer
          (buildWirePacket true peer
            { magic := kMagic, version := kVersion, type := PacketType.command.code, payloadSize := 3 }
            [1, 2, 3])
          [1, 2, 3] := by
  obtain ⟨bytes, some_⟩ := exists_agreedKey_twin
  obtain ⟨history, last, id, otherId, peer, otherPeer, run, stored, otherStored, ⟨ready, -⟩, otherReady⟩ :=
    @exists_up default twin twin_mates bytes some_ (by decide)
  obtain ⟨same, opens⟩ := agree_and_open_iff twin_mates run stored otherStored ready otherReady
  exact ⟨history, last, id, otherId, peer, otherPeer, run, stored, otherStored, same,
    (opens _ [1, 2, 3] rfl rfl).mpr (by decide)⟩

/-- A command of 65520 bytes is sealed with a payload size of zero, and does not open. -/
theorem long_command_rejected
    : ¬ ∀ identity, Mates identity
      → ∀ history last, Run (step default) Undisturbed (initial identity) history last
      → ∀ (side : End) (id otherId : Bytes) (peer otherPeer : Peer),
        (last.transport side).peers[id]? = some peer
        → (last.transport side.other).peers[otherId]? = some otherPeer
        → peer.cryptoReady = true
        → otherPeer.cryptoReady = true
        → peer.cryptoKey = otherPeer.cryptoKey
          ∧ ∀ moment payload after outputs,
            (last.transport side).step default ⟨moment, .sendCommand id payload⟩ = .ok (after, outputs)
            → ∀ datagram ∈ datagrams outputs, OpensAs otherPeer datagram payload := by
  intro always
  obtain ⟨bytes, some_⟩ := exists_agreedKey_twin
  obtain ⟨history, last, id, otherId, peer, otherPeer, run, stored, otherStored,
    ⟨ready, addressed, online⟩, otherReady⟩ :=
    @exists_up default twin twin_mates bytes some_ (by decide)
  obtain ⟨same, opens⟩ := always twin twin_mates history last run .left id otherId peer otherPeer stored
    otherStored ready otherReady
  have identity : (last.transport .left).identity = twin .left :=
    ((agreed_of_run twin_mates run).transports .left).same
  have short : (List.replicate 65520 (0 : UInt8)).length ≤ (last.transport .left).maxCommandBytes := by
    rw [List.length_replicate, Transport.maxCommandBytes, identity]
    decide
  obtain ⟨after, outputs, header, sender, taken, sent, senderReady, senderKey, magic, version⟩ :=
    @step_sendCommand default (last.transport .left) ⟨0, 0⟩ id _ peer stored online addressed short
  have opened := opens ⟨0, 0⟩ _ after outputs taken _ (by rw [sent]; exact List.mem_singleton_self _)
  rw [identity] at opened
  have fits := (opensAs_buildWirePacket_iff (senderReady.trans ready) otherReady (senderKey.trans same)
    magic version).mp opened
  rw [List.length_replicate] at fits
  exact absurd fits (by decide)

end Exchange

end Creek.Tight
