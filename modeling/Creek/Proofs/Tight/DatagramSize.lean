import Creek.Proofs.Tight.HandlerFrames
import Creek.Proofs.Tight.PacketCodec

/-! The size of the datagrams that carry user data. The fragments and the limit of a command leave room
for the header within the MTU, but none for the tag of a sealed packet.
-/

namespace Creek.Tight

open Library PacketCodec

-- The size of one datagram

/-- Data, Parity and Command packets. -/
def carriesUserData (type : UInt8) : Bool :=
  type == PacketType.data.code || type == PacketType.parity.code || type == PacketType.command.code

/-- A datagram with user data is no longer than the MTU. -/
def Effect.Fits (mtu : Nat) : Effect → Prop
  | .send _ _ datagram _ =>
      carriesUserData (datagram.getD 5 0) = true → datagram.length ≤ mtu
  | _ => True

theorem getD_finalizeCrc (header : PacketHeader) (body : Bytes)
    : (finalizeCrc (encodeHeaderTo header ++ body)).getD 5 0 = header.type := by
  rw [finalizeCrc_encodeHeaderTo, headFields, put32, store32]
  rfl

theorem getD_encode (header : PacketHeader) (payload : Bytes)
    : (PacketCodec.encode header payload).getD 5 0 = header.type :=
  getD_finalizeCrc header payload

theorem length_finalizeCrc (header : PacketHeader) (body : Bytes)
    : (finalizeCrc (encodeHeaderTo header ++ body)).length = kHeaderSize + body.length := by
  rw [finalizeCrc_encodeHeaderTo]
  simp only [List.length_append, length_headFields, length_put32, kHeaderSize]

/-- Whether packets to a peer are sealed. -/
def sealsTo (identity : Identity) (peer : Peer) : Bool :=
  identity.config.encryptionEnabled && peer.cryptoReady

theorem getD_buildWirePacket (encryptionEnabled : Bool) (peer : Peer) (header : PacketHeader)
    (payload : Bytes)
    : (buildWirePacket encryptionEnabled peer header payload).getD 5 0 = header.type := by
  rw [buildWirePacket, getD_finalizeCrc, wireHeader]
  split <;> rfl

/-- The buffer of a packet: its payload size is cut to 16 bits. -/
theorem length_buildWirePacket (identity : Identity) (peer : Peer) (header : PacketHeader)
    (payload : Bytes)
    : (buildWirePacket identity.config.encryptionEnabled peer header payload).length
      = kHeaderSize
        + if sealsTo identity peer then (payload.length + kGcmTagSize) % 65536
          else header.payloadSize.toNat := by
  have filled (size : Nat) (body : Bytes) : (fillPayload size body).length = size := by
    rw [fillPayload, List.length_take, List.length_append, List.length_replicate]
    omega
  rw [buildWirePacket, length_finalizeCrc, filled, wireHeader, sealsTo]
  split
  · rw [UInt16.toNat_ofNat']
  · rfl

/-- A sealed packet with a payload of this size exceeds the MTU. -/
def NoRoom (mtu size : Nat) : Prop := mtu < kHeaderSize + (size + kGcmTagSize) % 65536

/-- The payload of a packet leaves room for the header, and its header does not claim more. -/
structure Sized (mtu : Nat) (header : PacketHeader) (payload : Bytes) : Prop where
  room : kHeaderSize + payload.length ≤ mtu
  claim : header.payloadSize.toNat ≤ payload.length

/-- A sized packet with user data fits unless it is sealed and has no room for the tag. -/
theorem Sized.fits_length_iff {mtu : Nat} {header : PacketHeader} {payload : Bytes}
    (sized : Sized mtu header payload) (user : carriesUserData header.type = true)
    (identity : Identity) (peer : Peer) (key : Bytes) (addr : AddrKey) (sealed : Option Seal)
    : (Effect.send key addr (buildWirePacket identity.config.encryptionEnabled peer header payload)
        sealed).Fits mtu
      ↔ ¬(sealsTo identity peer = true ∧ NoRoom mtu payload.length) := by
  have room := sized.room
  have claim := sized.claim
  rw [Effect.Fits, getD_buildWirePacket, length_buildWirePacket, NoRoom]
  by_cases sealing : sealsTo identity peer = true
  · rw [if_pos sealing]
    exact ⟨fun fits all => absurd (fits user) (Nat.not_le.mpr all.2),
      fun none_ _ => Nat.le_of_not_lt fun long => none_ ⟨sealing, long⟩⟩
  · rw [if_neg sealing]
    exact iff_of_true (fun _ => by omega) fun all => sealing all.1

-- Links whose packets are sized

namespace Link

/-- The packets with user data that are kept for a resend are sized. -/
def KeepsSized (mtu : Nat) (peer : Peer) : Prop :=
  ∀ (seq : Nat) (entry : PendingSend), peer.pending[seq]? = some entry
    → carriesUserData entry.header.type = true
    → Sized mtu entry.header entry.payload

/-- The packets that have been sent so far fit. -/
def Within (mtu : Nat) (link : Link) : Prop := ∀ effect ∈ link.effects, effect.Fits mtu

/-- A link whose kept packets are sized and whose sent packets fit. -/
structure Orderly (mtu : Nat) (link : Link) : Prop where
  pending : KeepsSized mtu link.peer
  effects : link.Within mtu

variable {numerics : Numerics} {identity : Identity} {moment : Moment} {header : PacketHeader}
  {payload : Bytes} {link : Link} {mtu : Nat}

/-- A record may drop pending packets and count their resends. -/
theorem KeepsSized.derived {before after : Peer} (sized : KeepsSized mtu before)
    (origin : ∀ (seq : Nat) (entry : PendingSend), after.pending[seq]? = some entry
      → ∃ old, before.pending[seq]? = some old ∧ entry.header = old.header
        ∧ entry.payload = old.payload)
    : KeepsSized mtu after := by
  intro seq entry stored user
  obtain ⟨old, storedBefore, header, payload⟩ := origin seq entry stored
  rw [header] at user ⊢
  rw [payload]
  exact sized seq old storedBefore user

theorem KeepsSized.fewer {before after : Peer} (sized : KeepsSized mtu before)
    (fewer : ∀ (seq : Nat) (entry : PendingSend), after.pending[seq]? = some entry
      → before.pending[seq]? = some entry)
    : KeepsSized mtu after :=
  sized.derived fun seq entry stored => ⟨entry, fewer seq entry stored, rfl, rfl⟩

theorem Orderly.update (orderly : link.Orderly mtu) {peer : Peer}
    (same : peer.pending = link.peer.pending)
    : Orderly mtu { link with peer := peer } :=
  ⟨orderly.pending.fewer fun _ _ stored => by rwa [same] at stored, orderly.effects⟩

theorem Orderly.fire (orderly : link.Orderly mtu) {effect : Effect} (fits : effect.Fits mtu)
    : (link.fire effect).Orderly mtu := by
  refine ⟨orderly.pending, fun other member => ?_⟩
  rcases List.mem_append.mp member with earlier | last
  · exact orderly.effects other earlier
  · rwa [List.mem_singleton.mp last]

theorem Orderly.onAck (orderly : link.Orderly mtu) (rtt : Int) : (link.onAck rtt).Orderly mtu := by
  unfold Link.onAck
  split
  · exact orderly
  · exact ⟨orderly.pending, orderly.effects⟩

theorem Orderly.syncClock (orderly : link.Orderly mtu) (tick : UInt32) (arrivalMs : Nat)
    : (link.syncClock tick arrivalMs).Orderly mtu := by
  unfold Link.syncClock
  split
  · exact orderly
  · split <;> exact orderly.update rfl

theorem Orderly.trySyncClock (orderly : link.Orderly mtu) : link.trySyncClock.Orderly mtu := by
  unfold Link.trySyncClock
  split
  · exact orderly.syncClock _ _
  · exact orderly

theorem Orderly.feedRttFromTick (orderly : link.Orderly mtu) (tick : UInt32)
    : (link.feedRttFromTick tick moment).Orderly mtu := by
  simp only [Link.feedRttFromTick]
  split
  · exact orderly
  · exact orderly.onAck _

theorem Within.sendRaw (within : link.Within mtu) {datagram : Bytes}
    (control : carriesUserData (datagram.getD 5 0) = false)
    : (link.sendRaw datagram none).Within mtu := by
  unfold Link.sendRaw
  split
  · rw [Within, Link.fire, List.forall_mem_append, List.forall_mem_singleton]
    refine ⟨within, fun user => ?_⟩
    cases control.symm.trans user
  · exact within

theorem Orderly.sendRaw (orderly : link.Orderly mtu) {datagram : Bytes}
    (control : carriesUserData (datagram.getD 5 0) = false)
    : (link.sendRaw datagram none).Orderly mtu :=
  ⟨by rw [sendRaw_peer]; exact orderly.pending, orderly.effects.sendRaw control⟩

theorem KeepsSized.keepPending (kept : KeepsSized mtu link.peer)
    (sized : carriesUserData header.type = true → Sized mtu header payload) (now : TimePoint)
    (bytes : Nat)
    : KeepsSized mtu (link.keepPending header payload now bytes).peer := by
  intro seq entry stored
  simp only [Link.keepPending, Std.TreeMap.getElem?_insert] at stored
  split at stored
  · obtain rfl := Option.some.inj stored
    exact sized
  · exact kept seq entry stored

theorem Orderly.sendControl (orderly : link.Orderly mtu) {type : PacketType}
    (control : carriesUserData type.code = false) (payload : Bytes) (ackable : Bool)
    : (link.sendControl identity moment type payload ackable).Orderly mtu := by
  constructor
  · rw [sendControl_peer]
    split
    · have kept : KeepsSized mtu (keepPending
          (controlHeader identity moment type payload link.peer.sequenceOut) payload moment.now
          (PacketCodec.encode (controlHeader identity moment type payload link.peer.sequenceOut)
            payload).length link).peer :=
        orderly.pending.keepPending (fun user => by cases control.symm.trans user) _ _
      exact kept.fewer fun _ _ stored => stored
    · exact orderly.pending
  · have plain (header : PacketHeader) (same : header.type = type.code)
        : carriesUserData ((PacketCodec.encode header payload).getD 5 0) = false := by
      rw [getD_encode, same]
      exact control
    unfold Link.sendControl
    split
    · refine Within.sendRaw ?_ (plain _ ?_)
      · exact orderly.effects
      · rfl
    · refine Within.sendRaw orderly.effects (plain _ ?_)
      rfl

theorem Orderly.sendHandshake (orderly : link.Orderly mtu)
    : (link.sendHandshake identity moment).Orderly mtu := by
  refine Orderly.sendControl (Orderly.update orderly ?_) ?_ _ _ <;> rfl

theorem Orderly.sendAckPacket (orderly : link.Orderly mtu) (ack : UInt32)
    : (link.sendAckPacket identity moment ack).Orderly mtu := by
  refine orderly.sendRaw ?_
  rw [getD_encode]
  rfl

theorem probeDatagrams_probe {fragment remaining fuel : Nat}
    : ∀ datagram ∈ probeDatagrams identity moment fragment remaining fuel,
      datagram.getD 5 0 = PacketType.probe.code := by
  intro datagram member
  obtain ⟨n, same⟩ := mem_probeDatagrams member
  rw [same, getD_encode]
  rfl

theorem probeDatagrams_control {fragment remaining fuel : Nat}
    : ∀ datagram ∈ probeDatagrams identity moment fragment remaining fuel,
      carriesUserData (datagram.getD 5 0) = false := by
  intro datagram member
  rw [probeDatagrams_probe datagram member]
  rfl

theorem Orderly.foldl_sendRaw (orderly : link.Orderly mtu) {datagrams : List Bytes}
    (control : ∀ datagram ∈ datagrams, carriesUserData (datagram.getD 5 0) = false)
    : (datagrams.foldl (fun link datagram => link.sendRaw datagram none) link).Orderly mtu := by
  induction datagrams generalizing link with
  | nil => exact orderly
  | cons datagram rest ih =>
      exact ih (orderly.sendRaw (control datagram List.mem_cons_self)) fun other member =>
        control other (List.mem_cons_of_mem _ member)

theorem Orderly.goOnline (orderly : link.Orderly mtu)
    : (link.goOnline identity moment).Orderly mtu := by
  have raised : (link.setState .online).Orderly mtu := orderly.update rfl
  have online : ((link.setState .online).firePeerEvent .online).Orderly mtu := raised.fire trivial
  rw [Link.goOnline, Link.sendSpeedTest]
  split
  · exact online.foldl_sendRaw probeDatagrams_control
  · exact online

-- Handlers

theorem Orderly.adoptRetransmit (orderly : link.Orderly mtu) (announced : Option Bool)
    : (link.adoptRetransmit announced).Orderly mtu := by
  cases announced with
  | none => exact orderly
  | some flag => exact orderly.update rfl

theorem Orderly.adoptKey (orderly : link.Orderly mtu) (pub : Option Bytes) (clientId : UInt32)
    : (link.adoptKey identity pub clientId).Orderly mtu := by
  cases pub with
  | none => exact orderly
  | some pub =>
      rw [adoptKey_some]
      cases derivedKey identity pub clientId with
      | none => exact orderly
      | some key => exact orderly.update rfl

theorem Orderly.establish (orderly : link.Orderly mtu) : link.establish.Orderly mtu := by
  have raised : (link.setState .established).Orderly mtu := orderly.update rfl
  unfold Link.establish
  split
  · exact raised.fire trivial
  · exact orderly

theorem Orderly.acceptHandshake (orderly : link.Orderly mtu) (contents : HandshakeContents)
    : (link.acceptHandshake identity moment header contents).Orderly mtu := by
  have reset : ((link.syncClock header.tick moment.unixMs).resetCommands).Orderly mtu :=
    (orderly.syncClock header.tick moment.unixMs).update rfl
  have named : (((link.syncClock header.tick moment.unixMs).resetCommands).adoptIdentity
      contents).Orderly mtu :=
    reset.update rfl
  rw [Link.acceptHandshake]
  refine Orderly.sendControl (Orderly.establish ?_) rfl _ _
  split
  · exact (named.adoptKey _ _).sendHandshake
  · exact named.adoptKey _ _

theorem Orderly.handleHandshake (orderly : link.Orderly mtu)
    : (link.handleHandshake identity moment header payload).Orderly mtu := by
  unfold Link.handleHandshake
  split
  · exact orderly
  · dsimp only
    split
    · exact (orderly.adoptRetransmit _).acceptHandshake _
    · exact orderly.adoptRetransmit _

theorem Orderly.handleHandshakeAck (orderly : link.Orderly mtu)
    : (link.handleHandshakeAck identity moment header payload).Orderly mtu := by
  have reset : ((link.syncClock header.tick moment.unixMs).resetCommands).Orderly mtu :=
    (orderly.syncClock header.tick moment.unixMs).update rfl
  have finish : ∀ next : Link, next.Orderly mtu
      → Orderly mtu
          (if next.peer.state = .handshake ∨ next.peer.state = .established then
            let link := next.sendControl identity moment .online [] true
            let link := { link with peer := { link.peer with handshakeBackoff := 500000000 } }
            link.goOnline identity moment
          else next) := by
    intro next orderly
    have answered : (next.sendControl identity moment .online [] true).Orderly mtu :=
      orderly.sendControl rfl _ _
    split
    · refine Orderly.goOnline (Orderly.update answered ?_)
      rfl
    · exact orderly
  unfold Link.handleHandshakeAck
  refine finish _ ?_
  split
  · exact reset
  · exact (reset.adoptRetransmit _).adoptKey _ _

theorem Orderly.handleOnline (orderly : link.Orderly mtu)
    : (link.handleOnline identity moment).Orderly mtu := by
  unfold Link.handleOnline
  split
  · exact orderly.goOnline
  · exact orderly

theorem Orderly.handleHeartbeat (orderly : link.Orderly mtu)
    : (link.handleHeartbeat moment header payload).Orderly mtu := by
  unfold Link.handleHeartbeat
  refine Orderly.feedRttFromTick (Orderly.syncClock ?_ _ _) _
  split
  · exact orderly.update rfl
  · exact orderly

theorem Orderly.handleBye (orderly : link.Orderly mtu) : link.handleBye.Orderly mtu := by
  have closed : (link.setState .closed).Orderly mtu := orderly.update rfl
  unfold Link.handleBye
  split
  · exact closed.fire trivial
  · exact orderly

theorem Orderly.handleData (orderly : link.Orderly mtu) {after : Link}
    (handled : link.handleData numerics identity moment header payload = .ok after)
    : after.Orderly mtu := by
  rw [Link.handleData] at handled
  obtain ⟨⟨peer, delivered⟩, ran, handled⟩ := ok_of_bind handled
  obtain ⟨late, collection, same⟩ := reassemblerHandleData_peer ran
  have next : Orderly mtu { link with peer := peer } := orderly.update (by rw [same])
  cases delivered with
  | none =>
      cases handled
      exact next
  | some message =>
      cases handled
      exact next.fire trivial

theorem Orderly.foldl_fireCommand (orderly : link.Orderly mtu) (ready : List Bytes)
    : (ready.foldl fireCommand link).Orderly mtu := by
  induction ready generalizing link with
  | nil => exact orderly
  | cons payload rest ih => exact ih (orderly.fire trivial)

theorem Orderly.handleCommand (orderly : link.Orderly mtu)
    : (link.handleCommand moment header payload).Orderly mtu := by
  simp only [Link.handleCommand]
  refine Orderly.foldl_fireCommand (Orderly.update orderly ?_) _
  rfl

theorem Orderly.handleProbe (orderly : link.Orderly mtu)
    : (link.handleProbe numerics moment header).Orderly mtu :=
  orderly.update rfl

theorem Orderly.handleAck (orderly : link.Orderly mtu)
    : (link.handleAck moment header).Orderly mtu := by
  simp only [Link.handleAck]
  split
  · exact orderly
  · split
    · exact orderly
    · have erased : Orderly mtu
          {
            link with
            peer := {
              link.peer with
              pending := link.peer.pending.erase header.acknowledgment.toNat
            }
          } := by
        refine ⟨orderly.pending.fewer fun seq entry stored => ?_, orderly.effects⟩
        rw [Std.TreeMap.getElem?_erase] at stored
        split at stored
        · cases stored
        · exact stored
      exact (erased.onAck _).trySyncClock

-- Packets with user data

/-- Sending a payload to a peer makes a datagram beyond the MTU. -/
def Overruns (mtu : Nat) (identity : Identity) (peer : Peer) (payload : Bytes) : Prop :=
  peer.addrSet = true ∧ sealsTo identity peer = true ∧ NoRoom mtu payload.length

theorem sendWire_within (sized : carriesUserData header.type = true → Sized mtu header payload)
    : (link.sendWire identity header payload).Within mtu
      ↔ link.Within mtu
        ∧ (carriesUserData header.type = true → ¬Overruns mtu identity link.peer payload) := by
  rw [Link.sendWire, Link.sendRaw]
  by_cases addressed : link.peer.addrSet = true
  · rw [if_pos addressed, Within, Link.fire, List.forall_mem_append, List.forall_mem_singleton]
    refine and_congr_right fun _ => ?_
    by_cases user : carriesUserData header.type = true
    · rw [(sized user).fits_length_iff user]
      exact ⟨fun fits _ all => fits all.2, fun none_ all => none_ user ⟨addressed, all⟩⟩
    · refine iff_of_true (fun carries => ?_) fun carries => absurd carries user
      rw [getD_buildWirePacket] at carries
      exact absurd carries user
  · rw [if_neg addressed]
    exact ⟨fun within => ⟨within, fun _ all => addressed all.1⟩, And.left⟩

theorem foldl_sendWire_within {entries : List PendingSend}
    (sized : ∀ entry ∈ entries, carriesUserData entry.header.type = true
      → Sized mtu entry.header entry.payload)
    : (entries.foldl (fun link entry => link.sendWire identity entry.header entry.payload)
          link).Within mtu
      ↔ link.Within mtu
        ∧ ∀ entry ∈ entries, carriesUserData entry.header.type = true
          → ¬Overruns mtu identity link.peer entry.payload := by
  induction entries generalizing link with
  | nil => exact ⟨fun within => ⟨within, fun entry member => absurd member List.not_mem_nil⟩, And.left⟩
  | cons first rest ih =>
      rw [List.foldl_cons, ih fun entry member => sized entry (List.mem_cons_of_mem _ member),
        sendWire_within (sized first List.mem_cons_self), sendWire_peer, and_assoc,
        List.forall_mem_cons]

/-- Overrunning depends on the address and the key of a peer only. -/
theorem overruns_congr {left right : Peer} (addrSet : left.addrSet = right.addrSet)
    (cryptoReady : left.cryptoReady = right.cryptoReady)
    : Overruns mtu identity left payload ↔ Overruns mtu identity right payload := by
  rw [Overruns, Overruns, sealsTo, sealsTo, addrSet, cryptoReady]

theorem sendWire_orderly (kept : KeepsSized mtu link.peer) (within : link.Within mtu)
    (user : carriesUserData header.type = true) (sized : Sized mtu header payload)
    {peer : Peer} (addrSet : link.peer.addrSet = peer.addrSet)
    (cryptoReady : link.peer.cryptoReady = peer.cryptoReady)
    : KeepsSized mtu (link.sendWire identity header payload).peer
      ∧ ((link.sendWire identity header payload).Within mtu
        ↔ ¬Overruns mtu identity peer payload) := by
  rw [sendWire_peer, sendWire_within fun _ => sized, overruns_congr addrSet cryptoReady]
  exact ⟨kept, fun all => all.2 user, fun none_ => ⟨within, fun _ => none_⟩⟩

theorem sendDataPacket_orderly {call : FragmentCall} (room : kHeaderSize + call.width ≤ mtu)
    (orderly : link.Orderly mtu)
    : KeepsSized mtu (link.sendDataPacket identity moment call).peer
      ∧ ((link.sendDataPacket identity moment call).Within mtu
        ↔ ¬Overruns mtu identity link.peer call.payload) := by
  have length : call.payload.length = call.width := by
    rw [FragmentCall.payload, List.length_append, List.length_take, List.length_replicate]
    omega
  have user : carriesUserData call.header.type = true := by
    rw [FragmentCall.header]
    dsimp only
    split <;> rfl
  have claim : call.header.payloadSize.toNat ≤ call.payload.length := by
    rw [FragmentCall.header]
    exact Nat.mod_le _ _
  have sized (header : PacketHeader) (same : header.payloadSize = call.header.payloadSize)
      : Sized mtu header call.payload := ⟨by omega, by rwa [same]⟩
  simp only [Link.sendDataPacket]
  split
  · split
    · refine sendWire_orderly ?_ ?_ ?_ ?_ ?_ ?_
      · refine KeepsSized.keepPending ?_ ?_ _ _
        · exact orderly.pending
        · exact fun _ => sized _ rfl
      · exact orderly.effects
      · exact user
      · exact sized _ rfl
      all_goals rfl
    · refine sendWire_orderly ?_ ?_ ?_ ?_ ?_ ?_
      · exact orderly.pending
      · exact orderly.effects
      · exact user
      · exact sized _ rfl
      all_goals rfl
  · refine sendWire_orderly ?_ ?_ ?_ ?_ ?_ ?_
    · exact orderly.pending
    · exact orderly.effects
    · exact user
    · exact sized _ rfl
    all_goals rfl

theorem sendCommand_orderly (room : kHeaderSize + payload.length ≤ mtu) (orderly : link.Orderly mtu)
    : KeepsSized mtu (link.sendCommand identity moment payload).peer
      ∧ ((link.sendCommand identity moment payload).Within mtu
        ↔ (link.peer.state = .online → ¬Overruns mtu identity link.peer payload)) := by
  unfold Link.sendCommand
  split
  · rename_i offline
    exact ⟨orderly.pending, iff_of_true orderly.effects fun online => absurd online offline⟩
  · rename_i online
    have online := Decidable.not_not.mp online
    have sized (header : PacketHeader) (same : header.payloadSize = UInt16.ofNat payload.length)
        : Sized mtu header payload :=
      ⟨room, by rw [same]; exact Nat.mod_le _ _⟩
    rw [imp_iff_right online]
    refine sendWire_orderly ?_ ?_ ?_ ?_ ?_ ?_
    · exact orderly.pending
    · exact orderly.effects
    · rfl
    · exact sized _ rfl
    all_goals rfl

-- Resends

theorem countResend_origin {now : TimePoint} {pending : Std.TreeMap Nat PendingSend} {seq other : Nat}
    {entry : PendingSend} (stored : (Report.countResend now pending seq)[other]? = some entry)
    : ∃ old, pending[other]? = some old ∧ entry.header = old.header
      ∧ entry.payload = old.payload := by
  unfold Report.countResend at stored
  split at stored
  · rename_i old found
    split at stored
    · rw [Std.TreeMap.getElem?_insert] at stored
      split at stored
      · rename_i same
        obtain rfl := Nat.compare_eq_eq.mp same
        obtain rfl := Option.some.inj stored
        exact ⟨old, found, rfl, rfl⟩
      · exact ⟨entry, stored, rfl, rfl⟩
    · exact ⟨entry, stored, rfl, rfl⟩
  · exact ⟨entry, stored, rfl, rfl⟩

theorem foldl_countResend_origin {now : TimePoint} {resends : List (Nat × PendingSend)}
    {pending : Std.TreeMap Nat PendingSend} {other : Nat} {entry : PendingSend}
    (stored : (resends.foldl (fun pending entry => Report.countResend now pending entry.1)
      pending)[other]? = some entry)
    : ∃ old, pending[other]? = some old ∧ entry.header = old.header
      ∧ entry.payload = old.payload := by
  induction resends generalizing pending with
  | nil => exact ⟨entry, stored, rfl, rfl⟩
  | cons first rest ih =>
      obtain ⟨middle, storedMiddle, header, payload⟩ := ih stored
      obtain ⟨old, storedBefore, headerBefore, payloadBefore⟩ := countResend_origin storedMiddle
      exact ⟨old, storedBefore, header.trans headerBefore, payload.trans payloadBefore⟩

/-- A report prunes kept packets and has sized ones sent again. -/
theorem reportHandle_sized {peer : Peer} (kept : KeepsSized mtu peer) (payload : Bytes)
    (now : TimePoint)
    : KeepsSized mtu (Report.handle peer payload now).1
      ∧ ∀ entry ∈ (Report.handle peer payload now).2, carriesUserData entry.header.type = true
        → Sized mtu entry.header entry.payload := by
  unfold Report.handle
  split
  · exact ⟨kept, fun entry member => absurd member List.not_mem_nil⟩
  · rename_i report parsed
    refine ⟨kept.derived fun seq entry stored => ?_, fun entry member => ?_⟩
    · obtain ⟨old, storedBefore, header, payload⟩ := foldl_countResend_origin stored
      rw [Std.TreeMap.getElem?_filter', Option.filter_eq_some_iff] at storedBefore
      exact ⟨old, storedBefore.1, header, payload⟩
    · obtain ⟨⟨seq, old⟩, resent, rfl⟩ := List.mem_map.mp member
      have stored := (List.mem_filter.mp resent).1
      exact kept seq old (Std.TreeMap.mem_toList_iff_getElem?_eq_some.mp stored)

/-- A report has packets sent again; they fit unless one of them overruns. -/
theorem handleReport_orderly (orderly : link.Orderly mtu)
    : KeepsSized mtu (link.handleReport identity moment header payload).peer
      ∧ ((link.handleReport identity moment header payload).Within mtu
        ↔ ∀ entry ∈ (Report.handle link.peer payload moment.now).2,
            carriesUserData entry.header.type = true
            → ¬Overruns mtu identity link.peer entry.payload) := by
  obtain ⟨kept, sized⟩ := reportHandle_sized orderly.pending payload moment.now
  rw [handleReport_peer]
  refine ⟨kept, ?_⟩
  obtain ⟨ratio, pending, same⟩ := @reportHandle_peer payload link.peer moment.now
  have overruns (bytes : Bytes)
      : Overruns mtu identity (Report.handle link.peer payload moment.now).1 bytes
        ↔ Overruns mtu identity link.peer bytes :=
    overruns_congr (by rw [same]) (by rw [same])
  have sampled : (link.feedRttFromTick header.tick moment).Within mtu :=
    (orderly.feedRttFromTick header.tick).effects
  simp only [Link.handleReport, feedRttFromTick_peer]
  rw [foldl_sendWire_within sized]
  simp only [overruns]
  exact ⟨And.right, fun all => ⟨sampled, all⟩⟩

/-- The payloads with user data that a received packet makes the link send again. -/
def resentData (moment : Moment) (header : PacketHeader) (payload : Bytes) (link : Link)
    : List Bytes :=
  let link := link.touch moment header
  match openPayload link.peer header payload with
  | none => []
  | some (header, payload) =>
      if PacketType.ofCode? header.type = some .report then
        ((Report.handle link.peer payload moment.now).2.filter fun entry =>
          carriesUserData entry.header.type).map PendingSend.payload
      else
        []

/-- What a received packet makes the link send fits unless a resend overruns. -/
theorem handlePacket_orderly (orderly : link.Orderly mtu) {after : Link}
    (handled : link.handlePacket numerics identity moment header payload = .ok after)
    : KeepsSized mtu after.peer
      ∧ (after.Within mtu
        ↔ ∀ bytes ∈ link.resentData moment header payload,
            ¬Overruns mtu identity link.peer bytes) := by
  have touched : (link.touch moment header).Orderly mtu := orderly.update rfl
  have finish : ∀ {next : Link}, next.Orderly mtu → after = next
      → KeepsSized mtu after.peer
        ∧ (after.Within mtu
          ↔ ∀ bytes ∈ ([] : List Bytes), ¬Overruns mtu identity link.peer bytes) := by
    rintro next nextOrderly rfl
    exact ⟨nextOrderly.pending, iff_of_true nextOrderly.effects fun bytes member =>
      absurd member List.not_mem_nil⟩
  rw [handlePacket] at handled
  rw [resentData]
  rcases opened : openPayload (link.touch moment header).peer header payload with
    - | ⟨openHeader, openBytes⟩
  · rw [opened] at handled
    exact finish touched (Except.ok.inj handled).symm
  · rw [opened] at handled
    simp only [dispatch] at handled ⊢
    rcases kind : PacketType.ofCode? openHeader.type with - | type
    · rw [kind] at handled
      exact finish touched (Except.ok.inj handled).symm
    rw [kind] at handled
    cases type with
    | handshake => exact finish (touched.handleHandshake.sendAckPacket _) (Except.ok.inj handled).symm
    | handshakeAck =>
        exact finish (touched.handleHandshakeAck.sendAckPacket _) (Except.ok.inj handled).symm
    | online => exact finish (touched.handleOnline.sendAckPacket _) (Except.ok.inj handled).symm
    | heartbeat => exact finish touched.handleHeartbeat (Except.ok.inj handled).symm
    | bye => exact finish touched.handleBye (Except.ok.inj handled).symm
    | data => exact finish (touched.handleData handled) rfl
    | parity => exact finish (touched.handleData handled) rfl
    | ack => exact finish touched.handleAck (Except.ok.inj handled).symm
    | report =>
        obtain rfl := Except.ok.inj handled
        obtain ⟨kept, within⟩ := @handleReport_orderly identity moment openHeader openBytes
          (link.touch moment header) mtu touched
        refine ⟨kept, within.trans ?_⟩
        rw [if_pos rfl, List.forall_mem_map]
        simp only [List.mem_filter, and_imp]
        rfl
    | probe => exact finish touched.handleProbe (Except.ok.inj handled).symm
    | command => exact finish touched.handleCommand (Except.ok.inj handled).symm

end Link

end Creek.Tight
