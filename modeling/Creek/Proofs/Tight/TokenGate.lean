import Creek.Proofs.Tight.Authentication
import Creek.Proofs.Tight.CommandOrder
import Creek.Proofs.Tight.Handshake

/-! What a stranger can do. A source that connect() was never given, and that never shows the token, is to
stay a stranger: its record waits in the handshake or is closed, and nothing of it reaches the callbacks. Only
the handshake checks the token, so this holds as long as no other packet of the source raises the link or
hands something over.
-/

namespace Creek.Tight

open Library

/-- The record an effect belongs to. -/
def Effect.owner : Effect → Bytes
  | .send peer _ _ _ => peer
  | .message peer _ _ => peer
  | .command peer _ _ => peer
  | .peerEvent peer _ => peer

/-- Whether an effect hands something over, or announces a link that is up. -/
def Effect.admits : Effect → Bool
  | .send _ _ _ _ => false
  | .message _ _ _ => true
  | .command _ _ _ => true
  | .peerEvent _ event => event.state = .established || event.state = .online

-- Effects belong to the record of a link

namespace Link

/-- The effects are those of one record, and admit something only where that is open. -/
def Confined (key : Bytes) (isOpen : Prop) (link : Link) : Prop :=
  link.key = key ∧ ∀ effect ∈ link.effects, effect.owner = key ∧ (effect.admits = true → isOpen)

variable {numerics : Numerics} {identity : Identity} {moment : Moment} {header : PacketHeader}
  {payload key : Bytes} {isOpen : Prop} {link after : Link}

theorem confined_start (key : Bytes) (peer : Peer) (rttUs : Nat) (isOpen : Prop)
    : Confined key isOpen { key := key, peer := peer, rttUs := rttUs } :=
  ⟨rfl, fun _ member => absurd member List.not_mem_nil⟩

theorem Confined.of_same {other : Link} (confined : link.Confined key isOpen) (same : other.key = link.key)
    (effects : other.effects = link.effects)
    : other.Confined key isOpen :=
  ⟨same.trans confined.1, effects ▸ confined.2⟩

theorem Confined.with_peer (confined : link.Confined key isOpen) (peer : Peer)
    : Confined key isOpen { link with peer := peer } :=
  confined

theorem Confined.fire {effect : Effect} (confined : link.Confined key isOpen) (owner : effect.owner = link.key)
    (admitted : effect.admits = true → isOpen)
    : (link.fire effect).Confined key isOpen := by
  refine ⟨confined.1, fun other member => ?_⟩
  rcases List.mem_append.mp member with earlier | last
  · exact confined.2 other earlier
  · rw [List.mem_singleton.mp last]
    exact ⟨owner.trans confined.1, admitted⟩

theorem Confined.sendRaw (confined : link.Confined key isOpen) (datagram : Bytes) (sealed : Option Seal)
    : (link.sendRaw datagram sealed).Confined key isOpen := by
  unfold Link.sendRaw
  split
  · exact confined.fire rfl fun admits => Bool.noConfusion admits
  · exact confined

theorem Confined.sendWire (confined : link.Confined key isOpen) (header : PacketHeader) (payload : Bytes)
    : (link.sendWire identity header payload).Confined key isOpen :=
  confined.sendRaw _ _

theorem Confined.sendControl (confined : link.Confined key isOpen) (type : PacketType) (payload : Bytes)
    (ackable : Bool)
    : (link.sendControl identity moment type payload ackable).Confined key isOpen := by
  cases ackable with
  | false => exact confined.sendRaw _ _
  | true =>
      have numbered : Confined key isOpen
          { link with peer := { link.peer with sequenceOut := u32 (link.peer.sequenceOut + 1) } } :=
        confined.of_same rfl rfl
      have sent := numbered.sendRaw (PacketCodec.encode (controlHeader identity moment type payload
        link.peer.sequenceOut) payload) none
      exact sent.of_same rfl rfl

theorem Confined.sendHandshake (confined : link.Confined key isOpen)
    : (link.sendHandshake identity moment).Confined key isOpen :=
  (confined.of_same rfl rfl : Confined key isOpen
    { link with peer := { link.peer with lastHandshakeSent := moment.now } }).sendControl _ _ _

theorem Confined.sendAckPacket (confined : link.Confined key isOpen) (ack : UInt32)
    : (link.sendAckPacket identity moment ack).Confined key isOpen :=
  confined.sendRaw _ _

theorem Confined.foldl_sendRaw (confined : link.Confined key isOpen) (datagrams : List Bytes)
    : (datagrams.foldl (fun link datagram => link.sendRaw datagram none) link).Confined key isOpen := by
  induction datagrams generalizing link with
  | nil => exact confined
  | cons datagram rest ih => exact ih (confined.sendRaw datagram none)

theorem Confined.foldl_sendWire (confined : link.Confined key isOpen) (entries : List PendingSend)
    : (entries.foldl (fun link entry => link.sendWire identity entry.header entry.payload) link).Confined key
        isOpen := by
  induction entries generalizing link with
  | nil => exact confined
  | cons entry rest ih => exact ih (confined.sendWire entry.header entry.payload)

theorem Confined.foldl_fireCommand (confined : link.Confined key isOpen) {ready : List Bytes}
    (admitted : ready ≠ [] → isOpen)
    : (ready.foldl fireCommand link).Confined key isOpen := by
  induction ready generalizing link with
  | nil => exact confined
  | cons payload rest ih =>
      have opens : isOpen := admitted (List.cons_ne_nil _ _)
      exact ih (confined.fire rfl fun _ => opens) fun _ => opens

theorem Confined.onAck (confined : link.Confined key isOpen) (rtt : Int)
    : (link.onAck rtt).Confined key isOpen := by
  unfold Link.onAck
  split
  · exact confined
  · exact confined.of_same rfl rfl

theorem Confined.syncClock (confined : link.Confined key isOpen) (tick : UInt32) (arrivalMs : Nat)
    : (link.syncClock tick arrivalMs).Confined key isOpen := by
  unfold Link.syncClock
  split
  · exact confined
  · split
    · exact confined.of_same rfl rfl
    · exact confined.of_same rfl rfl

theorem Confined.feedRttFromTick (confined : link.Confined key isOpen) (tick : UInt32)
    : (link.feedRttFromTick tick moment).Confined key isOpen := by
  simp only [Link.feedRttFromTick]
  split
  · exact confined
  · exact confined.onAck _

theorem Confined.adoptRetransmit (confined : link.Confined key isOpen) (announced : Option Bool)
    : (link.adoptRetransmit announced).Confined key isOpen := by
  cases announced with
  | none => exact confined
  | some flag => exact confined.of_same rfl rfl

theorem Confined.adoptKey (confined : link.Confined key isOpen) (pub : Option Bytes) (clientId : UInt32)
    : (link.adoptKey identity pub clientId).Confined key isOpen := by
  cases pub with
  | none => exact confined
  | some pub =>
      rw [adoptKey_some]
      cases derivedKey identity pub clientId with
      | none => exact confined
      | some derived => exact confined.of_same rfl rfl

theorem Confined.goOnline (confined : link.Confined key isOpen) (opens : isOpen)
    : (link.goOnline identity moment).Confined key isOpen := by
  have announced : ((link.setState .online).firePeerEvent .online).Confined key isOpen :=
    (confined.of_same rfl rfl : (link.setState .online).Confined key isOpen).fire rfl fun _ => opens
  rw [Link.goOnline, Link.sendSpeedTest]
  split
  · exact announced.foldl_sendRaw _
  · exact announced

theorem Confined.establish (confined : link.Confined key isOpen) (opens : isOpen)
    : link.establish.Confined key isOpen := by
  unfold Link.establish
  split
  · exact (confined.of_same rfl rfl : (link.setState .established).Confined key isOpen).fire rfl
      fun _ => opens
  · exact confined

end Link

-- Commands and fragments that are handed over

/-- The reorder wait of the held commands is over. -/
def CommandState.Overdue (channel : CommandState) (rttUs : Nat) (now : TimePoint) : Prop :=
  channel.held.isEmpty = false ∧ CommandChannel.wait rttUs ≤ now - channel.gapSince

/-- A command that is handed over on arrival, or makes held ones be handed over: the first one of a session, the
next one, or one ahead of a gap whose wait is over.
-/
def CommandState.Due (channel : CommandState) (seq rttUs : Nat) (now : TimePoint) : Prop :=
  seq ≠ 0 ∧
    (channel.initialized = false ∨ seq = channel.nextExpected ∨
      channel.nextExpected < seq ∧ channel.Overdue rttUs now)

namespace CommandChannel

theorem drainLoop_ready (fuel : Nat) (channel : CommandState) {out : List Bytes} (ready : out ≠ [])
    : (drainLoop fuel channel out).2 ≠ [] := by
  induction fuel generalizing channel out with
  | zero => exact ready
  | succ fuel ih =>
      rw [drainLoop]
      split
      · exact ready
      · exact ih _ (List.append_ne_nil_of_left_ne_nil ready _)

/-- Commands that are held wait until the wait is over, and the lowest of them goes first then. -/
theorem expireLocked_ready {channel : CommandState} {rttUs : Nat} {now : TimePoint}
    : (expireLocked channel rttUs now []).2 ≠ [] ↔ channel.Overdue rttUs now := by
  constructor
  · intro ready
    by_contra waits
    refine ready (congrArg Prod.snd (expireLocked_waits channel rttUs now [] fun held => ?_))
    exact not_le.mp fun expired => waits ⟨held, expired⟩
  · intro ⟨held, expired⟩
    have lowest : channel.held.minKeyD 0 ∈ channel.held := Std.TreeMap.minKeyD_mem held
    obtain ⟨payload, found⟩ := Option.isSome_iff_exists.mp (Std.TreeMap.mem_iff_isSome_getElem?.mp lowest)
    have one : channel.held.size ≠ 0 := by
      intro none
      rw [Std.TreeMap.isEmpty_eq_size_eq_zero, none] at held
      cases held
    have drained : (drainLocked { channel with nextExpected := channel.held.minKeyD 0 } []).2 ≠ [] := by
      obtain ⟨fuel, size⟩ := Nat.exists_eq_succ_of_ne_zero one
      rw [drainLocked, size, drainLoop]
      dsimp only
      rw [found]
      exact drainLoop_ready fuel _ (List.cons_ne_nil payload [])
    rw [expireLocked, if_neg (by rw [held]; exact Bool.false_ne_true), if_neg (not_lt.mpr expired)]
    dsimp only
    split
    · exact drained
    · exact drained

theorem handle_ready {channel : CommandState} {header : PacketHeader} {payload : Bytes} {rttUs : Nat}
    {now : TimePoint}
    : (handle channel header payload rttUs now).2 ≠ [] ↔ channel.Due header.sequence.toNat rttUs now := by
  by_cases unnumbered : header.sequence.toNat = 0
  · simp [handle, CommandState.Due, unnumbered]
  · have positive : 0 < header.sequence.toNat := Nat.pos_of_ne_zero unnumbered
    have begun : channel.initialized = true → started channel header.sequence.toNat = channel := by
      intro first
      rw [started, if_pos first]
    have fresh : channel.initialized = false →
        (started channel header.sequence.toNat).nextExpected = header.sequence.toNat := by
      intro first
      rw [started, if_neg (by rw [first]; exact Bool.false_ne_true)]
    rcases Nat.lt_trichotomy header.sequence.toNat (started channel header.sequence.toNat).nextExpected with
      late | expected | ahead
    · rw [handle_late payload rttUs now rfl positive late]
      refine iff_of_false (fun ready => ready rfl) ?_
      rintro ⟨-, due⟩
      cases first : channel.initialized with
      | false => exact absurd (fresh first) (Nat.ne_of_gt late)
      | true =>
          rw [begun first] at late
          rcases due with other | next | ⟨ahead, -⟩
          · rw [first] at other
            cases other
          · exact Nat.ne_of_lt late next
          · exact Nat.lt_asymm late ahead
    · rw [handle_expected rfl positive expected]
      refine iff_of_true (drainLoop_ready _ _ (List.cons_ne_nil payload [])) ⟨unnumbered, ?_⟩
      cases first : channel.initialized with
      | false => exact .inl rfl
      | true => exact .inr (.inl (expected.trans (congrArg _ (begun first))))
    · rw [handle_ahead payload rttUs now rfl ahead, expireLocked_ready]
      have first : channel.initialized = true := by
        by_contra none
        rw [fresh (Bool.eq_false_iff.mpr none)] at ahead
        exact Nat.lt_irrefl _ ahead
      rw [begun first] at ahead ⊢
      have filled : (holding channel header.sequence.toNat payload now).held.isEmpty = false := by
        rw [holding, Std.TreeMap.isEmpty_insertIfNew]
      constructor
      · rintro ⟨-, expired⟩
        refine ⟨unnumbered, .inr (.inr ⟨ahead, ?_⟩)⟩
        cases held : channel.held.isEmpty with
        | false =>
            refine ⟨held, ?_⟩
            rwa [holding, held, if_neg Bool.false_ne_true] at expired
        | true =>
            rw [holding, held, if_pos rfl] at expired
            dsimp only at expired
            rw [sub_self] at expired
            exact absurd (wait_pos rttUs) (not_lt.mpr expired)
      · rintro ⟨-, due⟩
        rcases due with other | next | ⟨-, held, expired⟩
        · rw [first] at other
          cases other
        · exact absurd next (Nat.ne_of_gt ahead)
        · refine ⟨filled, ?_⟩
          rwa [holding, held, if_neg Bool.false_ne_true]

end CommandChannel

/-- The group of a packet assembles with its fragment in place. -/
def Reassembler.Assembles (collection : Collection) (header : PacketHeader) (payload : Bytes)
    (now : TimePoint) (maxMessageBytes : Nat)
    : Prop :=
  let message := openGroup collection header now
  admits collection header maxMessageBytes = true ∧
    message.totalCount = header.fragmentCount.toNat ∧
    header.fragmentIndex.toNat < message.fragments.length ∧
    ∃ whole, tryAssemble (storeFragment message header payload) maxMessageBytes = .ok (some whole)

theorem Reassembler.handleData_delivers {numerics : Numerics} {peer after : Peer} {header : PacketHeader}
    {payload : Bytes} {context : Context} {delivered : Option Bytes}
    (handled : handleData numerics peer header payload context = .ok (after, delivered))
    : delivered ≠ none ↔ Assembles peer.collection header payload context.now context.maxMessageBytes := by
  simp only [handleData] at handled
  by_cases admitted : admits peer.collection header context.maxMessageBytes = true
  · rw [if_neg (not_not_intro admitted)] at handled
    obtain ⟨⟨collection, whole⟩, collected, done⟩ := ok_of_bind handled
    cases done
    simp only [collect] at collected
    by_cases same : (openGroup peer.collection header context.now).totalCount = header.fragmentCount.toNat
    · rw [if_neg (not_not_intro same)] at collected
      by_cases inside : header.fragmentIndex.toNat < (openGroup peer.collection header context.now).fragments.length
      · rw [if_neg (Nat.not_le.mpr inside)] at collected
        obtain ⟨assembled, tried, done⟩ := ok_of_bind collected
        cases assembled with
        | none =>
            cases done
            refine iff_of_false (fun some => some rfl) ?_
            rintro ⟨-, -, -, whole, again⟩
            rw [tried] at again
            cases again
        | some whole =>
            cases done
            exact iff_of_true (Option.some_ne_none whole) ⟨admitted, same, inside, whole, tried⟩
      · rw [if_pos (Nat.not_lt.mp inside)] at collected
        cases collected
        exact iff_of_false (fun some => some rfl) fun assembles => inside assembles.2.2.1
    · rw [if_pos same] at collected
      cases collected
      exact iff_of_false (fun some => some rfl) fun assembles => same assembles.2.1
  · rw [if_pos admitted] at handled
    cases handled
    exact iff_of_false (fun some => some rfl) fun assembles => admitted assembles.1

/-- The record of a stranger waits in the handshake, or is closed. -/
def Peer.Waits (peer : Peer) : Prop := peer.state = .handshake ∨ peer.state = .closed

namespace Link

variable {numerics : Numerics} {identity : Identity} {moment : Moment} {header : PacketHeader}
  {payload key : Bytes} {isOpen : Prop} {link after : Link}

/-- A packet that raises the link, or hands something over. Only the handshake is asked for the token. -/
def Bypasses (identity : Identity) (moment : Moment) (rttUs : Nat) (peer : Peer) (header : PacketHeader)
    (payload : Bytes)
    : Prop :=
  match PacketType.ofCode? header.type with
  | some .handshake => Accepts identity payload
  | some .handshakeAck => peer.state = .handshake ∨ peer.state = .established
  | some .online => True
  | some .data | some .parity =>
      Reassembler.Assembles peer.collection header payload moment.now identity.maxMessageBytes
  | some .command => peer.command.Due header.sequence.toNat (u32 rttUs) moment.now
  | _ => False

-- One packet

@[simp] theorem sendControl_state (type : PacketType) (payload : Bytes) (ackable : Bool)
    : (link.sendControl identity moment type payload ackable).peer.state = link.peer.state := by
  rw [sendControl_peer]
  split
  · rfl
  · rfl

@[simp] theorem syncClock_state (tick : UInt32) (arrivalMs : Nat)
    : (link.syncClock tick arrivalMs).peer.state = link.peer.state := by
  obtain ⟨clock, eq⟩ := syncClock_peer link tick arrivalMs
  rw [eq]

@[simp] theorem adoptRetransmit_state (announced : Option Bool)
    : (link.adoptRetransmit announced).peer.state = link.peer.state := by
  rw [adoptRetransmit_peer]

@[simp] theorem adoptKey_state (pub : Option Bytes) (clientId : UInt32)
    : (link.adoptKey identity pub clientId).peer.state = link.peer.state := by
  cases pub with
  | none => rfl
  | some pub => rw [adoptKey_some, installKey_peer]

/-- The link after the clock, the command channel, the identity and the key of an accepted handshake. -/
theorem Confined.acceptHandshake (confined : link.Confined key isOpen) (contents : HandshakeContents)
    (opens : isOpen)
    : (link.acceptHandshake identity moment header contents).Confined key isOpen := by
  have synced := confined.syncClock header.tick moment.unixMs
  have named : Confined key isOpen
      ((link.syncClock header.tick moment.unixMs).resetCommands.adoptIdentity contents) :=
    synced.of_same rfl rfl
  have adopted : Confined key isOpen
      (((link.syncClock header.tick moment.unixMs).resetCommands.adoptIdentity contents).adoptKey
        identity contents.peerPub header.clientId) :=
    named.adoptKey _ _
  rw [Link.acceptHandshake]
  split
  · exact (adopted.sendHandshake.establish opens).sendControl _ _ _
  · exact (adopted.establish opens).sendControl _ _ _

theorem acceptHandshake_state (contents : HandshakeContents)
    : (link.acceptHandshake identity moment header contents).peer.state =
      if link.peer.state ≠ .established ∧ link.peer.state ≠ .online then .established else link.peer.state := by
  have reset : ∀ link : Link, link.resetCommands.peer.state = link.peer.state := fun _ => rfl
  have adopted : ∀ link : Link, (link.adoptIdentity contents).peer.state = link.peer.state := fun _ => rfl
  have sent : ∀ link : Link, (link.sendHandshake identity moment).peer.state = link.peer.state :=
    fun _ => sendControl_state _ _ _
  rw [acceptHandshake]
  split
  · rw [sendControl_state, establish_peer]
    simp [reset, adopted, sent]
  · rw [sendControl_state, establish_peer]
    simp [reset, adopted]

theorem Confined.handleHandshake (confined : link.Confined key isOpen)
    (opens : Accepts identity payload → isOpen)
    : (link.handleHandshake identity moment header payload).Confined key isOpen := by
  unfold Link.handleHandshake
  split
  · exact confined
  · rename_i contents parsed
    have adopted := confined.adoptRetransmit contents.peerRetransmit
    dsimp only
    split
    · rename_i token
      exact adopted.acceptHandshake contents (opens ⟨contents, parsed, token⟩)
    · exact adopted

/-- A handshake raises a waiting link exactly when it shows the token. -/
theorem handleHandshake_state
    : (Accepts identity payload → (link.handleHandshake identity moment header payload).peer.state =
        if link.peer.state ≠ .established ∧ link.peer.state ≠ .online then .established
        else link.peer.state) ∧
      (¬Accepts identity payload →
        (link.handleHandshake identity moment header payload).peer.state = link.peer.state) := by
  unfold handleHandshake
  split
  · rename_i unparsed
    refine ⟨fun ⟨contents, parsed, _⟩ => ?_, fun _ => rfl⟩
    rw [unparsed] at parsed
    cases parsed
  · rename_i contents parsed
    dsimp only
    split
    · rename_i token
      refine ⟨fun _ => ?_, fun none => absurd ⟨contents, parsed, token⟩ none⟩
      rw [acceptHandshake_state, adoptRetransmit_state]
    · rename_i other
      refine ⟨fun ⟨again, parsed', token⟩ => ?_, fun _ => adoptRetransmit_state _⟩
      rw [parsed] at parsed'
      cases parsed'
      exact absurd token other

/-- What an acknowledgement adopts before it looks at the state. -/
def acknowledged (identity : Identity) (moment : Moment) (header : PacketHeader) (payload : Bytes) (link : Link)
    : Link :=
  match payload.getLast? with
  | none => (link.syncClock header.tick moment.unixMs).resetCommands
  | some flags =>
      ((link.syncClock header.tick moment.unixMs).resetCommands.adoptRetransmit
        (some (flags &&& 0x01 ≠ 0))).adoptKey identity
        (acknowledgedKey identity.config.encryptionEnabled payload) header.clientId

theorem acknowledged_state
    : (link.acknowledged identity moment header payload).peer.state = link.peer.state := by
  have reset : (link.syncClock header.tick moment.unixMs).resetCommands.peer.state = link.peer.state :=
    syncClock_state _ _
  unfold acknowledged
  split
  · exact reset
  · rw [adoptKey_state, adoptRetransmit_state, reset]

theorem Confined.acknowledged (confined : link.Confined key isOpen)
    : (link.acknowledged identity moment header payload).Confined key isOpen := by
  have reset : (link.syncClock header.tick moment.unixMs).resetCommands.Confined key isOpen :=
    (confined.syncClock header.tick moment.unixMs).of_same rfl rfl
  unfold Link.acknowledged
  split
  · exact reset
  · exact (reset.adoptRetransmit _).adoptKey _ _

theorem handleHandshakeAck_eq
    : link.handleHandshakeAck identity moment header payload =
      let link := link.acknowledged identity moment header payload
      if link.peer.state = .handshake ∨ link.peer.state = .established then
        let link := link.sendControl identity moment .online [] true
        { link with peer := { link.peer with handshakeBackoff := 500000000 } }.goOnline identity moment
      else link :=
  rfl

theorem Confined.handleHandshakeAck (confined : link.Confined key isOpen)
    (opens : link.peer.state = .handshake ∨ link.peer.state = .established → isOpen)
    : (link.handleHandshakeAck identity moment header payload).Confined key isOpen := by
  have adopted : (link.acknowledged identity moment header payload).Confined key isOpen :=
    confined.acknowledged
  rw [handleHandshakeAck_eq]
  dsimp only
  split
  · rename_i waits
    rw [acknowledged_state] at waits
    exact ((adopted.sendControl .online [] true).of_same rfl rfl : Confined key isOpen
      { (link.acknowledged identity moment header payload).sendControl identity moment .online [] true with
        peer := { ((link.acknowledged identity moment header payload).sendControl identity moment .online []
          true).peer with handshakeBackoff := 500000000 } }).goOnline (opens waits)
  · exact adopted

/-- An acknowledgement raises every link that is not closed. -/
theorem handleHandshakeAck_state
    : (link.handleHandshakeAck identity moment header payload).peer.state =
      if link.peer.state = .handshake ∨ link.peer.state = .established then .online else link.peer.state := by
  rw [handleHandshakeAck_eq]
  dsimp only
  rw [acknowledged_state]
  split
  · rw [goOnline_peer]
  · exact acknowledged_state

theorem Confined.handleHeartbeat (confined : link.Confined key isOpen)
    : (link.handleHeartbeat moment header payload).Confined key isOpen := by
  unfold Link.handleHeartbeat
  split
  · exact ((confined.of_same rfl rfl : Confined key isOpen
      { link with peer := { link.peer with senderRttUs := (get32 payload 0).toNat } }).syncClock _ _
      ).feedRttFromTick _
  · exact (confined.syncClock _ _).feedRttFromTick _

theorem Confined.announceClosed (confined : link.Confined key isOpen)
    : (link.firePeerEvent .closed).Confined key isOpen :=
  confined.fire rfl fun admits => Bool.noConfusion admits

theorem Confined.handleBye (confined : link.Confined key isOpen) : link.handleBye.Confined key isOpen := by
  unfold Link.handleBye
  split
  · exact (confined.of_same rfl rfl : (link.setState .closed).Confined key isOpen).announceClosed
  · exact confined

theorem Confined.handleAck (confined : link.Confined key isOpen)
    : (link.handleAck moment header).Confined key isOpen := by
  simp only [Link.handleAck]
  split
  · exact confined
  · split
    · exact confined
    · rename_i entry found
      have erased := (confined.of_same rfl rfl : Confined key isOpen
        { link with peer := { link.peer with
          pending := link.peer.pending.erase header.acknowledgment.toNat } }).onAck
            (max 0 (microseconds (moment.now - entry.lastSend)))
      unfold Link.trySyncClock
      split
      · exact erased.syncClock _ _
      · exact erased

theorem Confined.handleReport (confined : link.Confined key isOpen)
    : (link.handleReport identity moment header payload).Confined key isOpen := by
  simp only [Link.handleReport]
  refine Confined.foldl_sendWire ?_ _
  exact (confined.feedRttFromTick header.tick).of_same rfl rfl

theorem Confined.handleCommand (confined : link.Confined key isOpen)
    (opens : link.peer.command.Due header.sequence.toNat (u32 link.rttUs) moment.now → isOpen)
    : (link.handleCommand moment header payload).Confined key isOpen := by
  simp only [Link.handleCommand]
  refine Confined.foldl_fireCommand ?_ fun ready => opens (CommandChannel.handle_ready.mp ready)
  exact confined.of_same rfl rfl

theorem Confined.handleData (confined : link.Confined key isOpen)
    (handled : link.handleData numerics identity moment header payload = .ok after)
    (opens : Reassembler.Assembles link.peer.collection header payload moment.now identity.maxMessageBytes →
      isOpen)
    : after.Confined key isOpen := by
  obtain ⟨⟨peer, delivered⟩, ran, done⟩ := ok_of_bind handled
  cases delivered with
  | none =>
      cases done
      exact confined.of_same rfl rfl
  | some message =>
      cases done
      have assembles := (Reassembler.handleData_delivers ran).mp (Option.some_ne_none message)
      exact (confined.of_same rfl rfl : Confined key isOpen { link with peer := peer }).fire rfl
        fun _ => opens assembles

/-- A packet shows something only if it goes past the token check. -/
theorem Confined.dispatch (confined : link.Confined key isOpen)
    (dispatched : link.dispatch numerics identity moment header payload = .ok after)
    (opens : Bypasses identity moment link.rttUs link.peer header payload → isOpen)
    : after.Confined key isOpen := by
  unfold Bypasses at opens
  unfold Link.dispatch at dispatched
  split at dispatched
  all_goals rename_i kind
  all_goals simp only [kind] at opens
  · cases dispatched
    exact (confined.handleHandshake opens).sendAckPacket _
  · cases dispatched
    exact (confined.handleHandshakeAck opens).sendAckPacket _
  · cases dispatched
    refine Confined.sendAckPacket ?_ _
    unfold Link.handleOnline
    split
    · exact confined.goOnline (opens trivial)
    · exact confined
  · cases dispatched
    exact confined.handleHeartbeat
  · cases dispatched
    exact confined.handleBye
  · exact confined.handleData dispatched opens
  · exact confined.handleData dispatched opens
  · cases dispatched
    exact confined.handleAck
  · cases dispatched
    exact confined.handleReport
  · cases dispatched
    exact confined.of_same rfl rfl
  · cases dispatched
    exact confined.handleCommand opens
  · cases dispatched
    exact confined

/-- A packet that does not go past the token check leaves a waiting record waiting. -/
theorem dispatch_waits (waits : link.peer.Waits)
    (dispatched : link.dispatch numerics identity moment header payload = .ok after)
    (harmless : ¬Bypasses identity moment link.rttUs link.peer header payload)
    : after.peer.Waits := by
  unfold Bypasses at harmless
  unfold dispatch at dispatched
  split at dispatched
  all_goals rename_i kind
  all_goals simp only [kind] at harmless
  · cases dispatched
    rw [Peer.Waits, sendAckPacket_peer, handleHandshake_state.2 harmless]
    exact waits
  · cases dispatched
    rw [Peer.Waits, sendAckPacket_peer, handleHandshakeAck_state, if_neg harmless]
    exact waits
  · exact absurd trivial harmless
  · cases dispatched
    obtain ⟨rtt, clock, eq⟩ := @handleHeartbeat_peer moment header payload link
    rw [Peer.Waits, eq]
    exact waits
  · cases dispatched
    rw [Peer.Waits, handleBye_peer]
    exact .inr rfl
  · obtain ⟨peer, delivered, ran, same, -⟩ := handleData_eq dispatched
    obtain ⟨late, collection, eq⟩ := reassemblerHandleData_peer ran
    rw [Peer.Waits, same, eq]
    exact waits
  · obtain ⟨peer, delivered, ran, same, -⟩ := handleData_eq dispatched
    obtain ⟨late, collection, eq⟩ := reassemblerHandleData_peer ran
    rw [Peer.Waits, same, eq]
    exact waits
  · cases dispatched
    obtain ⟨pending, clock, eq, -⟩ := @handleAck_peer moment header link
    rw [Peer.Waits, eq]
    exact waits
  · cases dispatched
    obtain ⟨ratio, pending, eq⟩ := @reportHandle_peer payload link.peer moment.now
    rw [Peer.Waits, handleReport_peer, eq]
    exact waits
  · cases dispatched
    exact waits
  · cases dispatched
    rw [Peer.Waits, handleCommand_peer]
    exact waits
  · cases dispatched
    exact waits

theorem admitted_of_deliveries {effect : Effect} (member : effect ∈ link.view.deliveries)
    : effect ∈ link.effects ∧ effect.admits = true := by
  obtain ⟨here, delivery⟩ := List.mem_filter.mp member
  refine ⟨here, ?_⟩
  cases effect with
  | send => cases delivery
  | message => rfl
  | command => rfl
  | peerEvent => cases delivery

/-- A packet that goes past the token check raises a waiting record, or hands something over. -/
theorem dispatch_raises (waits : link.peer.Waits)
    (dispatched : link.dispatch numerics identity moment header payload = .ok after)
    (bypasses : Bypasses identity moment link.rttUs link.peer header payload)
    : ¬after.peer.Waits ∨ ∃ effect ∈ after.effects, effect.owner = link.key ∧ effect.admits = true := by
  have message (handled : link.handleData numerics identity moment header payload = .ok after)
      (assembles : Reassembler.Assembles link.peer.collection header payload moment.now
        identity.maxMessageBytes)
      : ∃ effect ∈ after.effects, effect.owner = link.key ∧ effect.admits = true := by
    obtain ⟨peer, delivered, ran, -, view⟩ := handleData_eq handled
    obtain ⟨whole, rfl⟩ := Option.ne_none_iff_exists'.mp ((Reassembler.handleData_delivers ran).mpr assembles)
    have member : Effect.message link.key peer.id whole ∈ after.view.deliveries := by
      rw [view]
      exact List.mem_append_right _ List.mem_cons_self
    obtain ⟨here, admits⟩ := admitted_of_deliveries member
    exact ⟨_, here, rfl, admits⟩
  unfold Bypasses at bypasses
  unfold dispatch at dispatched
  split at dispatched
  all_goals rename_i kind
  all_goals simp only [kind] at bypasses
  · cases dispatched
    refine .inl fun still => ?_
    rw [Peer.Waits, sendAckPacket_peer, handleHandshake_state.1 bypasses] at still
    rcases waits with state | state
    · rw [state] at still
      rcases still with up | up <;> cases up
    · rw [state] at still
      rcases still with up | up <;> cases up
  · cases dispatched
    refine .inl fun still => ?_
    rw [Peer.Waits, sendAckPacket_peer, handleHandshakeAck_state, if_pos bypasses] at still
    rcases still with up | up <;> cases up
  · cases dispatched
    refine .inl fun still => ?_
    rw [Peer.Waits, sendAckPacket_peer, handleOnline_peer] at still
    rcases still with up | up <;> cases up
  · exact .inr (message dispatched bypasses)
  · exact .inr (message dispatched bypasses)
  · cases dispatched
    refine .inr ?_
    obtain ⟨first, rest, commands⟩ :=
      List.exists_cons_of_ne_nil (CommandChannel.handle_ready.mpr bypasses)
    have member : Effect.command link.key link.peer.id first ∈
        (link.handleCommand moment header payload).view.deliveries := by
      rw [handleCommand_view, commands]
      exact List.mem_append_right _ List.mem_cons_self
    obtain ⟨here, admits⟩ := admitted_of_deliveries member
    exact ⟨_, here, rfl, admits⟩

/-- A packet that goes past the token check once it is opened. -/
def Slips (identity : Identity) (moment : Moment) (rttUs : Nat) (peer : Peer) (header : PacketHeader)
    (payload : Bytes)
    : Prop :=
  ∃ opened, openPayload peer header payload = some opened ∧
    Bypasses identity moment rttUs peer opened.1 opened.2

/-- What a packet leaves in the record beforehand decides nothing about it. -/
theorem slips_touch
    : Slips identity moment link.rttUs (link.touch moment header).peer header payload ↔
      Slips identity moment link.rttUs link.peer header payload :=
  Iff.rfl

theorem Confined.handlePacket (confined : link.Confined key isOpen)
    (handled : link.handlePacket numerics identity moment header payload = .ok after)
    (opens : Slips identity moment link.rttUs link.peer header payload → isOpen)
    : after.Confined key isOpen := by
  have touched : (link.touch moment header).Confined key isOpen := confined.of_same rfl rfl
  rw [← slips_touch] at opens
  unfold Link.handlePacket at handled
  dsimp only at handled
  split at handled
  · cases handled
    exact touched
  · rename_i opened payload' found
    exact touched.dispatch handled fun bypasses => opens ⟨_, found, bypasses⟩

/-- A packet that slips through the check raises the waiting record, or hands something over; no other does. -/
theorem handlePacket_waits_iff (waits : link.peer.Waits) (start : link.effects = [])
    (handled : link.handlePacket numerics identity moment header payload = .ok after)
    : (after.peer.Waits ∧ ∀ effect ∈ after.effects, effect.admits = false) ↔
      ¬Slips identity moment link.rttUs link.peer header payload := by
  constructor
  · intro ⟨still, quiet⟩ slips
    rw [← slips_touch] at slips
    obtain ⟨opened, found, bypasses⟩ := slips
    unfold handlePacket at handled
    dsimp only at handled
    rw [found] at handled
    have touched : (link.touch moment header).peer.Waits := waits
    rcases dispatch_raises touched handled bypasses with raised | ⟨effect, member, -, admits⟩
    · exact raised still
    · rw [quiet effect member] at admits
      cases admits
  · intro harmless
    have confined : Confined link.key False link :=
      ⟨rfl, fun effect member => by rw [start] at member; exact absurd member List.not_mem_nil⟩
    constructor
    · rw [← slips_touch] at harmless
      unfold handlePacket at handled
      dsimp only at handled
      split at handled
      · cases handled
        exact waits
      · rename_i opened payload' found
        have touched : (link.touch moment header).peer.Waits := waits
        exact dispatch_waits touched handled fun bypasses => harmless ⟨_, found, bypasses⟩
    · intro effect member
      exact Bool.eq_false_iff.mpr fun admits =>
        ((confined.handlePacket handled harmless).2 effect member).2 admits

-- What the transport does by itself

theorem Confined.sendCommand (confined : link.Confined key isOpen)
    : (link.sendCommand identity moment payload).Confined key isOpen := by
  unfold Link.sendCommand
  split
  · exact confined
  · refine Confined.sendWire ?_ _ _
    exact confined.of_same rfl rfl

theorem sendCommand_state
    : (link.sendCommand identity moment payload).peer.state = link.peer.state := by
  unfold sendCommand
  split
  · rfl
  · rw [sendWire_peer]

theorem Confined.sendDataPacket (confined : link.Confined key isOpen) (call : FragmentCall)
    : (link.sendDataPacket identity moment call).Confined key isOpen := by
  simp only [Link.sendDataPacket]
  split
  · split
    · refine Confined.sendWire ?_ _ _
      exact confined.of_same rfl rfl
    · refine Confined.sendWire ?_ _ _
      exact confined.of_same rfl rfl
  · exact confined.sendWire _ _

theorem sendDataPacket_state (call : FragmentCall)
    : (link.sendDataPacket identity moment call).peer.state = link.peer.state := by
  simp only [sendDataPacket]
  split
  · split
    · rw [sendWire_peer]
      rfl
    · rw [sendWire_peer]
  · rw [sendWire_peer]

theorem sendHandshake_state : (link.sendHandshake identity moment).peer.state = link.peer.state :=
  sendControl_state _ _ _

theorem Confined.sendHandshakes (confined : link.Confined key isOpen)
    : (link.sendHandshakes identity moment).Confined key isOpen := by
  simp only [Link.sendHandshakes]
  split
  · exact confined
  · split
    · exact confined.of_same rfl rfl
    · refine Confined.of_same (Confined.sendHandshake ?_) rfl rfl
      exact confined.of_same rfl rfl

theorem sendHandshakes_state
    : (link.sendHandshakes identity moment).peer.state = link.peer.state := by
  simp only [sendHandshakes]
  split
  · rfl
  · split
    · rfl
    · exact sendHandshake_state

theorem Confined.sendHeartbeats (confined : link.Confined key isOpen)
    : (link.sendHeartbeats identity moment).Confined key isOpen := by
  simp only [Link.sendHeartbeats]
  split
  · exact confined
  · split
    · exact confined
    · exact (confined.sendControl _ _ _).of_same rfl rfl

theorem sendHeartbeats_state
    : (link.sendHeartbeats identity moment).peer.state = link.peer.state := by
  simp only [sendHeartbeats]
  split
  · rfl
  · split
    · rfl
    · exact sendControl_state _ _ _

theorem Confined.sendReports (confined : link.Confined key isOpen)
    : (link.sendReports numerics identity moment).Confined key isOpen := by
  simp only [Link.sendReports]
  split
  · exact confined
  · split
    · exact confined
    · refine Confined.of_same (Confined.sendRaw ?_ _ _) rfl rfl
      exact confined.of_same rfl rfl

theorem sendReports_state
    : (link.sendReports numerics identity moment).peer.state = link.peer.state := by
  simp only [sendReports]
  split
  · rfl
  · split
    · rfl
    · rw [sendRaw_peer]
      rfl

theorem Confined.checkOffline (confined : link.Confined key isOpen)
    : (link.checkOffline identity moment).Confined key isOpen := by
  simp only [Link.checkOffline]
  split
  · exact confined.of_same rfl rfl
  · split
    · exact confined.of_same rfl rfl
    · split
      · exact Confined.with_peer (Confined.announceClosed (confined.with_peer _)) _
      · refine Confined.announceClosed ?_
        exact confined.of_same rfl rfl

theorem checkOffline_waits (waits : link.peer.Waits) : (link.checkOffline identity moment).peer.Waits := by
  have down : ¬linked link.peer = true := by
    rcases waits with state | state
    · simp [linked, state]
    · simp [linked, state]
  rw [checkOffline]
  dsimp only
  rw [if_pos (by exact down)]
  exact waits

theorem flushCommands_waits_iff (waits : link.peer.Waits) (start : link.effects = [])
    : ((link.flushCommands moment).peer.Waits ∧
        ∀ effect ∈ (link.flushCommands moment).effects, effect.admits = false) ↔
      ¬link.peer.command.Overdue (u32 link.rttUs) moment.now := by
  rw [← CommandChannel.expireLocked_ready, not_not]
  have peer : (link.flushCommands moment).peer.Waits := by
    simp only [flushCommands]
    rw [Peer.Waits, (foldl_fireCommand _).1]
    exact waits
  constructor
  · intro ⟨_, quiet⟩
    by_contra ready
    obtain ⟨first, rest, commands⟩ := List.exists_cons_of_ne_nil ready
    have member : Effect.command link.key link.peer.id first ∈ (link.flushCommands moment).view.deliveries := by
      simp only [flushCommands, CommandChannel.flushExpired]
      rw [(foldl_fireCommand _).2, commands]
      exact List.mem_append_right _ List.mem_cons_self
    obtain ⟨here, admits⟩ := admitted_of_deliveries member
    rw [quiet _ here] at admits
    cases admits
  · intro none
    refine ⟨peer, fun effect member => ?_⟩
    simp only [flushCommands, CommandChannel.flushExpired, none, List.foldl_nil] at member
    rw [start] at member
    exact absurd member List.not_mem_nil

theorem Confined.flushCommands (confined : link.Confined key True)
    : (link.flushCommands moment).Confined key True := by
  simp only [Link.flushCommands]
  refine Confined.foldl_fireCommand ?_ fun _ => trivial
  exact confined.of_same rfl rfl

end Link

-- The record of a source

namespace Transport

variable {numerics : Numerics} {identity : Identity} {transport after last : Transport} {source : AddrKey}
  {key : Bytes} {outputs : List Effect} {history : List (Stage Transport Occurrence Effect)}

/-- The record that the source leads to waits. -/
def Recorded (source : AddrKey) (transport : Transport) : Prop :=
  ∀ key peer, transport.known source = some key → transport.peers[key]? = some peer → peer.Waits

/-- None of the effects hands something of the source over, or announces it. -/
def Silent (source : AddrKey) (transport : Transport) (outputs : List Effect) : Prop :=
  ∀ key, transport.known source = some key → ∀ effect ∈ outputs, effect.owner = key → effect.admits = false

/-- The record of the source waits, and the last step has shown nothing of it. -/
structure Gated (source : AddrKey) (history : List (Stage Transport Occurrence Effect)) (last : Transport)
    : Prop where
  record : Recorded source last
  silent : ∀ front stage, history = front ++ [stage] → Silent source last stage.outputs

theorem known_iff : transport.known source = some key ↔
    transport.peerByAddr source = some key ∧ ∃ peer, transport.peers[key]? = some peer := by
  rw [known, Option.filter_eq_some_iff, Std.TreeMap.contains_eq_isSome_getElem?,
    Option.isSome_iff_exists]

theorem visit_ran {body : Link → Except Fault Link} {peer : Peer}
    (visited : transport.visit key body = .ok (after, outputs)) (stored : transport.peers[key]? = some peer)
    : ∃ next, body { key := key, peer := peer, rttUs := transport.rttUs } = .ok next := by
  simp only [visit, stored] at visited
  split at visited
  · cases visited
  · rename_i next ran
    exact ⟨next, ran⟩

/-- A handler at work on one record shows something of the source only where that is its record. -/
theorem visit_gated_iff {body : Link → Except Fault Link}
    (visited : transport.visit key body = .ok (after, outputs)) (record : Recorded source transport)
    (confined : ∀ peer next, transport.peers[key]? = some peer
      → body { key := key, peer := peer, rttUs := transport.rttUs } = .ok next → next.Confined key True)
    : (Recorded source after ∧ Silent source after outputs) ↔
      (transport.known source = some key → ∀ peer next, transport.peers[key]? = some peer
        → body { key := key, peer := peer, rttUs := transport.rttUs } = .ok next
        → next.peer.Waits ∧ ∀ effect ∈ next.effects, effect.admits = false) := by
  rcases visit_cases visited with ⟨missing, rfl, rfl⟩ | ⟨peer, next, found, ran, rfl, rfl⟩
  · refine iff_of_true ⟨record, fun _ _ effect member => absurd member List.not_mem_nil⟩ ?_
    intro _ peer next stored
    cases missing.symm.trans stored
  · have owned := (confined peer next found ran).2
    have leads : ∀ other, ({ transport with
        peers := transport.peers.insert key next.peer, rttUs := next.rttUs } : Transport).known source =
          some other ↔ transport.known source = some other := by
      intro other
      rw [known_iff, known_iff]
      refine and_congr_right fun _ => ?_
      dsimp only
      rw [Std.TreeMap.getElem?_insert]
      split
      · rename_i same
        obtain rfl := Std.LawfulEqCmp.eq_of_compare same
        exact iff_of_true ⟨_, rfl⟩ ⟨peer, found⟩
      · rfl
    constructor
    · intro ⟨waits, silent⟩ here peer' next' stored' ran'
      obtain rfl := Option.some.inj (found.symm.trans stored')
      rw [ran] at ran'
      cases ran'
      refine ⟨waits key next.peer ((leads key).mpr here) (Std.TreeMap.getElem?_insert_self), ?_⟩
      exact fun effect member => silent key ((leads key).mpr here) effect member (owned effect member).1
    · intro quiet
      constructor
      · intro other stored leadsTo held
        rw [leads other] at leadsTo
        dsimp only at held
        rw [Std.TreeMap.getElem?_insert] at held
        split at held
        · rename_i same
          obtain rfl := Std.LawfulEqCmp.eq_of_compare same
          cases held
          exact (quiet leadsTo peer next found ran).1
        · exact record other stored leadsTo held
      · intro other leadsTo effect member owner
        rw [leads other] at leadsTo
        obtain rfl : other = key := owner.symm.trans (owned effect member).1
        exact (quiet leadsTo peer next found ran).2 effect member

/-- A record under a new key, and an address that leads to it, keep what waits if the record does. -/
theorem Recorded.insert (record : Recorded source transport) {peer : Peer} {index : AddrKey → Option Bytes}
    (index_eq : index source = transport.peerByAddr source ∨ index source = some key)
    (waits : index source = some key → peer.Waits)
    : Recorded source { transport with peers := transport.peers.insert key peer, peerByAddr := index } := by
  intro other stored leads held
  obtain ⟨led, -⟩ := known_iff.mp leads
  dsimp only at led held
  rw [Std.TreeMap.getElem?_insert] at held
  split at held
  · rename_i same
    obtain rfl := Std.LawfulEqCmp.eq_of_compare same
    cases held
    exact waits led
  · rename_i differs
    rcases index_eq with same | own
    · exact record other stored (known_iff.mpr ⟨same ▸ led, stored, held⟩) held
    · rw [own] at led
      cases led
      exact absurd (Std.ReflCmp.compare_self) differs

theorem Recorded.findOrCreatePeerByAddr (record : Recorded source transport) (moment : Moment)
    (other : AddrKey) (draw : Nat)
    : Recorded source (transport.findOrCreatePeerByAddr moment other draw).1 := by
  unfold Transport.findOrCreatePeerByAddr
  split
  · exact record
  · refine record.insert ?_ fun _ => .inl rfl
    by_cases own : source = other
    · exact .inr (if_pos own)
    · exact .inl (if_neg own)

theorem Recorded.removePeer (record : Recorded source transport) (key : Bytes)
    : Recorded source (transport.removePeer key) := by
  intro other stored leads held
  obtain ⟨led, -⟩ := known_iff.mp leads
  rw [Transport.removePeer] at held
  dsimp only at held
  rw [Std.TreeMap.getElem?_erase] at held
  split at held
  · cases held
  · exact record other stored (known_iff.mpr ⟨led, stored, held⟩) held

/-- A connection to another address keeps the record waiting, also where it takes its id. -/
theorem Recorded.addPeer (record : Recorded source transport) (moment : Moment) (remoteId : Bytes)
    {addr : AddrKey} (apart : addr ≠ source)
    : Recorded source (transport.addPeer moment remoteId addr) := by
  have placed (before : Transport) (waiting : Recorded source before)
      : Recorded source {
          before with
          peers := before.peers.insert remoteId {
            before.peers.getD remoteId {} with
            id := remoteId
            addr := addr
            addrSet := true
            role := .node
            reconnect := true
            retransmit := before.identity.config.retransmitEnabled
            state :=
              if (before.peers.getD remoteId {}).state = .closed then .handshake
              else (before.peers.getD remoteId {}).state
            lastHandshakeSent :=
              if (before.peers.getD remoteId {}).state = .closed then moment.now - 3600000000000
              else (before.peers.getD remoteId {}).lastHandshakeSent
            handshakeBackoff :=
              if (before.peers.getD remoteId {}).state = .closed then 500000000
              else (before.peers.getD remoteId {}).handshakeBackoff
          }
          peerByAddr := mapAddr before.peerByAddr addr remoteId
        } := by
    have index : mapAddr before.peerByAddr addr remoteId source = before.peerByAddr source :=
      if_neg fun same => apart same.symm
    refine waiting.insert (.inl index) fun leads => ?_
    rw [index] at leads
    rw [Peer.Waits]
    dsimp only
    by_cases closed : (before.peers.getD remoteId {}).state = .closed
    · exact .inl (if_pos closed)
    · rw [if_neg closed]
      rw [Std.TreeMap.getD_eq_getD_getElem?] at closed ⊢
      rcases stored : before.peers[remoteId]? with - | peer
      · rw [stored] at closed
        exact absurd rfl closed
      · exact waiting remoteId peer (known_iff.mpr ⟨leads, peer, stored⟩) stored
  unfold Transport.addPeer
  dsimp only
  split
  · exact placed _ (record.removePeer _)
  · exact placed _ record

-- Steps

/-- A datagram whose packet slips through the check on the record of its source. -/
def Intrudes (transport : Transport) (moment : Moment) (source : AddrKey) (bytes : Bytes) (draw : Nat) : Prop :=
  ∃ header payload peer, PacketCodec.decode (bytes.take 2048) = some (header, payload) ∧
    transport.recipient moment source draw = some peer ∧
    Link.Slips transport.identity moment transport.rttUs peer header payload

/-- The step leaves the record of the source to wait: a datagram that is handled on that record, from the
source or from another address that leads there, does not slip through the check, and no held command of the
record has waited out.
-/
def Harmless (source : AddrKey) (stage : Stage Transport Occurrence Effect) : Prop :=
  match stage.event.event with
  | .datagram other bytes draw =>
      let found := stage.before.findOrCreatePeerByAddr stage.event.moment other draw
      found.1.known source = some found.2 → ¬stage.before.Intrudes stage.event.moment other bytes draw
  | .flushCommands key =>
      stage.before.known source = some key → ∀ peer, stage.before.peers[key]? = some peer
        → ¬peer.command.Overdue (u32 stage.before.rttUs) stage.event.moment.now
  | _ => True

/-- The source is not connected, and shows no token. -/
def Uninvited (source : AddrKey) (transport : Transport) (occurrence : Occurrence) : Prop :=
  match occurrence.event with
  | .connect _ addr => addr ≠ source
  | .datagram other bytes draw =>
      other = source → ∀ header payload peer opened, PacketCodec.decode (bytes.take 2048) = some (header, payload)
        → transport.recipient occurrence.moment source draw = some peer
        → openPayload peer header payload = some opened
        → PacketType.ofCode? opened.1.type = some .handshake
        → ¬Link.Accepts transport.identity opened.2
  | _ => True

/-- What keeps a waiting record waiting and shows nothing but datagrams leaves the source to wait. -/
theorem visit_gated {body : Link → Link}
    (visited : transport.visit key (fun link => .ok (body link)) = .ok (after, outputs))
    (record : Recorded source transport)
    (waits : ∀ link : Link, link.peer.Waits → (body link).peer.Waits)
    (confined : ∀ (isOpen : Prop) (link : Link), link.Confined key isOpen → (body link).Confined key isOpen)
    : Recorded source after ∧ Silent source after outputs := by
  refine (visit_gated_iff visited record fun peer next _ ran => ?_).mpr fun leads peer next stored ran => ?_
  · cases ran
    exact confined True _ (Link.confined_start key peer transport.rttUs True)
  · cases ran
    refine ⟨waits _ (record key peer leads stored), fun effect member => Bool.eq_false_iff.mpr fun admits => ?_⟩
    exact ((confined False _ (Link.confined_start key peer transport.rttUs False)).2 effect member).2 admits

/-- A step leaves the source to wait exactly when it is harmless. -/
theorem step_gated_iff {occurrence : Occurrence} (record : Recorded source transport)
    (uninvited : transport.Uninvited source occurrence)
    (taken : step numerics transport occurrence = .ok (after, outputs))
    : (Recorded source after ∧ Silent source after outputs) ↔
      Harmless source { before := transport, event := occurrence, outputs } := by
  have nothing {transport : Transport} : Silent source transport [] :=
    fun _ _ effect member => absurd member List.not_mem_nil
  obtain ⟨moment, event⟩ := occurrence
  cases event with
  | connect remoteId addr =>
      refine iff_of_true (visit_gated taken (record.addPeer moment remoteId uninvited) ?_ ?_) trivial
      · intro link waits
        rwa [Peer.Waits, Link.sendHandshake_state]
      · exact fun _ link confined => confined.sendHandshake
  | datagram other bytes draw =>
      simp only [step, receive] at taken
      simp only [Harmless]
      rcases decoded : PacketCodec.decode (bytes.take 2048) with - | ⟨header, payload⟩
      · rw [decoded] at taken
        cases taken
        refine iff_of_true ⟨record, nothing⟩ ?_
        rintro - ⟨header, payload, peer, found, -⟩
        rw [decoded] at found
        cases found
      · rw [decoded] at taken
        have identity := @findOrCreatePeerByAddr_identity transport moment other draw
        have rtt : (transport.findOrCreatePeerByAddr moment other draw).1.rttUs = transport.rttUs := by
          unfold findOrCreatePeerByAddr
          split <;> rfl
        have kept := record.findOrCreatePeerByAddr moment other draw
        refine (visit_gated_iff taken kept fun peer next _ ran => ?_).trans ?_
        · exact (Link.confined_start _ peer _ True).handlePacket ran fun _ => trivial
        · refine imp_congr_right fun leads => ?_
          constructor
          · rintro quiet ⟨header', payload', peer, decoded', stored, slips⟩
            rw [decoded] at decoded'
            cases decoded'
            obtain ⟨next, ran⟩ := visit_ran taken stored
            refine (Link.handlePacket_waits_iff (kept _ peer leads stored) rfl ran).mp
              (quiet peer next stored ran) ?_
            dsimp only
            rwa [identity, rtt]
          · intro harmless peer next stored ran
            refine (Link.handlePacket_waits_iff (kept _ peer leads stored) rfl ran).mpr fun slips => ?_
            refine harmless ⟨header, payload, peer, decoded, stored, ?_⟩
            dsimp only at slips
            rwa [identity, rtt] at slips
  | sendCommand peerId payload =>
      simp only [step] at taken
      refine iff_of_true ?_ trivial
      split at taken
      · cases taken
        exact ⟨record, nothing⟩
      · split at taken
        · cases taken
          exact ⟨record, nothing⟩
        · refine visit_gated taken record (fun link waits => ?_) fun _ link confined => confined.sendCommand
          rwa [Peer.Waits, Link.sendCommand_state]
  | processSend peerId payload =>
      obtain rfl : transport.queueMessage peerId payload = after := congrArg Prod.fst (Except.ok.inj taken)
      obtain rfl : [] = outputs := congrArg Prod.snd (Except.ok.inj taken)
      refine iff_of_true ⟨?_, nothing⟩ trivial
      unfold queueMessage
      split
      · exact record
      · split
        · exact record
        · split
          · exact record
          · exact record
  | encode =>
      obtain rfl : transport.encodeNext numerics = after := congrArg Prod.fst (Except.ok.inj taken)
      obtain rfl : [] = outputs := congrArg Prod.snd (Except.ok.inj taken)
      refine iff_of_true ⟨?_, nothing⟩ trivial
      unfold encodeNext
      split
      · rename_i key payload tasks _ _
        split
        · exact record
        · rename_i peer stored
          exact record.insert (.inl rfl) fun leads =>
            record key peer (known_iff.mpr ⟨leads, peer, stored⟩) stored
      · exact record
  | fragment =>
      simp only [step] at taken
      refine iff_of_true ?_ trivial
      split at taken
      · cases taken
        exact ⟨record, nothing⟩
      · rename_i key call encoding _
        have encoded : Recorded source { transport with encoding := encoding } := record
        refine visit_gated taken encoded (fun link waits => ?_)
          fun _ link confined => confined.sendDataPacket call
        rwa [Peer.Waits, Link.sendDataPacket_state]
  | sendHandshakes key =>
      refine iff_of_true (visit_gated taken record (fun link waits => ?_)
        fun _ link confined => confined.sendHandshakes) trivial
      rwa [Peer.Waits, Link.sendHandshakes_state]
  | sendHeartbeats key =>
      refine iff_of_true (visit_gated taken record (fun link waits => ?_)
        fun _ link confined => confined.sendHeartbeats) trivial
      rwa [Peer.Waits, Link.sendHeartbeats_state]
  | sendReports key =>
      refine iff_of_true (visit_gated taken record (fun link waits => ?_)
        fun _ link confined => confined.sendReports) trivial
      rwa [Peer.Waits, Link.sendReports_state]
  | checkOffline key =>
      exact iff_of_true (visit_gated taken record (fun link waits => Link.checkOffline_waits waits)
        fun _ link confined => confined.checkOffline) trivial
  | flushCommands key =>
      have visited : transport.visit key (fun link => .ok (link.flushCommands moment)) = .ok (after, outputs) :=
        taken
      refine (visit_gated_iff visited record fun peer next _ ran => ?_).trans ?_
      · cases ran
        exact (Link.confined_start key peer transport.rttUs True).flushCommands
      · refine imp_congr_right fun leads => forall_congr' fun peer => ?_
        constructor
        · intro quiet stored
          exact (Link.flushCommands_waits_iff (record key peer leads stored) rfl).mp (quiet _ stored rfl)
        · intro harmless next stored ran
          cases ran
          exact (Link.flushCommands_waits_iff (record key peer leads stored) rfl).mpr (harmless stored)

-- Runs

theorem gated_append {stage : Stage Transport Occurrence Effect}
    : Gated source (history ++ [stage]) last ↔ Recorded source last ∧ Silent source last stage.outputs := by
  constructor
  · exact fun gated => ⟨gated.record, gated.silent history stage rfl⟩
  · intro ⟨record, silent⟩
    refine ⟨record, fun front other split => ?_⟩
    have same := List.head_eq_of_cons_eq (List.append_inj' split rfl).2
    exact same ▸ silent

/-- A source that is never connected and never shows the token stays a stranger in every state of a run exactly
when every step of it is harmless.
-/
theorem gated_iff_harmless
    (run : Run (step numerics) (fun _ before occurrence => before.Uninvited source occurrence)
      (initial identity) history last)
    : Throughout (Gated source) history last ↔ ∀ stage ∈ history, Harmless source stage := by
  refine run.throughout_iff ?_ fun earlier before event after outputs _ gated uninvited taken => ?_
  · refine ⟨fun key peer leads => ?_, fun front stage split => ?_⟩
    · obtain ⟨led, -⟩ := known_iff.mp leads
      cases led
    · cases (List.append_eq_nil_iff.mp split.symm).2
  · exact gated_append.trans (step_gated_iff gated.record uninvited taken)

/-- A plain packet of the stranger. -/
def strangerHeader (type : PacketType) (payload : Bytes) : PacketHeader where
  magic := kMagic
  version := kVersion
  type := type.code
  payloadSize := UInt16.ofNat payload.length

def strangerSends (type : PacketType) (payload : Bytes) : Occurrence :=
  ⟨⟨0, 0⟩, .datagram stranger (PacketCodec.encode (strangerHeader type payload) payload) 0⟩

/-- A plain packet is taken for what its type says, and slips through the check if that does. -/
theorem intrudes_strangerSends (identity : Identity) (type : PacketType) {payload : Bytes}
    (short : payload.length < 2000)
    : ∃ peer, (initial identity).recipient ⟨0, 0⟩ stranger 0 = some peer ∧ peer.state = .handshake ∧
      ∀ header body opened,
        PacketCodec.decode ((PacketCodec.encode (strangerHeader type payload) payload).take 2048) =
          some (header, body)
        → openPayload peer header body = some opened
        → opened.1.type = type.code ∧ opened.2 = payload := by
  refine ⟨_, Std.TreeMap.getElem?_insert_self, rfl, fun header body opened decoded ran => ?_⟩
  have size : (strangerHeader type payload).payloadSize.toNat = payload.length := by
    rw [strangerHeader, UInt16.toNat_ofNat']
    exact Nat.mod_eq_of_lt (by omega)
  rw [decode_take_encode rfl rfl size (by rw [kHeaderSize]; omega)] at decoded
  cases decoded
  have plain : ¬(strangerHeader type payload).flags &&& kFlagEncrypted ≠ 0 := by
    show ¬(0 : UInt16) &&& kFlagEncrypted ≠ 0
    decide
  rw [openPayload, if_neg plain] at ran
  cases ran
  exact ⟨rfl, rfl⟩

/-- A run of one packet of the stranger that shows no token. -/
theorem run_strangerSends {type : PacketType} {payload : Bytes} (short : payload.length < 2000)
    (tokenless : type = .handshake → ¬Link.Accepts identity payload)
    (fine : (step default (initial identity) (strangerSends type payload)).isOk = true)
    : ∃ after outputs,
      step default (initial identity) (strangerSends type payload) = .ok (after, outputs) ∧
        (initial identity).Uninvited stranger (strangerSends type payload) := by
  obtain ⟨peer, found, -, opens⟩ := intrudes_strangerSends identity type short
  refine match taken : step default (initial identity) (strangerSends type payload) with
    | .error fault => ?_
    | .ok (after, outputs) => ⟨after, outputs, rfl, ?_⟩
  · rw [taken] at fine
    cases fine
  · intro _ header body other opened decoded stored ran kind
    cases found.symm.trans stored
    obtain ⟨same, whole⟩ := opens header body opened decoded ran
    rw [same, PacketType.ofCode?_code] at kind
    rw [whole]
    exact tokenless (Option.some.inj kind)

/-- A handshake with another token leaves the stranger to wait. -/
theorem gated_iff_harmless_otherToken
    : ∃ history last, history ≠ [] ∧
      Run (step default) (fun _ before occurrence => before.Uninvited stranger occurrence) (initial {})
        history last ∧
      Throughout (Gated stranger) history last := by
  have short : (Link.strangerPayload 1).length < 2000 := by decide
  have fine : (step default (initial {}) (strangerSends .handshake (Link.strangerPayload 1))).isOk = true := by
    rw [strangerSends, step_datagram rfl rfl (by rfl) (by decide)]
    decide +kernel
  obtain ⟨after, outputs, taken, uninvited⟩ :=
    run_strangerSends short (fun _ => Link.strangerPayload_rejected 1) fine
  have begun : Run (step default) (fun _ before occurrence => before.Uninvited stranger occurrence)
      (initial {}) [] (initial {}) :=
    .start
  have run := begun.next uninvited taken
  refine ⟨_, after, List.cons_ne_nil _ _, run, (gated_iff_harmless run).mpr fun stage member => ?_⟩
  obtain rfl := List.mem_singleton.mp member
  obtain ⟨peer, found, -, opens⟩ := intrudes_strangerSends {} .handshake short
  intro _ ⟨header, body, other, decoded, stored, opened, ran, bypasses⟩
  cases found.symm.trans stored
  obtain ⟨same, whole⟩ := opens header body opened decoded ran
  rw [Link.Bypasses, same, PacketType.ofCode?_code, whole] at bypasses
  exact Link.strangerPayload_rejected 1 bypasses

/-- An online packet raises the record of a stranger that has shown no token. -/
theorem stranger_goes_online
    : ∃ identity : Identity, identity.config.token ≠ [] ∧ ∃ history last,
      Run (step default) (fun _ before occurrence => before.Uninvited stranger occurrence) (initial identity)
        history last ∧
      ¬Throughout (Gated stranger) history last := by
  refine ⟨{ config := { token := [1] } }, List.cons_ne_nil _ _, ?_⟩
  have short : ([] : Bytes).length < 2000 := by decide
  have fine : (step default (initial { config := { token := [1] } }) (strangerSends .online [])).isOk = true := by
    rw [strangerSends, step_datagram rfl rfl (by rfl) (by decide)]
    decide +kernel
  obtain ⟨after, outputs, taken, uninvited⟩ := run_strangerSends short
    (fun same => PacketType.noConfusion same) fine
  have begun : Run (step default) (fun _ before occurrence => before.Uninvited stranger occurrence)
      (initial { config := { token := [1] } }) [] (initial { config := { token := [1] } }) :=
    .start
  refine ⟨_, after, begun.next uninvited taken, fun gated => ?_⟩
  have none : Recorded stranger (initial { config := { token := [1] } }) := by
    intro key peer leads
    obtain ⟨led, -⟩ := known_iff.mp leads
    cases led
  have harmless := (step_gated_iff none uninvited taken).mp (gated_append.mp gated.2)
  have leads : ((initial { config := { token := [1] } }).findOrCreatePeerByAddr ⟨0, 0⟩ stranger 0).1.known
      stranger = some ((initial { config := { token := [1] } }).findOrCreatePeerByAddr ⟨0, 0⟩ stranger 0).2 := by
    decide +kernel
  refine harmless leads ?_
  have decoded := @decode_take_encode (strangerHeader .online []) [] rfl rfl rfl (by decide)
  exact ⟨_, _, _, decoded, Std.TreeMap.getElem?_insert_self, _, if_neg (by decide), trivial⟩

end Transport

end Creek.Tight
