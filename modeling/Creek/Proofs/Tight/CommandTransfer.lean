import Creek.Library.Lookups
import Creek.Proofs.Tight.MessageTransfer
import Creek.Proofs.Tight.SentCommands

/-! Commands from one transport to another. Whatever the network loses, repeats, delays or reorders, and
whatever else both ends do, the commands handed over in a session are some of those submitted in it, each
once and in their order.
-/

namespace Creek.Tight

open Library PacketCodec

variable {base : Nat} {commands : List Bytes}

-- What a posted command opens to

theorem CarriesCommand.fit {number : Nat} {command : Bytes} {header : PacketHeader} {payload : Bytes}
    (carries : CarriesCommand number command header payload)
    (short : command.length + kGcmTagSize ≤ 65535)
    : header.flags < kFlagEncrypted ∧ payload.length = header.payloadSize.toNat
      ∧ payload.length + kGcmTagSize ≤ 65535 := by
  obtain ⟨rfl, -, size, flags⟩ := carries
  refine ⟨?_, ?_, short⟩
  · rw [flags]
    decide
  · rw [size, UInt16.toNat_ofNat']
    omega

/-- A posted datagram with a command opens to that command under its number. -/
theorem Posted.opened_command {datagram body : Bytes} {sealed : Option Seal} {received : PacketHeader}
    {opened : PacketHeader × Bytes} {receiver : Peer} {buffer : Nat}
    (posted : Posted (fromCommands base commands) datagram sealed)
    (short : ∀ command ∈ commands, command.length + kGcmTagSize ≤ 65535)
    (agreed : ∀ input, sealed = some input → receiver.cryptoReady
      → receiver.cryptoKey = input.key)
    (decoded : decode (datagram.take buffer) = some (received, body))
    (opens : openPayload receiver received body = some opened)
    (kind : opened.1.type = PacketType.command.code)
    : ∃ n command, commands[n]? = some command ∧ opened.2 = command
      ∧ opened.1.sequence = UInt32.ofNat (base + n) := by
  have type := Link.type_of_openPayload opens
  cases posted with
  | @control header payload plain =>
      rw [encode, encodeTo] at decoded
      obtain ⟨checksum, rfl, -, -⟩ := decode_take_finalizeCrc decoded
      rw [type.symm.trans kind] at plain
      cases plain
  | @wire encryptionEnabled sender header payload holds =>
      have command : header.type = PacketType.command.code := by
        have built := decoded
        simp only [buildWirePacket] at built
        obtain ⟨checksum, rfl, -, -⟩ := decode_take_finalizeCrc built
        rw [type] at kind
        simp only [wireHeader] at kind
        split at kind <;> exact kind
      obtain ⟨n, sent, stored, carries⟩ := holds command
      obtain ⟨low, size, room⟩ := carries.fit (short sent (List.mem_of_getElem? stored))
      have same : ∃ checksum, opened = ({ header with checksum := checksum }, payload) := by
        refine opened_wire (fun mode ready => ?_) low size room decoded opens
        exact agreed _ (sealOf_of_ready mode header payload) ready
      obtain ⟨checksum, rfl⟩ := same
      exact ⟨n, sent, stored, carries.payload, carries.sequence⟩

-- The receiving channel

namespace CommandChannel

/-- The numbers of what is sent are no part of what is delivered. -/
theorem Delivered.of_same {history : List CommandStage} {channel other : CommandState}
    (delivered : Delivered history channel) (expected : other.nextExpected = channel.nextExpected)
    (initialized : other.initialized = channel.initialized) (held : other.held = channel.held)
    : Delivered history other where
  ordered := expected ▸ delivered.ordered
  held := fun number payload present => expected ▸ delivered.held number payload (held ▸ present)
  idle := fun idle => held ▸ delivered.idle (initialized ▸ idle)

/-- A channel that has not begun to receive has delivered nothing. -/
theorem delivered_idle {channel : CommandState} (empty : ∀ number, number ∉ channel.held)
    : Delivered [] channel where
  ordered := .nil (Nat.zero_le _)
  held := by
    intro number payload present
    refine absurd ?_ (empty number)
    rw [Std.TreeMap.mem_iff_isSome_getElem?, present]
    rfl
  idle := fun _ => ⟨rfl, empty⟩

@[simp] theorem map_snd_numbered (result : CommandState × List Bytes)
    : (numbered result).map Prod.snd = result.2 := by
  rw [numbered, List.map_snd_zip]
  exact Nat.le_of_eq List.length_range'.symm

end CommandChannel

-- Steps and runs of the receiver

namespace Transport

variable {numerics : Numerics} {key sender : Bytes} {posted outputs : List Effect} {handed : List Bytes}
  {history : List CommandStage} {transport after : Transport} {occurrence : Occurrence}

/-- Each command that arrives on the record of a peer was posted by the other end in the session, and is
opened under the key that sealed it if at all.
-/
def RelaysCommands (posted : List Effect) (sender : Bytes) (key : Bytes) (transport : Transport)
    (occurrence : Occurrence)
    : Prop :=
  ∀ source bytes draw received body, occurrence.event = .datagram source bytes draw
    → (transport.findOrCreatePeerByAddr occurrence.moment source draw).2 = key
    → PacketCodec.decode (bytes.take 2048) = some (received, body)
    → received.type = PacketType.command.code
    → ∃ addr sealed, Effect.send sender addr bytes sealed ∈ posted
      ∧ ∀ input, sealed = some input
        → ((transport.findOrCreatePeerByAddr occurrence.moment source draw).1.record key).cryptoReady
        → ((transport.findOrCreatePeerByAddr occurrence.moment source draw).1.record key).cryptoKey
          = input.key

/-- The commands that a history hands over for a record. -/
def commandsDelivered (key : Bytes) (history : List (Stage Transport Occurrence Effect)) : List Bytes :=
  history.flatMap fun stage => commandsFor key stage.outputs

/-- A record whose channel has delivered what was handed over for it, out of numbered commands alone. -/
structure Hears (base : Nat) (commands : List Bytes) (key : Bytes) (handed : List Bytes)
    (history : List CommandStage) (transport : Transport)
    : Prop where
  delivered : CommandChannel.Delivered history (transport.record key).command
  known : ∀ packet, CommandChannel.Received history packet
    → ∃ n, commands[n]? = some packet.2 ∧ packet.1 = base + n
  handed : (emitted history).map Prod.snd = handed

/-- One step of the receiver. Witness: what arrives joins the history of the channel under the number that
the sender gave it.
-/
theorem Hears.step (hears : Hears base commands key handed history transport)
    (room : base + commands.length < 2 ^ 32)
    (short : ∀ command ∈ commands, command.length + kGcmTagSize ≤ 65535)
    (logged : ∀ effect ∈ posted, effect.owner = sender → effect.Vouched (fromCommands base commands))
    (continues : transport.Continues key occurrence)
    (relays : transport.RelaysCommands posted sender key occurrence)
    (taken : step numerics transport occurrence = .ok (after, outputs))
    : ∃ history, Hears base commands key (handed ++ commandsFor key outputs) history after := by
  have turn := step_turn continues taken
  have next (longer : List CommandStage) {channel : CommandState}
      (same : (after.record key).command = channel)
      (delivered : CommandChannel.Delivered longer channel)
      (known : ∀ packet, CommandChannel.Received longer packet
        → ∃ n, commands[n]? = some packet.2 ∧ packet.1 = base + n)
      (all : (emitted longer).map Prod.snd = handed ++ commandsFor key outputs)
      : Hears base commands key (handed ++ commandsFor key outputs) longer after :=
    ⟨same ▸ delivered, known, all⟩
  generalize resulting : (after.record key).command = channel at turn next
  generalize shown : commandsFor key outputs = shownNow at turn next
  cases turn with
  | quiet idle =>
      exact ⟨history, next history rfl hears.delivered hears.known (by simpa using hears.handed)⟩
  | numbers accepted =>
      exact ⟨history, next history rfl (hears.delivered.of_same rfl rfl rfl) hears.known
        (by simpa using hears.handed)⟩
  | @arrives header payload rttUs idle came command =>
      obtain ⟨source, bytes, draw, received, body, event, mine, decoded, opens⟩ := came
      have kind := (Link.type_of_openPayload opens).symm.trans command
      obtain ⟨addr, sealed, inPosted, agreed⟩ := relays source bytes draw received body event mine
        decoded kind
      have vouched : Posted (fromCommands base commands) bytes sealed := logged _ inPosted rfl
      obtain ⟨n, sent, stored, same, sequence⟩ := vouched.opened_command short agreed decoded opens
        command
      have bound := (List.getElem?_eq_some_iff.mp stored).1
      have number : header.sequence.toNat = base + n := by
        have same : header.sequence = UInt32.ofNat (base + n) := sequence
        rw [same, UInt32.toNat_ofNat']
        exact Nat.mod_eq_of_lt (by omega)
      let stage : CommandStage :=
        {
          before := (transport.record key).command
          event := .handle header payload rttUs occurrence.moment.now
          outputs := CommandChannel.numbered (CommandChannel.handle (transport.record key).command
            header payload rttUs occurrence.moment.now)
        }
      refine ⟨history ++ [stage], next _ rfl ?_ ?_ ?_⟩
      · exact CommandChannel.handle_delivered hears.delivered rfl (by omega) rfl
      · rintro packet ⟨earlier, member, handedIn⟩
        rcases List.mem_append.mp member with old | last
        · exact hears.known packet ⟨earlier, old, handedIn⟩
        · rw [List.mem_singleton.mp last] at handedIn
          obtain rfl := Option.some.inj handedIn
          exact ⟨n, stored.trans (congrArg some same.symm), number⟩
      · rw [emitted_append, emitted_singleton, List.map_append, hears.handed,
          CommandChannel.map_snd_numbered]
  | checks rttUs idle =>
      let stage : CommandStage :=
        {
          before := (transport.record key).command
          event := .flushExpired rttUs occurrence.moment.now
          outputs := CommandChannel.numbered (CommandChannel.flushExpired
            (transport.record key).command rttUs occurrence.moment.now)
        }
      refine ⟨history ++ [stage], next _ rfl ?_ ?_ ?_⟩
      · exact CommandChannel.flushExpired_delivered hears.delivered rfl
      · rintro packet ⟨earlier, member, handedIn⟩
        rcases List.mem_append.mp member with old | last
        · exact hears.known packet ⟨earlier, old, handedIn⟩
        · rw [List.mem_singleton.mp last] at handedIn
          cases handedIn
      · rw [emitted_append, emitted_singleton, List.map_append, hears.handed,
          CommandChannel.map_snd_numbered]

/-- The steps of a receiver during a session. -/
def Listens (posted : List Effect) (sender key : Bytes) (_ : List (Stage Transport Occurrence Effect))
    (before : Transport) (occurrence : Occurrence)
    : Prop :=
  before.Continues key occurrence ∧ before.RelaysCommands posted sender key occurrence

/-- The commands handed over in a session are some of those submitted in it, each once and in their order,
whatever both ends do and whatever the network loses, repeats, delays or reorders. The session begins
where the receiving channel has taken nothing in yet and ends where one end starts its channel again; it
has fewer commands than there are numbers, and a sealed command is opened under the key that sealed it.
-/
theorem commands_delivered_in_order {near far : Numerics} {identity : Identity} {outKey inKey : Bytes}
    {past sent received : List (Stage Transport Occurrence Effect)}
    {begun listening lastSent lastReceived : Transport} (wide : identity.config.mtu ≤ 65535)
    (reached : Run (step near) (fun _ _ _ => True) (initial identity) past begun)
    (sending : Run (step near) (Session outKey) begun sent lastSent)
    (room : (begun.record outKey).command.seqOut + (commandsSubmitted outKey sent).length < 2 ^ 32)
    (idle : ∀ number, number ∉ (listening.record inKey).command.held)
    (receiving : Run (step far) (Listens (emitted sent) outKey inKey) listening received lastReceived)
    : (commandsDelivered inKey received).Sublist (commandsSubmitted outKey sent) := by
  have ledger := session_ledger reached sending room
  have short : ∀ command ∈ commandsSubmitted outKey sent, command.length + kGcmTagSize ≤ 65535 := by
    intro command member
    have fits := ledger.fits command member
    rw [kHeaderSize] at fits
    rw [kGcmTagSize]
    omega
  obtain ⟨history, hears⟩ : ∃ history, Hears (begun.record outKey).command.seqOut
      (commandsSubmitted outKey sent) inKey (commandsDelivered inKey received) history lastReceived := by
    refine receiving.invariant (fun received last => ∃ history,
      Hears (begun.record outKey).command.seqOut (commandsSubmitted outKey sent) inKey
        (commandsDelivered inKey received) history last) ?_ ?_
    · refine ⟨[], CommandChannel.delivered_idle idle, ?_, rfl⟩
      rintro packet ⟨stage, member, -⟩
      exact absurd member List.not_mem_nil
    · rintro front state event after outputs - ⟨history, hears⟩ listens taken
      have longer : commandsDelivered inKey (front ++ [{ before := state, event, outputs }])
          = commandsDelivered inKey front ++ commandsFor inKey outputs := by
        simp [commandsDelivered]
      rw [longer]
      exact hears.step room short ledger.posts listens.1 listens.2 taken
  rw [← hears.handed]
  exact sublist_of_numbered hears.delivered.ordered.increasing fun packet member =>
    hears.known packet (hears.delivered.ordered.received packet member)

-- A sealed command

/-- The packet of the next command. -/
def nextCommand (transport : Transport) (moment : Moment) (peer : Peer) (payload : Bytes)
    : PacketHeader :=
  {
    Link.header transport.identity moment .command with
    sequence := UInt32.ofNat peer.command.seqOut
    payloadSize := UInt16.ofNat payload.length
  }

theorem step_sendCommand_online {peer : Peer} {payload : Bytes} {moment : Moment}
    (within : payload.length ≤ transport.maxCommandBytes)
    (found : transport.peers[key]? = some peer) (online : peer.state = .online)
    (addressed : peer.addrSet = true)
    : ∃ after, step numerics transport ⟨moment, .sendCommand key payload⟩
        = .ok (
            after,
            [
              .send key peer.addr
                (buildWirePacket transport.identity.config.encryptionEnabled peer
                  (transport.nextCommand moment peer payload) payload)
                (sealOf transport.identity.config.encryptionEnabled peer
                  (transport.nextCommand moment peer payload) payload)
            ]) := by
  have named : transport.findPeer key = some key := by
    have member : transport.peers.contains key = true := by
      rw [Std.TreeMap.contains_eq_isSome_getElem?, found]
      rfl
    rw [findPeer, if_pos member]
  simp only [step, if_neg (Nat.not_lt_of_le within), named, visit, found, Link.sendCommand]
  rw [if_neg (not_not_intro online), sendWire_effects]
  · exact ⟨_, rfl⟩
  · exact addressed

/-- Whether a transport takes a command of the stranger in, and hands over the byte 7. -/
def hearsSeven (transport : Transport) (header : PacketHeader) : Bool :=
  leaves (transport.visit (anonymousId stranger 0) fun link =>
      (link.touch ⟨0, 0⟩ header).dispatch default transport.identity ⟨0, 0⟩ header [7])
    fun _ outputs => outputs = [.command (anonymousId stranger 0) (anonymousId stranger 0) [7]]

/-- Whether a transport can seal the byte 7 as a command to the stranger, and take the like in. -/
def commandsSeven (transport : Transport) : Bool :=
  transport.known stranger = some (anonymousId stranger 0)
    && transport.peers[anonymousId stranger 0]?.any fun peer =>
      transport.identity.config.encryptionEnabled && peer.cryptoReady
        && 1 ≤ transport.maxCommandBytes && peer.state = .online && peer.addrSet
        && peer.command.seqOut = 1 && peer.command.held.isEmpty
        && hearsSeven transport (transport.nextCommand ⟨0, 0⟩ peer [7])

/-- The stranger links up. -/
def linksUp : Bool :=
  leaves (step default (initial strangerIdentity) acknowledges) fun linked _ => commandsSeven linked

theorem linksUp_true : linksUp = true := by
  rw [linksUp, acknowledges, step_datagram rfl rfl (by decide) (by decide)]
  decide +kernel

/-- An end that has linked up seals a command of one byte, and one that has linked up alike takes it in. -/
theorem sealed_session
    : ∃ past begun sent lastSent datagram last,
      Run (step default) (fun _ _ _ => True) (initial strangerIdentity) past begun
      ∧ Run (step default) (Session (anonymousId stranger 0)) begun sent lastSent
      ∧ (∃ addr input, Effect.send (anonymousId stranger 0) addr datagram (some input) ∈ emitted sent)
      ∧ (begun.record (anonymousId stranger 0)).command.seqOut
          + (commandsSubmitted (anonymousId stranger 0) sent).length < 2 ^ 32
      ∧ (∀ number, number ∉ (begun.record (anonymousId stranger 0)).command.held)
      ∧ begun.Continues (anonymousId stranger 0) ⟨⟨0, 0⟩, .datagram stranger datagram 0⟩
      ∧ begun.RelaysCommands (emitted sent) (anonymousId stranger 0) (anonymousId stranger 0)
          ⟨⟨0, 0⟩, .datagram stranger datagram 0⟩
      ∧ step default begun ⟨⟨0, 0⟩, .datagram stranger datagram 0⟩
          = .ok (last, [.command (anonymousId stranger 0) (anonymousId stranger 0) [7]]) := by
  obtain ⟨linked, greeting, acked, shown⟩ := leaves_ok linksUp_true
  obtain ⟨known, any⟩ := Bool.and_eq_true_iff.mp shown
  obtain ⟨peer, found, passes⟩ := (Option.any_eq_true _ _).mp any
  simp only [Bool.and_eq_true, decide_eq_true_eq] at known passes
  obtain ⟨⟨⟨⟨⟨⟨⟨on, ready⟩, within⟩, online⟩, addressed⟩, first⟩, none_⟩, heard⟩ := passes
  have mode : (linked.identity.config.encryptionEnabled && peer.cryptoReady) = true :=
    Bool.and_eq_true_iff.mpr ⟨on, ready⟩
  have record : linked.record (anonymousId stranger 0) = peer := by
    rw [record, Std.TreeMap.getD_eq_getD_getElem?, found, Option.getD_some]
  have finds : linked.findOrCreatePeerByAddr ⟨0, 0⟩ stranger 0 = (linked, anonymousId stranger 0) := by
    simp only [findOrCreatePeerByAddr, known]
  obtain ⟨header, command⟩ : ∃ header, linked.nextCommand ⟨0, 0⟩ peer [7] = header := ⟨_, rfl⟩
  obtain ⟨after, commanded⟩ := @step_sendCommand_online default (anonymousId stranger 0) linked peer [7]
    ⟨0, 0⟩ within found online addressed
  rw [command, sealOf_of_ready mode] at commanded
  obtain ⟨last, outputs, arrived, delivers⟩ := leaves_ok heard
  obtain rfl := of_decide_eq_true delivers
  obtain ⟨sent, posted, single, sending⟩ : ∃ sent,
      Effect.send (anonymousId stranger 0) peer.addr
          (buildWirePacket linked.identity.config.encryptionEnabled peer header [7]) _ ∈ emitted sent
      ∧ (commandsSubmitted (anonymousId stranger 0) sent).length ≤ 1
      ∧ Run (step default) (Session (anonymousId stranger 0)) linked sent after := by
    refine ⟨_, ?_, ?_, Run.next .start ⟨rfl, ?_⟩ commanded⟩
    · rw [emitted_append, emitted_singleton]
      exact List.mem_append_right _ List.mem_cons_self
    · simp only [commandsSubmitted, commandsBy, List.nil_append, List.flatMap_cons, List.flatMap_nil,
        List.append_nil]
      split <;> simp
    · rintro header payload ⟨source, bytes, draw, received, body, event, -⟩
      cases event
  refine ⟨_, linked, sent, after, _, last, Run.next .start trivial acked, sending,
    ⟨_, _, posted⟩, ?_, ?_, ⟨rfl, ?_⟩, ?_, ?_⟩
  · rw [record, first]
    omega
  · rw [record]
    exact Std.TreeMap.isEmpty_iff_forall_not_mem.mp none_
  · rintro other payload ⟨source, bytes, draw, received, body, event, -, shown, opens⟩
    obtain ⟨-, rfl, -⟩ := Event.datagram.inj event
    have kind := Link.type_of_openPayload opens
    have decoded := @decode_take_buildWirePacket linked.identity.config.encryptionEnabled peer header [7]
      (by rw [← command]; rfl) (by rw [← command]; rfl) (by rw [← command]; rfl) (by decide)
    obtain ⟨rfl, -⟩ := Prod.mk.inj (Option.some.inj (decoded.symm.trans shown))
    rw [Link.startsOver, kind, mode, ← command]
    rfl
  · intro source bytes draw received body event key _ _
    obtain ⟨rfl, rfl, rfl⟩ := Event.datagram.inj event
    refine ⟨peer.addr, _, posted, fun input sealed _ => ?_⟩
    cases sealed
    rw [finds, record]
  · rw [← arrived, command]
    exact step_wire (by rw [← command]; rfl) (by rw [← command]; rfl) (by rw [← command]; exact (by decide : (0 : UInt16) < kFlagEncrypted))
      (by rw [← command]; rfl) (by decide) finds found fun _ => ⟨ready, rfl⟩

/-- The command arrives. -/
theorem commands_delivered_in_order_sealed
    : ∃ past begun sent lastSent received lastReceived,
      Run (step default) (fun _ _ _ => True) (initial strangerIdentity) past begun
      ∧ Run (step default) (Session (anonymousId stranger 0)) begun sent lastSent
      ∧ (∃ addr datagram input,
          Effect.send (anonymousId stranger 0) addr datagram (some input) ∈ emitted sent)
      ∧ Run (step default) (Listens (emitted sent) (anonymousId stranger 0) (anonymousId stranger 0))
          begun received lastReceived
      ∧ commandsDelivered (anonymousId stranger 0) received = [[7]]
      ∧ (commandsDelivered (anonymousId stranger 0) received).Sublist
          (commandsSubmitted (anonymousId stranger 0) sent) := by
  obtain ⟨past, begun, sent, lastSent, datagram, last, reached, sending, ⟨addr, input, posted⟩, room,
    idle, continues, relays, arrived⟩ := sealed_session
  have receiving : Run (step default)
      (Listens (emitted sent) (anonymousId stranger 0) (anonymousId stranger 0)) begun _ last :=
    Run.next .start ⟨continues, relays⟩ arrived
  refine ⟨past, begun, sent, lastSent, _, last, reached, sending, ⟨addr, datagram, input, posted⟩,
    receiving, ?_, ?_⟩
  · simp [commandsDelivered, commandsFor, Effect.owner, Effect.command?]
  · exact commands_delivered_in_order (by decide) reached sending room idle receiving

end Transport

end Creek.Tight
