import Creek.Proofs.Tight.Authentication
import Creek.Proofs.Tight.NonceReuse

/-! What touches the command channel of a record: an accepted handshake and the acknowledgement of one start
it again, a command and the check for gaps move its receiving side, a caller its sending side, and all
else leaves it alone.
-/

namespace Creek.Tight

open Library

/-- The payload that an effect hands to the command callback. -/
def Effect.command? : Effect → Option Bytes
  | .command _ _ payload => some payload
  | _ => none

namespace Link

variable {numerics : Numerics} {identity : Identity} {moment : Moment} {header : PacketHeader}
  {payload : Bytes} {link middle after : Link}

/-- The commands a link has handed over. -/
def commands (link : Link) : List Bytes := link.effects.filterMap Effect.command?

/-- A step that neither touches the command channel nor hands a command over. -/
structure Still (link after : Link) : Prop where
  channel : after.peer.command = link.peer.command
  handed : after.commands = link.commands

theorem Still.trans (first : Still link middle) (second : Still middle after) : Still link after where
  channel := second.channel.trans first.channel
  handed := second.handed.trans first.handed

theorem commands_eq : link.commands = link.deliveries.filterMap Effect.command? := by
  rw [deliveries, List.filterMap_filter]
  refine List.filterMap_congr fun effect _ => ?_
  cases effect <;> rfl

theorem still_of_deliveries (channel : after.peer.command = link.peer.command)
    (deliveries : after.deliveries = link.deliveries)
    : Still link after :=
  ⟨channel, by rw [commands_eq, commands_eq, deliveries]⟩

-- Sending

theorem still_sendRaw (datagram : Bytes) (sealed : Option Seal)
    : Still link (link.sendRaw datagram sealed) := by
  refine still_of_deliveries ?_ (congrArg View.deliveries (sendRaw_view_sealed datagram sealed))
  rw [sendRaw_peer]

theorem still_sendControl (type : PacketType) (ackable : Bool)
    : Still link (link.sendControl identity moment type payload ackable) := by
  refine still_of_deliveries ?_ (congrArg View.deliveries (sendControl_view type payload ackable))
  rw [sendControl_peer]
  split <;> rfl

theorem still_sendHandshake : Still link (link.sendHandshake identity moment) :=
  (⟨rfl, rfl⟩ : Still link
    { link with peer := { link.peer with lastHandshakeSent := moment.now } }).trans
      (still_sendControl _ _)

/-- Whether a packet starts the command channel again. -/
def startsOver (identity : Identity) (header : PacketHeader) (payload : Bytes) : Bool :=
  header.type = PacketType.handshakeAck.code
  || header.type = PacketType.handshake.code
    && (parseHandshake identity.config.encryptionEnabled payload).any fun contents =>
        contents.token = identity.config.token

/-- A handshake that is not accepted leaves the channel alone. -/
theorem handleHandshake_command
    (refused : ((parseHandshake identity.config.encryptionEnabled payload).any fun contents =>
      contents.token = identity.config.token) = false)
    : (link.handleHandshake identity moment header payload).peer.command = link.peer.command := by
  unfold handleHandshake
  split
  · rfl
  · rename_i contents parsed
    rw [parsed, Option.any_some, decide_eq_false_iff_not] at refused
    dsimp only
    rw [if_neg refused, adoptRetransmit_peer]

theorem handleReport_command
    : (link.handleReport identity moment header payload).peer.command = link.peer.command := by
  obtain ⟨ratio, pending, handled⟩ := @reportHandle_peer payload link.peer moment.now
  rw [handleReport_peer, handled]

theorem still_handleData (handled : link.handleData numerics identity moment header payload = .ok after)
    : Still link after := by
  obtain ⟨peer, delivered, collected, rfl, view⟩ := handleData_eq handled
  obtain ⟨late, collection, same⟩ := reassemblerHandleData_peer collected
  refine ⟨by rw [same], ?_⟩
  have deliveries : after.deliveries
      = link.deliveries ++ delivered.toList.map (.message link.key after.peer.id) :=
    congrArg View.deliveries view
  rw [commands_eq, deliveries, List.filterMap_append, ← commands_eq]
  cases delivered <;> simp [Effect.command?]

theorem still_dispatch (continues : startsOver identity header payload = false)
    (other : header.type ≠ PacketType.command.code)
    (dispatched : link.dispatch numerics identity moment header payload = .ok after)
    : Still link after := by
  by_cases carries : carriesFragment header.type
  · have handled : link.handleData numerics identity moment header payload = .ok after := by
      rcases carries with data | parity
      · simpa only [dispatch, data, PacketType.ofCode?_code] using dispatched
      · simpa only [dispatch, parity, PacketType.ofCode?_code] using dispatched
    exact still_handleData handled
  · have control : carriesUserData header.type = false := by
      simp only [carriesFragment, not_or] at carries
      simp [carriesUserData, carries.1, carries.2, other]
    refine still_of_deliveries ?_ (dispatch_deliveries control dispatched)
    simp only [startsOver, Bool.or_eq_false_iff, Bool.and_eq_false_imp, decide_eq_false_iff_not,
      decide_eq_true_eq] at continues
    unfold dispatch at dispatched
    split at dispatched
    · rename_i kind
      cases dispatched
      rw [sendAckPacket_peer]
      exact handleHandshake_command (continues.2 (PacketType.code_of_ofCode? kind))
    · rename_i kind
      exact absurd (PacketType.code_of_ofCode? kind) continues.1
    · cases dispatched
      rw [sendAckPacket_peer, handleOnline_peer]
    · cases dispatched
      obtain ⟨rtt, clock, handled⟩ := @handleHeartbeat_peer moment header payload link
      rw [handled]
    · cases dispatched
      rw [handleBye_peer]
    · exact (still_handleData dispatched).channel
    · exact (still_handleData dispatched).channel
    · cases dispatched
      obtain ⟨pending, clock, handled, -⟩ := @handleAck_peer moment header link
      rw [handled]
    · cases dispatched
      exact handleReport_command
    · cases dispatched
      rfl
    · rename_i kind
      exact absurd (PacketType.code_of_ofCode? kind) other
    · cases dispatched
      rfl

-- The reactor and the callers

theorem still_sendHandshakes : Still link (link.sendHandshakes identity moment) := by
  unfold sendHandshakes
  split
  · exact ⟨rfl, rfl⟩
  · dsimp only
    split
    · exact ⟨rfl, rfl⟩
    · have dropped : Still link {
          link with
          peer := {
            link.peer with
            pending :=
              link.peer.pending.filter fun _ entry => entry.header.type ≠ PacketType.handshake.code
          }
        } :=
        ⟨rfl, rfl⟩
      exact (dropped.trans still_sendHandshake).trans ⟨rfl, rfl⟩

theorem still_sendHeartbeats : Still link (link.sendHeartbeats identity moment) := by
  unfold sendHeartbeats
  split
  · exact ⟨rfl, rfl⟩
  · split
    · exact ⟨rfl, rfl⟩
    · exact (still_sendControl _ _).trans ⟨rfl, rfl⟩

theorem still_sendReports : Still link (link.sendReports numerics identity moment) := by
  unfold sendReports
  split
  · exact ⟨rfl, rfl⟩
  · split
    · exact ⟨rfl, rfl⟩
    · have built : Still link {
          link with
          peer :=
            (Report.buildPayload numerics link.peer identity.config.reportInterval moment.now).1
        } :=
        ⟨rfl, rfl⟩
      exact (built.trans (still_sendRaw _ _)).trans ⟨rfl, rfl⟩

theorem still_checkOffline : Still link (link.checkOffline identity moment) := by
  have announced (peer : Peer) (same : peer.command = link.peer.command) (state : LinkState)
      : Still link (Link.firePeerEvent { link with peer := peer } state) :=
    still_of_deliveries same (congrArg View.deliveries (firePeerEvent_view state))
  unfold checkOffline
  dsimp only
  split
  · exact ⟨rfl, rfl⟩
  · split
    · exact ⟨rfl, rfl⟩
    · split
      · refine (announced _ ?_ _).trans ⟨rfl, rfl⟩
        rfl
      · refine announced _ ?_ _
        rfl

theorem still_sendDataPacket (call : FragmentCall)
    : Still link (link.sendDataPacket identity moment call) := by
  unfold sendDataPacket
  dsimp only
  split
  · split
    · refine Still.trans ?_ (still_sendRaw _ _)
      exact ⟨rfl, rfl⟩
    · refine Still.trans ?_ (still_sendRaw _ _)
      exact ⟨rfl, rfl⟩
  · exact still_sendRaw _ _

theorem commands_foldl (ready : List Bytes) (link : Link)
    : (ready.foldl fireCommand link).commands = link.commands ++ ready := by
  have deliveries : (ready.foldl fireCommand link).deliveries
      = link.deliveries ++ ready.map (.command link.key link.peer.id) :=
    congrArg View.deliveries (foldl_fireCommand ready).2
  rw [commands_eq, deliveries, List.filterMap_append, ← commands_eq, List.filterMap_map]
  congr 1
  exact List.filterMap_some

theorem handleCommand_commands
    : (link.handleCommand moment header payload).commands
      = link.commands
        ++ (CommandChannel.handle link.peer.command header payload (u32 link.rttUs) moment.now).2 := by
  simp only [handleCommand]
  rw [commands_foldl]
  rfl

theorem flushCommands_peer
    : (link.flushCommands moment).peer = {
        link.peer with
        command :=
          (CommandChannel.flushExpired link.peer.command (u32 link.rttUs) moment.now).1
      } := by
  simp only [flushCommands]
  exact (foldl_fireCommand _).1

theorem flushCommands_commands
    : (link.flushCommands moment).commands
      = link.commands
        ++ (CommandChannel.flushExpired link.peer.command (u32 link.rttUs) moment.now).2 := by
  simp only [flushCommands]
  rw [commands_foldl]
  rfl

theorem sendCommand_channel
    : (link.sendCommand identity moment payload).peer.command
        = (if link.peer.state = .online then
            { link.peer.command with seqOut := u32 (link.peer.command.seqOut + 1) }
          else link.peer.command)
      ∧ (link.sendCommand identity moment payload).commands = link.commands := by
  unfold sendCommand
  by_cases online : link.peer.state = .online
  · rw [if_pos online, if_neg (not_not_intro online)]
    exact ⟨congrArg Peer.command (sendWire_peer _ _), (still_sendRaw _ _).handed⟩
  · rw [if_neg online, if_pos online]
    exact ⟨rfl, rfl⟩

end Link

-- One step

namespace Transport

variable {numerics : Numerics} {key other : Bytes} {transport inner after : Transport}
  {occurrence : Occurrence} {outputs : List Effect}

/-- The commands that effects hand over for a record. -/
def commandsFor (key : Bytes) (effects : List Effect) : List Bytes :=
  (effects.filter fun effect => effect.owner = key).filterMap Effect.command?

/-- The payloads that a step accepts as commands for a record. -/
def commandsBy (key : Bytes) (transport : Transport) (event : Event) : List Bytes :=
  match event with
  | .sendCommand peerId payload =>
      if payload.length ≤ transport.maxCommandBytes ∧ transport.findPeer peerId = some key
        ∧ (transport.record key).state = .online
      then [payload]
      else []
  | _ => []

/-- A packet that arrives on a record, as it is opened. -/
def Arrives (key : Bytes) (transport : Transport) (occurrence : Occurrence) (header : PacketHeader)
    (payload : Bytes)
    : Prop :=
  ∃ source bytes draw received body, occurrence.event = .datagram source bytes draw
    ∧ (transport.findOrCreatePeerByAddr occurrence.moment source draw).2 = key
    ∧ PacketCodec.decode (bytes.take 2048) = some (received, body)
    ∧ openPayload ((transport.findOrCreatePeerByAddr occurrence.moment source draw).1.record key)
        received body = some (header, payload)

/-- A step after which a record is the same one, and has not started its command channel again. -/
structure Continues (key : Bytes) (transport : Transport) (occurrence : Occurrence) : Prop where
  stays : removes key transport occurrence.event = false
  session : ∀ header payload, transport.Arrives key occurrence header payload
    → Link.startsOver transport.identity header payload = false

/-- What a step does with the command channel of a record, and the commands it hands over. -/
inductive Turn (key : Bytes) (transport : Transport) (occurrence : Occurrence) (channel : CommandState)
    : CommandState → List Bytes → Prop
  | quiet (idle : commandsBy key transport occurrence.event = [])
      : Turn key transport occurrence channel channel []
  | numbers {payload : Bytes} (accepted : commandsBy key transport occurrence.event = [payload])
      : Turn key transport occurrence channel
          { channel with seqOut := u32 (channel.seqOut + 1) } []
  | arrives {header : PacketHeader} {payload : Bytes} (rttUs : Nat)
      (idle : commandsBy key transport occurrence.event = [])
      (came : transport.Arrives key occurrence header payload)
      (command : header.type = PacketType.command.code)
      : Turn key transport occurrence channel
          (CommandChannel.handle channel header payload rttUs occurrence.moment.now).1
          (CommandChannel.handle channel header payload rttUs occurrence.moment.now).2
  | checks (rttUs : Nat) (idle : commandsBy key transport occurrence.event = [])
      : Turn key transport occurrence channel
          (CommandChannel.flushExpired channel rttUs occurrence.moment.now).1
          (CommandChannel.flushExpired channel rttUs occurrence.moment.now).2

/-- Effects of another record hand nothing over for this one. -/
theorem commandsFor_eq_nil {effects : List Effect} (others : ∀ effect ∈ effects, effect.owner ≠ key)
    : commandsFor key effects = [] := by
  rw [commandsFor, List.filter_eq_nil_iff.mpr]
  · rfl
  · intro effect member
    simpa using others effect member

/-- A handler takes the turn of its record, and none elsewhere. -/
theorem turn_visit {body : Link → Except Fault Link}
    (channel : (inner.record key).command = (transport.record key).command)
    (visits : Visits key other body inner after outputs)
    (elsewhere : inner.peers[key]? = none ∨ other ≠ key
      → commandsBy key transport occurrence.event = [])
    (turns : ∀ next, other = key
      → body { key := key, peer := inner.record key, rttUs := inner.rttUs } = .ok next
      → Turn key transport occurrence (inner.record key).command next.peer.command next.commands)
    : Turn key transport occurrence (transport.record key).command (after.record key).command
        (commandsFor key outputs) := by
  rw [← channel]
  cases visits with
  | absent found =>
      refine .quiet (elsewhere ?_)
      by_cases same : other = key
      · exact .inl (same ▸ found)
      · exact .inr same
  | @here next same ran owned changed =>
      have mine : next.effects.filter (fun effect => effect.owner = key) = next.effects :=
        List.filter_eq_self.mpr fun effect member => decide_eq_true (owned effect member)
      rw [changed, commandsFor, mine]
      exact turns next same ran
  | @elsewhere next apart others unchanged =>
      rw [unchanged, commandsFor_eq_nil others]
      exact .quiet (elsewhere (.inr apart))

/-- A handler that leaves the channel alone lets its record rest. -/
theorem turn_still {body : Link → Link}
    (channel : (inner.record key).command = (transport.record key).command)
    (visits : Visits key other (fun link => .ok (body link)) inner after outputs)
    (idle : commandsBy key transport occurrence.event = [])
    (still : ∀ link, Link.Still link (body link))
    : Turn key transport occurrence (transport.record key).command (after.record key).command
        (commandsFor key outputs) := by
  refine turn_visit channel visits (fun _ => idle) fun next _ ran => ?_
  cases ran
  obtain ⟨same, handed⟩ := still { key := key, peer := inner.record key, rttUs := inner.rttUs }
  rw [same, handed]
  exact .quiet idle

theorem findOrCreatePeerByAddr_command (transport : Transport) (moment : Moment) (source : AddrKey)
    (draw : Nat) (key : Bytes)
    : ((transport.findOrCreatePeerByAddr moment source draw).1.record key).command
      = (transport.record key).command := by
  unfold Transport.findOrCreatePeerByAddr
  split
  · rfl
  · refine (congrArg Peer.command (record_insert rfl)).trans ?_
    split
    · rename_i same
      rw [← same]
      rfl
    · rfl

/-- A connection that does not remove a record leaves its channel. -/
theorem addPeer_command {moment : Moment} {remoteId : Bytes} {addr : AddrKey}
    (stays : removes key transport (.connect remoteId addr) = false)
    : ((transport.addPeer moment remoteId addr).record key).command
      = (transport.record key).command := by
  have kept : transport.replaced remoteId addr ≠ some key := of_decide_eq_false stays
  have inserted (base : Transport) (peer : Peer)
      (same : peer.command = (base.record remoteId).command)
      : ((if remoteId = key then peer else base.record key) : Peer).command
        = (base.record key).command := by
    split
    · rename_i here
      rw [same, here]
    · rfl
  unfold Transport.addPeer
  rcases removed : transport.replaced remoteId addr with - | gone
  · refine (congrArg Peer.command (record_insert rfl)).trans ?_
    exact inserted transport _ rfl
  · have differs : gone ≠ key := fun same => kept (same ▸ removed)
    have stayed : (transport.removePeer gone).record key = transport.record key :=
      record_removePeer differs
    rw [← stayed]
    refine (congrArg Peer.command (record_insert rfl)).trans ?_
    exact inserted (transport.removePeer gone) _ rfl

/-- A step takes one turn on the command channel of a record that it does not start again. -/
theorem step_turn (continues : transport.Continues key occurrence)
    (taken : step numerics transport occurrence = .ok (after, outputs))
    : Turn key transport occurrence (transport.record key).command (after.record key).command
        (commandsFor key outputs) := by
  rcases occurrence with ⟨moment, event⟩
  cases steps_of_ok key taken with
  | connect visits =>
      exact turn_still (addPeer_command continues.stays) visits rfl fun link => Link.still_sendHandshake
  | undecoded | drained => exact .quiet rfl
  | @datagram _ _ source bytes body draw received decoded visits =>
      refine turn_visit (findOrCreatePeerByAddr_command transport moment source draw key) visits
        (fun _ => rfl) ?_
      intro next same ran
      unfold Link.handlePacket at ran
      dsimp only at ran
      split at ran
      · cases ran
        exact .quiet rfl
      · rename_i header payload opened
        have came : transport.Arrives key ⟨moment, .datagram source bytes draw⟩ header payload :=
          ⟨source, bytes, draw, received, body, rfl, same, decoded, opened⟩
        by_cases command : header.type = PacketType.command.code
        · simp only [Link.dispatch, command, PacketType.ofCode?_code] at ran
          cases ran
          rw [Link.handleCommand_peer, Link.handleCommand_commands]
          exact .arrives _ rfl came command
        · have session := continues.session header payload came
          rw [findOrCreatePeerByAddr_identity] at ran
          obtain ⟨channel, handed⟩ := Link.still_dispatch session command ran
          rw [channel, handed]
          exact .quiet rfl
  | refused refused =>
      refine .quiet (if_neg fun holds => ?_)
      rw [refused holds.1] at holds
      cases holds.2.1
  | @sendCommand _ _ on peerId payload short found visits =>
      refine turn_visit rfl visits ?_ ?_
      · rintro (absent | differs)
        · refine if_neg fun holds => ?_
          have online := holds.2.2
          rw [record, Std.TreeMap.getD_eq_getD_getElem?, absent] at online
          cases online
        · refine if_neg fun holds => ?_
          exact differs (Option.some.inj (found.symm.trans holds.2.1))
      · intro next same ran
        cases ran
        subst same
        obtain ⟨channel, handed⟩ := @Link.sendCommand_channel transport.identity moment payload
          { key := on, peer := transport.record on, rttUs := transport.rttUs }
        rw [channel, handed]
        by_cases online : (transport.record on).state = .online
        · rw [if_pos online]
          exact .numbers (if_pos ⟨short, found, online⟩)
        · rw [if_neg online]
          exact .quiet (if_neg fun holds => online holds.2.2)
  | @processSend peerId payload =>
      rw [record_queueMessage transport key peerId payload]
      exact .quiet rfl
  | encode =>
      obtain ⟨msgIdOut, same⟩ := record_encodeNext numerics transport key
      rw [same]
      exact .quiet rfl
  | @fragment _ _ on call rest queue visits =>
      have popped : (({ transport with encoding := rest } : Transport).record key).command
          = (transport.record key).command :=
        rfl
      exact turn_still popped visits rfl fun link => Link.still_sendDataPacket call
  | sendHandshakes visits => exact turn_still rfl visits rfl fun link => Link.still_sendHandshakes
  | sendHeartbeats visits => exact turn_still rfl visits rfl fun link => Link.still_sendHeartbeats
  | sendReports visits => exact turn_still rfl visits rfl fun link => Link.still_sendReports
  | checkOffline visits => exact turn_still rfl visits rfl fun link => Link.still_checkOffline
  | flushCommands visits =>
      refine turn_visit rfl visits (fun _ => rfl) fun next _ ran => ?_
      cases ran
      rw [Link.flushCommands_peer, Link.flushCommands_commands]
      exact .checks _ rfl

end Transport

end Creek.Tight
