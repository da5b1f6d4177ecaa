import Creek.Proofs.Tight.CommandDelivery
import Creek.Proofs.Tight.CommandFrames
import Creek.Proofs.Tight.SentMessages

/-! What a record has sent as commands. From one start of its command channel to the next, every command that
leaves for a peer is one that a caller has submitted for it, under the number of its turn.
-/

namespace Creek.Tight

open Library

namespace CommandChannel

theorem flushExpired_seqOut (channel : CommandState) (rttUs : Nat) (now : TimePoint)
    : (flushExpired channel rttUs now).1.seqOut = channel.seqOut :=
  (expireLocked_frame channel rttUs now []).2

theorem handle_seqOut (channel : CommandState) (header : PacketHeader) (payload : Bytes) (rttUs : Nat)
    (now : TimePoint)
    : (handle channel header payload rttUs now).1.seqOut = channel.seqOut := by
  have started_ : (started channel header.sequence.toNat).seqOut = channel.seqOut := by
    rw [started]
    split <;> rfl
  rcases Nat.eq_zero_or_pos header.sequence.toNat with zero | positive
  · rw [handle, if_pos zero]
  · rcases Nat.lt_trichotomy header.sequence.toNat
        (started channel header.sequence.toNat).nextExpected with late | expected | ahead
    · rw [handle_late payload rttUs now rfl positive late, started_]
    · rw [handle_expected rfl positive expected, (drainLocked_frame _ _).2, started_]
    · rw [handle_ahead payload rttUs now rfl ahead, (expireLocked_frame _ _ _ _).2]
      exact started_

end CommandChannel

/-- The packet of a command under its number. -/
structure CarriesCommand (number : Nat) (command : Bytes) (header : PacketHeader) (payload : Bytes)
    : Prop where
  payload : payload = command
  sequence : header.sequence = UInt32.ofNat number
  size : header.payloadSize = UInt16.ofNat command.length
  flags : header.flags = 0

/-- A packet with a command carries one of these, numbered from a base on. -/
def fromCommands (base : Nat) (commands : List Bytes) (header : PacketHeader) (payload : Bytes)
    : Prop :=
  header.type = PacketType.command.code → ∃ n command, commands[n]? = some command
    ∧ CarriesCommand (base + n) command header payload

/-- A packet without a command. -/
def noCommand (header : PacketHeader) (_payload : Bytes) : Prop :=
  header.type ≠ PacketType.command.code

theorem fromCommands_of_noCommand {base : Nat} {commands : List Bytes} (header : PacketHeader)
    (payload : Bytes) (other : noCommand header payload)
    : fromCommands base commands header payload :=
  fun command => absurd command other

theorem fromCommands_append {base : Nat} {commands : List Bytes} (more : List Bytes)
    (header : PacketHeader) (payload : Bytes) (known : fromCommands base commands header payload)
    : fromCommands base (commands ++ more) header payload := by
  intro command
  obtain ⟨n, sent, stored, carried⟩ := known command
  refine ⟨n, sent, ?_, carried⟩
  rw [List.getElem?_append_left (List.getElem?_eq_some_iff.mp stored).1]
  exact stored

theorem fromCommands_next {base : Nat} {commands : List Bytes} (earlier : List Bytes)
    (header : PacketHeader) (payload : Bytes)
    (known : fromCommands (base + earlier.length) commands header payload)
    : fromCommands base (earlier ++ commands) header payload := by
  intro command
  obtain ⟨n, sent, stored, carried⟩ := known command
  refine ⟨earlier.length + n, sent, ?_, Nat.add_assoc base earlier.length n ▸ carried⟩
  rw [List.getElem?_append_right (Nat.le_add_right _ _), Nat.add_sub_cancel_left]
  exact stored

theorem noCommand_of_type {type : UInt8} (other : type ≠ PacketType.command.code)
    (header : PacketHeader) (payload : Bytes) (same : header.type = type)
    : noCommand header payload :=
  fun command => other (same.symm.trans command)

theorem apart_noCommand : Link.Apart noCommand where
  handshake := noCommand_of_type (by decide)
  handshakeAck := noCommand_of_type (by decide)
  online := noCommand_of_type (by decide)

theorem noCommand_fragmentHeader (identity : Identity) (moment : Moment) (peer : Peer)
    (call : FragmentCall) (payload : Bytes)
    : noCommand (Link.fragmentHeader identity moment peer call) payload := by
  have kind : (Link.fragmentHeader identity moment peer call).type = call.header.type := by
    unfold Link.fragmentHeader
    dsimp only
    split <;> rfl
  rw [noCommand, kind]
  unfold FragmentCall.header
  dsimp only
  split <;> decide

/-- A command is sealed under the number that it draws, and not kept. -/
theorem Link.sendCommand_sends {identity : Identity} {moment : Moment} {payload : Bytes} {link : Link}
    (kept : ∀ (seq : Nat) (entry : PendingSend), link.peer.pending[seq]? = some entry
      → noCommand entry.header entry.payload)
    (effects : link.effects = [])
    : (∀ (seq : Nat) (entry : PendingSend),
        (link.sendCommand identity moment payload).peer.pending[seq]? = some entry
        → noCommand entry.header entry.payload)
      ∧ ∀ effect ∈ (link.sendCommand identity moment payload).effects,
          effect.Vouched (fromCommands link.peer.command.seqOut [payload]) := by
  unfold Link.sendCommand
  split
  · rw [effects]
    exact ⟨kept, fun effect member => absurd member List.not_mem_nil⟩
  · constructor
    · rw [sendWire_peer]
      exact kept
    · have numbered : Vouched (fromCommands link.peer.command.seqOut [payload]) link.peer.msgIdOut {
          link with
          peer := {
            link.peer with
            command := { link.peer.command with seqOut := u32 (link.peer.command.seqOut + 1) }
          }
        } := by
        refine ⟨rfl, fun seq entry stored => ?_, fun effect member => ?_⟩
        · exact fromCommands_of_noCommand _ _ (kept seq entry stored)
        · rw [effects] at member
          exact absurd member List.not_mem_nil
      refine (numbered.sendWire ?_).effects
      exact fun _ => ⟨0, payload, rfl, rfl, rfl, rfl, rfl⟩

namespace Transport

variable {numerics : Numerics} {identity : Identity} {key other : Bytes} {base : Nat}
  {commands : List Bytes} {posts outputs : List Effect} {transport inner after : Transport}

/-- No command waits for an acknowledgement on a record. -/
def KeepsNoCommand (key : Bytes) (transport : Transport) : Prop :=
  ∀ (seq : Nat) (entry : PendingSend), (transport.record key).pending[seq]? = some entry
    → noCommand entry.header entry.payload

theorem keepsNoCommand_initial (identity : Identity) (key : Bytes)
    : KeepsNoCommand key (initial identity) := by
  intro seq entry stored
  rw [record, initial, Std.TreeMap.getD_emptyc, Std.TreeMap.getElem?_emptyc] at stored
  cases stored

theorem KeepsNoCommand.of_same (keeps : KeepsNoCommand key transport)
    (pending : (after.record key).pending = (transport.record key).pending)
    : KeepsNoCommand key after :=
  fun seq entry stored => keeps seq entry (pending ▸ stored)

theorem KeepsNoCommand.visit {known : PacketHeader → Bytes → Prop} {body : Link → Except Fault Link}
    (keeps : KeepsNoCommand key inner) (visits : Visits key other body inner after outputs)
    (sends : ∀ next, other = key
      → body { key := key, peer := inner.record key, rttUs := inner.rttUs } = .ok next
      → (∀ (seq : Nat) (entry : PendingSend), next.peer.pending[seq]? = some entry
          → noCommand entry.header entry.payload)
        ∧ ∀ effect ∈ next.effects, effect.Vouched known)
    : KeepsNoCommand key after
      ∧ ∀ effect ∈ outputs, effect.owner = key → effect.Vouched known := by
  cases visits with
  | absent => exact ⟨keeps, fun effect member => absurd member List.not_mem_nil⟩
  | @here next same ran owned changed =>
      obtain ⟨kept, vouched⟩ := sends next same ran
      refine ⟨?_, fun effect member _ => vouched effect member⟩
      rw [KeepsNoCommand, changed]
      exact kept
  | @elsewhere next apart others unchanged =>
      refine ⟨keeps.of_same (congrArg Peer.pending unchanged), fun effect member owner => ?_⟩
      exact absurd owner (others effect member)

/-- A record that is updated elsewhere, or is new, keeps no command. -/
theorem KeepsNoCommand.insert (keeps : KeepsNoCommand key transport) {peer : Peer}
    (table : after.peers = transport.peers.insert other peer)
    (pending : peer.pending = (transport.record other).pending)
    : KeepsNoCommand key after := by
  have changed : after.record key = if other = key then peer else transport.record key :=
    record_insert table
  refine keeps.of_same ?_
  rw [changed]
  split
  · rename_i same
    rw [pending, same]
  · rfl

theorem KeepsNoCommand.findOrCreatePeerByAddr (keeps : KeepsNoCommand key transport) (moment : Moment)
    (source : AddrKey) (draw : Nat)
    : KeepsNoCommand key (transport.findOrCreatePeerByAddr moment source draw).1 := by
  unfold Transport.findOrCreatePeerByAddr
  split
  · exact keeps
  · exact keeps.insert rfl rfl

theorem KeepsNoCommand.removePeer (keeps : KeepsNoCommand key transport) (gone : Bytes)
    : KeepsNoCommand key (transport.removePeer gone) := by
  by_cases same : gone = key
  · subst same
    intro seq entry stored
    rw [record, Transport.removePeer, Std.TreeMap.getD_erase_self, Std.TreeMap.getElem?_emptyc] at stored
    cases stored
  · exact keeps.of_same (by rw [record_removePeer same])

theorem KeepsNoCommand.addPeer (keeps : KeepsNoCommand key transport) (moment : Moment)
    (remoteId : Bytes) (addr : AddrKey)
    : KeepsNoCommand key (transport.addPeer moment remoteId addr) := by
  unfold Transport.addPeer
  rcases transport.replaced remoteId addr with - | gone
  · exact keeps.insert rfl rfl
  · exact (keeps.removePeer gone).insert rfl rfl

/-- No step keeps a command, and what it sends carries the command that it accepts. -/
theorem KeepsNoCommand.step {occurrence : Occurrence} (keeps : KeepsNoCommand key transport)
    (taken : step numerics transport occurrence = .ok (after, outputs))
    : KeepsNoCommand key after
      ∧ ∀ effect ∈ outputs, effect.owner = key → effect.Vouched
          (fromCommands (transport.record key).command.seqOut
            (commandsBy key transport occurrence.event)) := by
  have silent (kept : KeepsNoCommand key after) {known : PacketHeader → Bytes → Prop}
      : KeepsNoCommand key after
        ∧ ∀ effect ∈ ([] : List Effect), effect.owner = key → effect.Vouched known :=
    ⟨kept, fun effect member => absurd member List.not_mem_nil⟩
  have vouches {body : Link → Except Fault Link} {on : Bytes} {inner : Transport}
      {known : PacketHeader → Bytes → Prop} (start : KeepsNoCommand key inner)
      (visits : Visits key on body inner after outputs)
      (implied : ∀ header payload, noCommand header payload → known header payload)
      (vouched : ∀ (link next : Link), link.Vouched noCommand (inner.record key).msgIdOut
        → body link = .ok next
        → next.Vouched noCommand (inner.record key).msgIdOut)
      : KeepsNoCommand key after
        ∧ ∀ effect ∈ outputs, effect.owner = key → effect.Vouched known := by
    refine start.visit visits fun next _ ran => ?_
    obtain ⟨-, pending, effects⟩ := vouched
      { key := key, peer := inner.record key, rttUs := inner.rttUs } next
      ⟨rfl, start, fun _ member => absurd member List.not_mem_nil⟩ ran
    exact ⟨pending, fun effect member => (effects effect member).mono implied⟩
  have plain {body : Link → Link} {on : Bytes} {inner : Transport}
      {known : PacketHeader → Bytes → Prop} (start : KeepsNoCommand key inner)
      (visits : Visits key on (fun link => .ok (body link)) inner after outputs)
      (implied : ∀ header payload, noCommand header payload → known header payload)
      (vouched : ∀ link : Link, link.Vouched noCommand (inner.record key).msgIdOut
        → (body link).Vouched noCommand (inner.record key).msgIdOut)
      : KeepsNoCommand key after
        ∧ ∀ effect ∈ outputs, effect.owner = key → effect.Vouched known := by
    refine vouches start visits implied fun link next held ran => ?_
    cases ran
    exact vouched link held
  rcases occurrence with ⟨moment, event⟩
  cases steps_of_ok key taken with
  | @connect _ _ remoteId addr visits =>
      exact plain (keeps.addPeer moment remoteId addr) visits fromCommands_of_noCommand
        fun link vouched => vouched.sendHandshake apart_noCommand
  | undecoded | refused | drained => exact silent keeps
  | @datagram _ _ source bytes payload draw header decoded visits =>
      exact vouches (keeps.findOrCreatePeerByAddr moment source draw) visits fromCommands_of_noCommand
        fun link next held ran => held.handlePacket apart_noCommand ran
  | @sendCommand _ _ on peerId payload short found visits =>
      refine keeps.visit visits fun next same ran => ?_
      subst same
      cases ran
      by_cases online : (transport.record on).state = .online
      · have accepted : commandsBy on transport (.sendCommand peerId payload) = [payload] :=
          if_pos ⟨short, found, online⟩
        rw [accepted]
        exact @Link.sendCommand_sends transport.identity moment payload
          { key := on, peer := transport.record on, rttUs := transport.rttUs } keeps rfl
      · rw [Link.sendCommand, if_pos online]
        exact ⟨keeps, fun _ member => absurd member List.not_mem_nil⟩
  | @processSend peerId payload =>
      exact silent (keeps.of_same (congrArg Peer.pending (record_queueMessage transport key peerId payload)))
  | encode =>
      obtain ⟨msgIdOut, same⟩ := record_encodeNext numerics transport key
      exact silent (keeps.of_same (by rw [same]))
  | @fragment _ _ on call rest queue visits =>
      have popped : KeepsNoCommand key { transport with encoding := rest } := keeps
      exact plain popped visits fromCommands_of_noCommand
        fun link vouched => vouched.sendDataPacket (noCommand_fragmentHeader _ _ _ _ _)
  | sendHandshakes visits =>
      exact plain keeps visits fromCommands_of_noCommand
        fun link vouched => vouched.sendHandshakes apart_noCommand
  | sendHeartbeats visits =>
      exact plain keeps visits fromCommands_of_noCommand fun link vouched => vouched.sendHeartbeats
  | sendReports visits =>
      exact plain keeps visits fromCommands_of_noCommand fun link vouched => vouched.sendReports
  | checkOffline visits =>
      exact plain keeps visits fromCommands_of_noCommand fun link vouched => vouched.checkOffline
  | flushCommands visits =>
      exact plain keeps visits fromCommands_of_noCommand fun link vouched => vouched.flushCommands

-- A session of a record

/-- The commands that a history accepts for a record. -/
def commandsSubmitted (key : Bytes) (history : List (Stage Transport Occurrence Effect))
    : List Bytes :=
  history.flatMap fun stage => commandsBy key stage.before stage.event.event

/-- The steps of a session. -/
def Session (key : Bytes) (_ : List (Stage Transport Occurrence Effect)) (before : Transport)
    (occurrence : Occurrence)
    : Prop :=
  before.Continues key occurrence

/-- The commands of a session are numbered from its first number on, and all that its record has sent as
commands.
-/
structure CommandLedger (identity : Identity) (key : Bytes) (base : Nat) (commands : List Bytes)
    (posts : List Effect) (transport : Transport)
    : Prop where
  accepted : transport.Accepted identity
  keeps : KeepsNoCommand key transport
  counter : (transport.record key).command.seqOut = base + commands.length
  posts : ∀ effect ∈ posts, effect.owner = key → effect.Vouched (fromCommands base commands)
  fits : ∀ command ∈ commands, command.length ≤ identity.config.mtu - kHeaderSize

theorem CommandLedger.step {occurrence : Occurrence}
    (ledger : CommandLedger identity key base commands posts transport)
    (continues : transport.Continues key occurrence)
    (taken : step numerics transport occurrence = .ok (after, outputs))
    (room : base + (commands ++ commandsBy key transport occurrence.event).length < 2 ^ 32)
    : CommandLedger identity key base (commands ++ commandsBy key transport occurrence.event)
        (posts ++ outputs) after := by
  obtain ⟨keeps, sends⟩ := ledger.keeps.step taken
  refine ⟨ledger.accepted.step taken, keeps, ?_, ?_, ?_⟩
  · have counter := ledger.counter
    have turn := step_turn continues taken
    rw [List.length_append] at room ⊢
    generalize (after.record key).command = next at turn ⊢
    generalize commandsFor key outputs = handed at turn
    cases turn with
    | quiet idle => rw [idle, counter, List.length_nil, Nat.add_zero]
    | numbers accepted =>
        rw [accepted, List.length_singleton] at room ⊢
        show u32 ((transport.record key).command.seqOut + 1) = _
        rw [counter, u32, Nat.mod_eq_of_lt (by omega)]
        omega
    | arrives rttUs idle came command =>
        rw [idle, CommandChannel.handle_seqOut, counter, List.length_nil, Nat.add_zero]
    | checks rttUs idle =>
        rw [idle, CommandChannel.flushExpired_seqOut, counter, List.length_nil, Nat.add_zero]
  · intro effect member owner
    rcases List.mem_append.mp member with earlier | last
    · exact (ledger.posts effect earlier owner).mono (fromCommands_append _)
    · have next := sends effect last owner
      rw [ledger.counter] at next
      exact next.mono (fromCommands_next commands)
  · intro command member
    rcases List.mem_append.mp member with earlier | last
    · exact ledger.fits command earlier
    · rcases occurrence with ⟨moment, event⟩
      unfold commandsBy at last
      split at last
      · split at last
        · rename_i _ _ holds
          rw [List.mem_singleton.mp last, ← ledger.accepted.same]
          exact holds.1
        · exact absurd last List.not_mem_nil
      · exact absurd last List.not_mem_nil

/-- The books of a session, from any state that a run reaches. -/
theorem session_ledger {past sent : List (Stage Transport Occurrence Effect)}
    {begun last : Transport}
    (reached : Run (Transport.step numerics) (fun _ _ _ => True) (initial identity) past begun)
    (session : Run (Transport.step numerics) (Session key) begun sent last)
    (room : (begun.record key).command.seqOut + (commandsSubmitted key sent).length < 2 ^ 32)
    : CommandLedger identity key (begun.record key).command.seqOut (commandsSubmitted key sent)
        (emitted sent) last := by
  have started : begun.Accepted identity ∧ KeepsNoCommand key begun := by
    refine reached.invariant (fun _ state => state.Accepted identity ∧ KeepsNoCommand key state)
      ⟨⟨rfl, fun entry member => absurd member List.not_mem_nil⟩, keepsNoCommand_initial identity key⟩
      ?_
    intro _ _ _ _ _ _ held _ taken
    exact ⟨held.1.step taken, (held.2.step taken).1⟩
  refine session.invariant (fun sent last =>
    (begun.record key).command.seqOut + (commandsSubmitted key sent).length < 2 ^ 32
    → CommandLedger identity key (begun.record key).command.seqOut (commandsSubmitted key sent)
        (emitted sent) last) ?_ ?_ room
  · intro _
    exact ⟨started.1, started.2, rfl, fun effect member => absurd member List.not_mem_nil,
      fun command member => absurd member List.not_mem_nil⟩
  · intro history state event after outputs _ kept continues taken room
    have submitted : commandsSubmitted key (history ++ [{ before := state, event, outputs }])
        = commandsSubmitted key history ++ commandsBy key state event.event := by
      simp [commandsSubmitted]
    rw [submitted] at room ⊢
    rw [emitted_append, emitted_singleton]
    refine (kept ?_).step continues taken room
    rw [List.length_append] at room
    omega

end Transport

end Creek.Tight
