import Creek.Proofs.Tight.NonceReuse

/-! What a record has sent. Every fragment that leaves for a peer belongs to a message that a caller has
submitted for it, and no two of these messages share an id.
-/

namespace Creek.Tight

open Library

/-- The packet of a call of the fragment callback, whatever the sender adds to its header. -/
structure CarriedBy (call : FragmentCall) (header : PacketHeader) (payload : Bytes) : Prop where
  header : ∃ clientId sessionId tick sequence,
    header = {
      call.header with
      clientId := clientId
      sessionId := sessionId
      tick := tick
      sequence := sequence
    }
  payload : payload = call.payload

theorem carriedBy_fragmentHeader (identity : Identity) (moment : Moment) (peer : Peer)
    (call : FragmentCall)
    : CarriedBy call (Link.fragmentHeader identity moment peer call) call.payload := by
  refine ⟨?_, rfl⟩
  unfold Link.fragmentHeader
  dsimp only
  split
  · exact ⟨_, _, _, _, rfl⟩
  · exact ⟨_, _, _, call.header.sequence, rfl⟩

/-- A packet with a fragment carries one of these messages. -/
def fromLog (log : List Sending) (header : PacketHeader) (payload : Bytes) : Prop :=
  carriesFragment header.type → ∃ message ∈ log, ∃ call ∈ message.calls, CarriedBy call header payload

theorem fromLog.mono {log longer : List Sending} (known : log ⊆ longer) {header : PacketHeader}
    {payload : Bytes} (logged : fromLog log header payload)
    : fromLog longer header payload := by
  intro carries
  obtain ⟨message, member, call, made, carried⟩ := logged carries
  exact ⟨message, known member, call, made, carried⟩

theorem fromLog_of_other {log : List Sending} {type : UInt8} (other : ¬carriesFragment type)
    (header : PacketHeader) (payload : Bytes) (same : header.type = type)
    : fromLog log header payload :=
  fun carries => absurd (same ▸ carries) other

theorem apart_fromLog (log : List Sending) : Link.Apart (fromLog log) where
  handshake := fromLog_of_other (by decide)
  handshakeAck := fromLog_of_other (by decide)
  online := fromLog_of_other (by decide)

theorem Posted.mono {known wider : PacketHeader → Bytes → Prop}
    (implied : ∀ header payload, known header payload → wider header payload) {datagram : Bytes}
    {sealed : Option Seal} (posted : Posted known datagram sealed)
    : Posted wider datagram sealed := by
  cases posted with
  | control plain => exact .control plain
  | wire holds => exact .wire (implied _ _ holds)

theorem Effect.Vouched.mono {known wider : PacketHeader → Bytes → Prop}
    (implied : ∀ header payload, known header payload → wider header payload) {effect : Effect}
    (vouched : effect.Vouched known)
    : effect.Vouched wider := by
  cases effect with
  | send key addr datagram sealed => exact Posted.mono implied vouched
  | message key id payload => trivial
  | command key id payload => trivial
  | peerEvent key event => trivial

namespace Transport

/-- The payloads that a step submits for a record: what `process_send_queue` accepts for it. -/
def submittedBy (key : Bytes) (transport : Transport) (event : Event) : List Bytes :=
  match event with
  | .processSend peerId payload =>
      if payload.length ≤ transport.identity.maxMessageBytes ∧ transport.findPeer peerId = some key
      then [payload]
      else []
  | _ => []

/-- The messages of a record are split from what was submitted for it, have ids of their own, and are all
that it has queued, kept or sent.
-/
structure Ledger (identity : Identity) (key : Bytes) (messages : Nat) (submitted : List Bytes)
    (posts : List Effect) (log : List Sending) (transport : Transport)
    : Prop where
  same : transport.identity = identity
  counted : 0 < (transport.record key).msgIdOut ∧ (transport.record key).msgIdOut ≤ messages + 1
  pending : ∀ (seq : Nat) (entry : PendingSend), (transport.record key).pending[seq]? = some entry
    → fromLog log entry.header entry.payload
  posts : ∀ effect ∈ posts, effect.owner = key → effect.Vouched (fromLog log)
  drawn : ∀ message ∈ log, message.messageId < (transport.record key).msgIdOut
  distinct : ∀ left ∈ log, ∀ right ∈ log, left.messageId = right.messageId → left = right
  queued : ∀ call ∈ transport.queuedFor key, ∃ message ∈ log, call ∈ message.calls
  split : ∀ message ∈ log, message.mtu = identity.config.mtu ∧ message.payload ∈ submitted
  tasks : ∀ entry ∈ transport.tasks, entry.1 = key → entry.2 ∈ submitted

variable {numerics : Numerics} {identity : Identity} {key other : Bytes} {messages : Nat}
  {submitted : List Bytes} {posts outputs : List Effect} {log : List Sending}
  {transport after : Transport}

theorem ledger_initial (identity : Identity) (key : Bytes)
    : Ledger identity key 0 [] [] [] (initial identity) where
  same := rfl
  counted := ⟨Nat.zero_lt_one, Nat.le_refl _⟩
  pending := by
    intro seq entry stored
    rw [record, initial, Std.TreeMap.getD_emptyc, Std.TreeMap.getElem?_emptyc] at stored
    cases stored
  posts := fun effect member => absurd member List.not_mem_nil
  drawn := fun message member => absurd member List.not_mem_nil
  distinct := fun left member => absurd member List.not_mem_nil
  queued := fun call member => absurd member List.not_mem_nil
  split := fun message member => absurd member List.not_mem_nil
  tasks := fun entry member => absurd member List.not_mem_nil

/-- A change that leaves the pending packets, the message ids and the queues of a record alone. -/
theorem Ledger.of_same (ledger : Ledger identity key messages submitted posts log transport)
    (identical : after.identity = transport.identity)
    (pending : (after.record key).pending = (transport.record key).pending)
    (msgIdOut : (after.record key).msgIdOut = (transport.record key).msgIdOut)
    (queue : after.queuedFor key = transport.queuedFor key) (tasks : after.tasks ⊆ transport.tasks)
    : Ledger identity key messages submitted posts log after where
  same := identical.trans ledger.same
  counted := msgIdOut ▸ ledger.counted
  pending := fun seq entry stored => ledger.pending seq entry (pending ▸ stored)
  posts := ledger.posts
  drawn := msgIdOut ▸ ledger.drawn
  distinct := ledger.distinct
  queued := queue ▸ ledger.queued
  split := ledger.split
  tasks := fun entry member => ledger.tasks entry (tasks member)

theorem Ledger.submit (ledger : Ledger identity key messages submitted posts log transport)
    (more : List Bytes)
    : Ledger identity key messages (submitted ++ more) posts log transport :=
  {
    ledger with
    split := fun message member =>
      ⟨(ledger.split message member).1, List.mem_append_left _ (ledger.split message member).2⟩
    tasks := fun entry member owned => List.mem_append_left _ (ledger.tasks entry member owned)
  }

theorem Ledger.vouched (ledger : Ledger identity key messages submitted posts log transport)
    : Link.Vouched (fromLog log) (transport.record key).msgIdOut
        { key := key, peer := transport.record key, rttUs := transport.rttUs } where
  msgIdOut := rfl
  pending := ledger.pending
  effects := fun _ member => absurd member List.not_mem_nil

/-- A handler at work on a record keeps the books if all it keeps and sends is in them. -/
theorem Ledger.visit {body : Link → Except Fault Link}
    (ledger : Ledger identity key messages submitted posts log transport)
    (visits : Visits key other body transport after outputs)
    (vouched : ∀ next, other = key
      → body { key := key, peer := transport.record key, rttUs := transport.rttUs } = .ok next
      → next.Vouched (fromLog log) (transport.record key).msgIdOut)
    : Ledger identity key messages submitted (posts ++ outputs) log after := by
  cases visits with
  | absent =>
      rw [List.append_nil]
      exact ledger
  | @here next same ran owned changed =>
      have kept := vouched next same ran
      refine { ledger with counted := ?_, pending := ?_, posts := ?_, drawn := ?_ }
      · rw [changed, kept.msgIdOut]
        exact ledger.counted
      · rw [changed]
        exact kept.pending
      · intro effect member owner
        rcases List.mem_append.mp member with earlier | last
        · exact ledger.posts effect earlier owner
        · exact kept.effects effect last
      · rw [changed, kept.msgIdOut]
        exact ledger.drawn
  | @elsewhere next apart others unchanged =>
      have kept : Ledger identity key messages submitted posts log (transport.stored other next) :=
        ledger.of_same rfl (congrArg Peer.pending unchanged) (congrArg Peer.msgIdOut unchanged) rfl
          fun _ member => member
      refine { kept with posts := ?_ }
      intro effect member owner
      rcases List.mem_append.mp member with earlier | last
      · exact ledger.posts effect earlier owner
      · exact absurd owner (others effect last)

-- The table and the queues

/-- A record that is updated elsewhere, or is new, keeps the books. -/
theorem Ledger.insert (ledger : Ledger identity key messages submitted posts log transport)
    {peer : Peer} (identical : after.identity = transport.identity)
    (table : after.peers = transport.peers.insert other peer)
    (pending : peer.pending = (transport.record other).pending)
    (msgIdOut : peer.msgIdOut = (transport.record other).msgIdOut)
    (queue : after.encoding = transport.encoding) (tasks : after.tasks ⊆ transport.tasks)
    : Ledger identity key messages submitted posts log after := by
  have changed : after.record key = if other = key then peer else transport.record key :=
    record_insert table
  have queues : after.queuedFor key = transport.queuedFor key := by rw [queuedFor, queue, queuedFor]
  by_cases same : other = key
  · rw [if_pos same] at changed
    exact ledger.of_same identical (by rw [changed, pending, same]) (by rw [changed, msgIdOut, same])
      queues tasks
  · rw [if_neg same] at changed
    exact ledger.of_same identical (by rw [changed]) (by rw [changed]) queues tasks

theorem Ledger.findOrCreatePeerByAddr
    (ledger : Ledger identity key messages submitted posts log transport) (moment : Moment)
    (source : AddrKey) (draw : Nat)
    : Ledger identity key messages submitted posts log
        (transport.findOrCreatePeerByAddr moment source draw).1 := by
  unfold Transport.findOrCreatePeerByAddr
  split
  · exact ledger
  · exact ledger.insert rfl rfl rfl rfl rfl fun _ member => member

theorem Ledger.removePeer (ledger : Ledger identity key messages submitted posts log transport)
    (differs : other ≠ key)
    : Ledger identity key messages submitted posts log (transport.removePeer other) :=
  ledger.of_same rfl (by rw [record_removePeer differs]) (by rw [record_removePeer differs])
    (queuedFor_removePeer differs) fun _ member => (List.mem_filter.mp member).1

/-- A connection that does not remove the record keeps its books. -/
theorem Ledger.addPeer (ledger : Ledger identity key messages submitted posts log transport)
    (moment : Moment) (remoteId : Bytes) (addr : AddrKey)
    (stays : removes key transport (.connect remoteId addr) = false)
    : Ledger identity key messages submitted posts log (transport.addPeer moment remoteId addr) := by
  have kept : transport.replaced remoteId addr ≠ some key := of_decide_eq_false stays
  unfold Transport.addPeer
  rcases removed : transport.replaced remoteId addr with - | gone
  · exact ledger.insert rfl rfl rfl rfl rfl fun _ member => member
  · have differs : gone ≠ key := fun same => kept (same ▸ removed)
    exact (ledger.removePeer differs).insert rfl rfl rfl rfl rfl fun _ member => member

theorem Ledger.queueMessage (ledger : Ledger identity key messages submitted posts log transport)
    (peerId payload : Bytes)
    : Ledger identity key messages
        (submitted ++ submittedBy key transport (.processSend peerId payload)) posts log
        (transport.queueMessage peerId payload) := by
  have booked := ledger.submit (submittedBy key transport (.processSend peerId payload))
  unfold Transport.queueMessage
  split
  · exact booked
  · rename_i short
    split
    · exact booked
    · rename_i on found
      split
      · refine { booked with tasks := ?_ }
        intro entry member owned
        rcases List.mem_append.mp member with earlier | last
        · exact booked.tasks entry earlier owned
        · rw [List.mem_singleton.mp last] at owned ⊢
          refine List.mem_append_right _ ?_
          rw [submittedBy, if_pos ⟨Nat.le_of_not_lt short, found.trans (congrArg some owned)⟩]
          exact List.mem_cons_self
      · exact booked

theorem Ledger.encodeNext (ledger : Ledger identity key messages submitted posts log transport)
    (few : messages + 1 < 2 ^ 31)
    : ∃ log, Ledger identity key (messages + 1) submitted posts log (transport.encodeNext numerics) := by
  have later : Ledger identity key (messages + 1) submitted posts log transport :=
    { ledger with counted := ⟨ledger.counted.1, Nat.le_succ_of_le ledger.counted.2⟩ }
  unfold Transport.encodeNext
  split
  · rename_i on payload tasks idle queue
    have fewer : tasks ⊆ transport.tasks := by
      rw [queue]
      exact fun task member => List.mem_cons_of_mem _ member
    split
    · exact ⟨log, later.of_same rfl rfl rfl rfl fewer⟩
    · rename_i peer found
      dsimp only
      have mine : transport.queuedFor key = [] := by
        rw [queuedFor, idle]
        rfl
      by_cases same : on = key
      · subst same
        have here : transport.record on = peer := record_of_found found
        obtain ⟨positive, bound⟩ := ledger.counted
        rw [here] at positive bound
        let message : Sending := ⟨numerics, peer, payload, transport.identity.config.mtu,
          transport.scratch⟩
        have drawn : Fragmenter.nextMsgId peer.msgIdOut = (peer.msgIdOut, peer.msgIdOut + 1) :=
          nextMsgId_eq positive (by omega)
        have number : message.messageId = peer.msgIdOut := congrArg Prod.fst drawn
        have counter : (Fragmenter.fragmentAndSend numerics peer payload
            transport.identity.config.mtu transport.scratch).msgIdOut = peer.msgIdOut + 1 :=
          congrArg Prod.snd drawn
        have changed (rest : List (Bytes × FragmentCall)) (scratch : List Bytes) : (({
            transport with
            peers := transport.peers.insert on { peer with msgIdOut := peer.msgIdOut + 1 }
            tasks := tasks
            encoding := rest
            scratch := scratch
          } : Transport).record on) = { peer with msgIdOut := peer.msgIdOut + 1 } := by
          rw [record, Std.TreeMap.getD_insert_self]
        have below : ∀ earlier ∈ log, earlier.messageId < peer.msgIdOut := here ▸ ledger.drawn
        rw [counter]
        refine ⟨message :: log, ledger.same, ?_, ?_, ?_, ?_, ?_, ?_, ?_, ?_⟩
        · rw [changed]
          exact ⟨Nat.succ_pos _, Nat.succ_le_succ bound⟩
        · rw [changed]
          intro seq entry stored
          exact (ledger.pending seq entry (here ▸ stored)).mono (List.subset_cons_self _ _)
        · intro effect member owner
          exact (ledger.posts effect member owner).mono fun _ _ logged =>
            logged.mono (List.subset_cons_self _ _)
        · rw [changed]
          intro earlier member
          rcases List.mem_cons.mp member with rfl | old
          · exact number ▸ Nat.lt_succ_self _
          · exact Nat.lt_succ_of_lt (below earlier old)
        · intro left leftIn right rightIn ids
          rcases List.mem_cons.mp leftIn with rfl | leftOld
          · rcases List.mem_cons.mp rightIn with rfl | rightOld
            · rfl
            · exact absurd (ids.symm.trans number) (Nat.ne_of_lt (below right rightOld))
          · rcases List.mem_cons.mp rightIn with rfl | rightOld
            · exact absurd (ids.trans number) (Nat.ne_of_lt (below left leftOld))
            · exact ledger.distinct left leftOld right rightOld ids
        · intro call member
          obtain ⟨entry, filtered, rfl⟩ := List.mem_map.mp member
          obtain ⟨made, called, rfl⟩ := List.mem_map.mp (List.mem_filter.mp filtered).1
          exact ⟨message, List.mem_cons_self, called⟩
        · intro earlier member
          rcases List.mem_cons.mp member with rfl | old
          · refine ⟨congrArg (fun identity => identity.config.mtu) ledger.same, ?_⟩
            exact ledger.tasks (on, payload) (queue ▸ List.mem_cons_self) rfl
          · exact ledger.split earlier old
        · exact fun entry member owned => ledger.tasks entry (fewer member) owned
      · refine ⟨log, later.of_same rfl ?_ ?_ ?_ fewer⟩
        · exact congrArg Peer.pending ((record_insert rfl).trans (if_neg same))
        · exact congrArg Peer.msgIdOut ((record_insert rfl).trans (if_neg same))
        · rw [mine, queuedFor, List.filter_map]
          simp [Function.comp_def, same]
  · exact ⟨log, later⟩

theorem Ledger.unqueue (ledger : Ledger identity key messages submitted posts log transport)
    {call : FragmentCall} {rest : List (Bytes × FragmentCall)}
    (queue : transport.encoding = (other, call) :: rest)
    : Ledger identity key messages submitted posts log { transport with encoding := rest }
      ∧ (other = key → ∃ message ∈ log, call ∈ message.calls) := by
  have shorter : ({ transport with encoding := rest } : Transport).queuedFor key
      ⊆ transport.queuedFor key := by
    rw [queuedFor, queuedFor, queue]
    exact List.map_subset _ (List.filter_subset _ (List.subset_cons_self _ _))
  refine ⟨{ ledger with queued := fun call member => ledger.queued call (shorter member) }, ?_⟩
  intro same
  refine ledger.queued call (List.mem_map.mpr ⟨(other, call), ?_, rfl⟩)
  rw [queue]
  exact List.mem_filter.mpr ⟨List.mem_cons_self, decide_eq_true same⟩

-- Steps and runs

theorem Ledger.step {occurrence : Occurrence}
    (ledger : Ledger identity key messages submitted posts log transport)
    (taken : step numerics transport occurrence = .ok (after, outputs))
    (few : messages + splits occurrence.event < 2 ^ 31)
    (stays : removes key transport occurrence.event = false)
    : ∃ log, Ledger identity key (messages + splits occurrence.event)
        (submitted ++ submittedBy key transport occurrence.event) (posts ++ outputs) log after := by
  have plain {body : Link → Link} {on : Bytes} {inner : Transport}
      (start : Ledger identity key messages submitted posts log inner)
      (visits : Visits key on (fun link => .ok (body link)) inner after outputs)
      (vouched : ∀ link : Link, link.Vouched (fromLog log) (inner.record key).msgIdOut
        → (body link).Vouched (fromLog log) (inner.record key).msgIdOut)
      : Ledger identity key messages submitted (posts ++ outputs) log after := by
    refine start.visit visits fun next _ ran => ?_
    cases ran
    exact vouched _ start.vouched
  have apart := apart_fromLog log
  rcases occurrence with ⟨moment, event⟩
  cases steps_of_ok key taken with
  | @connect _ _ remoteId addr visits =>
      refine ⟨log, (plain (ledger.addPeer moment remoteId addr stays) visits ?_).submit _⟩
      exact fun link vouched => vouched.sendHandshake apart
  | undecoded | refused | drained => exact ⟨log, (List.append_nil posts).symm ▸ ledger.submit _⟩
  | @datagram _ _ source bytes payload draw header decoded visits =>
      have found := ledger.findOrCreatePeerByAddr moment source draw
      refine ⟨log, (Ledger.visit found visits fun next _ ran => ?_).submit _⟩
      exact found.vouched.handlePacket apart ran
  | sendCommand short found visits =>
      refine ⟨log, (plain ledger visits ?_).submit _⟩
      exact fun link vouched => vouched.sendCommand (fromLog_of_other (by decide))
  | @processSend peerId payload =>
      exact ⟨log, (List.append_nil posts).symm ▸ ledger.queueMessage peerId payload⟩
  | encode =>
      obtain ⟨longer, split⟩ := ledger.encodeNext few
      exact ⟨longer, (List.append_nil posts).symm ▸ split.submit _⟩
  | fragment queue visits =>
      obtain ⟨next, known⟩ := ledger.unqueue queue
      refine ⟨log, (next.visit visits fun link same ran => ?_).submit _⟩
      cases ran
      refine next.vouched.sendDataPacket fun _ => ?_
      obtain ⟨message, member, made⟩ := known same
      exact ⟨message, member, _, made, carriedBy_fragmentHeader _ _ _ _⟩
  | sendHandshakes visits =>
      exact ⟨log, (plain ledger visits fun link vouched => vouched.sendHandshakes apart).submit _⟩
  | sendHeartbeats visits =>
      exact ⟨log, (plain ledger visits fun link vouched => vouched.sendHeartbeats).submit _⟩
  | sendReports visits =>
      exact ⟨log, (plain ledger visits fun link vouched => vouched.sendReports).submit _⟩
  | checkOffline visits =>
      exact ⟨log, (plain ledger visits fun link vouched => vouched.checkOffline).submit _⟩
  | flushCommands visits =>
      exact ⟨log, (plain ledger visits fun link vouched => vouched.flushCommands).submit _⟩

/-- The payloads that a history submits for a record. -/
def submittedIn (key : Bytes) (history : List (Stage Transport Occurrence Effect)) : List Bytes :=
  history.flatMap fun stage => submittedBy key stage.before stage.event.event

/-- The steps after which a record is still the same one. -/
def Keeps (key : Bytes) (_ : List (Stage Transport Occurrence Effect)) (before : Transport)
    (occurrence : Occurrence)
    : Prop :=
  removes key before occurrence.event = false

/-- The books of a record over a whole run that does not remove it. -/
theorem run_ledger {history : List (Stage Transport Occurrence Effect)} {last : Transport}
    (run : Run (step numerics) (Keeps key) (initial identity) history last)
    (few : messagesIn history < 2 ^ 31)
    : ∃ log, Ledger identity key (messagesIn history) (submittedIn key history) (emitted history) log
        last := by
  refine run.invariant (fun history last => messagesIn history < 2 ^ 31 →
    ∃ log, Ledger identity key (messagesIn history) (submittedIn key history) (emitted history) log
      last) ?_ ?_ few
  · exact fun _ => ⟨[], ledger_initial identity key⟩
  · intro history state event after outputs _ kept stays taken few
    rw [messagesIn_append] at few ⊢
    obtain ⟨log, ledger⟩ := kept (by omega)
    obtain ⟨longer, next⟩ := ledger.step taken few stays
    refine ⟨longer, ?_⟩
    rw [emitted_append, emitted_singleton, submittedIn, List.flatMap_append]
    simpa [submittedIn] using next

end Transport

end Creek.Tight
