import Creek.Proofs.Tight.LinkFrames

/-! What one handler changes of a record, and what it shows to the outside. -/

namespace Creek.Tight.Link

open Library

variable {numerics : Numerics} {identity : Identity} {moment : Moment} {header : PacketHeader}
  {payload : Bytes} {link : Link}

-- Handshakes

@[simp] theorem resetCommands_view : link.resetCommands.view = link.view := rfl

@[simp] theorem setState_view (state : LinkState) : (link.setState state).view = link.view := rfl

@[simp] theorem adoptRetransmit_view (announced : Option Bool)
    : (link.adoptRetransmit announced).view = link.view := by
  cases announced <;> rfl

theorem adoptRetransmit_peer (announced : Option Bool)
    : (link.adoptRetransmit announced).peer =
      { link.peer with peerRetransmit := announced.getD link.peer.peerRetransmit } := by
  cases announced <;> rfl

@[simp] theorem adoptIdentity_view (contents : HandshakeContents)
    : (link.adoptIdentity contents).view = link.view :=
  rfl

@[simp] theorem installKey_view (key : Option Bytes) : (link.installKey key).view = link.view := by
  cases key <;> rfl

theorem installKey_peer (key : Option Bytes)
    : (link.installKey key).peer =
      {
        link.peer with
        cryptoKey := key.getD link.peer.cryptoKey
        cryptoReady := key.isSome || link.peer.cryptoReady
      } := by
  cases key <;> rfl

@[simp] theorem adoptKey_none (clientId : UInt32)
    : link.adoptKey identity none clientId = link :=
  rfl

@[simp] theorem adoptKey_some (pub : Bytes) (clientId : UInt32)
    : link.adoptKey identity (some pub) clientId =
      link.installKey (derivedKey identity pub clientId) :=
  rfl

@[simp] theorem adoptKey_view (pub : Option Bytes) (clientId : UInt32)
    : (link.adoptKey identity pub clientId).view = link.view := by
  cases pub with
  | none => rfl
  | some pub => rw [adoptKey_some, installKey_view]

@[simp] theorem establish_deliveries : link.establish.view.deliveries = link.view.deliveries := by
  unfold establish
  split
  · simp [firePeerEvent_view]
  · rfl

theorem establish_peer
    : link.establish.peer =
      {
        link.peer with
        state :=
          if link.peer.state ≠ .established ∧ link.peer.state ≠ .online then .established
          else link.peer.state
      } := by
  unfold establish
  split
  · rfl
  · rfl

@[simp] theorem goOnline_peer
    : (link.goOnline identity moment).peer = { link.peer with state := .online } := by
  simp [goOnline, setState]

theorem goOnline_view
    : (link.goOnline identity moment).view = ((link.setState .online).firePeerEvent .online).view :=
  sendSpeedTest_view

-- The other handlers

@[simp] theorem handleOnline_peer
    : (link.handleOnline identity moment).peer = { link.peer with state := .online } := by
  unfold handleOnline
  split
  · exact goOnline_peer
  · rename_i online
    simp only [ne_eq, not_not] at online
    simp only [← online]

theorem handleHeartbeat_peer
    : ∃ rtt clock, (link.handleHeartbeat moment header payload).peer =
      { link.peer with senderRttUs := rtt, clock := clock } := by
  unfold handleHeartbeat
  split
  · obtain ⟨clock, eq⟩ := syncClock_peer
      { link with peer := { link.peer with senderRttUs := (get32 payload 0).toNat } }
      header.tick moment.unixMs
    exact ⟨_, clock, by rw [feedRttFromTick_peer, eq]⟩
  · obtain ⟨clock, eq⟩ := syncClock_peer link header.tick moment.unixMs
    exact ⟨_, clock, by rw [feedRttFromTick_peer, eq]⟩

@[simp] theorem handleHeartbeat_view
    : (link.handleHeartbeat moment header payload).view = link.view := by
  unfold handleHeartbeat
  split <;> simp

@[simp] theorem handleProbe_view
    : (link.handleProbe numerics moment header).view = link.view :=
  rfl

@[simp] theorem handleBye_peer : link.handleBye.peer = { link.peer with state := .closed } := by
  unfold handleBye
  split
  · rfl
  · rename_i closed
    simp only [ne_eq, not_not] at closed
    simp only [← closed]

theorem handleAck_peer
    : ∃ pending clock, (link.handleAck moment header).peer =
        { link.peer with pending := pending, clock := clock }
      ∧ (pending = link.peer.pending
        ∨ pending = link.peer.pending.erase header.acknowledgment.toNat) := by
  simp only [handleAck]
  split
  · exact ⟨_, _, rfl, .inl rfl⟩
  · split
    · exact ⟨_, _, rfl, .inl rfl⟩
    · obtain ⟨clock, eq⟩ := trySyncClock_peer (onAck
        {
          link with
          peer := {
            link.peer with
            pending := link.peer.pending.erase header.acknowledgment.toNat
          }
        } _)
      exact ⟨_, clock, by rw [eq, onAck_peer], .inr rfl⟩

@[simp] theorem handleAck_view : (link.handleAck moment header).view = link.view := by
  simp only [handleAck]
  split
  · rfl
  · split <;> simp

/-- Resending leaves the record alone and adds one encryption call for each packet. -/
theorem foldl_sendWire (entries : List PendingSend)
    : let sent := entries.foldl
        (fun link entry => link.sendWire identity entry.header entry.payload) link
      sent.peer = link.peer
      ∧ sent.view = {
          link.view with
          seals := link.seals ++ entries.flatMap fun entry =>
            sealsOf identity link.peer entry.header entry.payload
        } := by
  induction entries generalizing link with
  | nil => exact ⟨rfl, by simp [view]⟩
  | cons entry rest ih =>
      obtain ⟨peer, view⟩ := @ih (link.sendWire identity entry.header entry.payload)
      refine ⟨peer.trans (sendWire_peer _ _), ?_⟩
      have first := sendWire_view identity link entry.header entry.payload
      have seals : (link.sendWire identity entry.header entry.payload).seals = _ :=
        congrArg View.seals first
      simp only [List.foldl_cons]
      rw [view, first, seals]
      simp [Link.view]

theorem handleReport_peer
    : (link.handleReport identity moment header payload).peer =
      (Report.handle link.peer payload moment.now).1 := by
  simp only [handleReport]
  rw [(foldl_sendWire _).1, feedRttFromTick_peer]

/-- A report shows nothing but the encryption calls of the packets it has resent. -/
theorem handleReport_view
    : (link.handleReport identity moment header payload).view =
      {
        link.view with
        seals := link.seals ++
          (Report.handle link.peer payload moment.now).2.flatMap fun entry =>
            sealsOf identity (Report.handle link.peer payload moment.now).1 entry.header
              entry.payload
      } := by
  simp only [handleReport]
  rw [(foldl_sendWire _).2]
  have view := feedRttFromTick_view link moment header.tick
  have seals : (link.feedRttFromTick header.tick moment).seals = link.seals :=
    congrArg View.seals view
  simp only [feedRttFromTick_peer]
  rw [show ({ link.feedRttFromTick header.tick moment with
    peer := (Report.handle link.peer payload moment.now).1 } : Link).view = link.view from view]
  simp only [Link.seals] at seals ⊢
  rw [seals]

theorem reportHandle_peer (peer : Peer) (now : TimePoint)
    : ∃ ratio pending, (Report.handle peer payload now).1 =
      { peer with peerLateRatio := ratio, pending := pending } := by
  simp only [Report.handle]
  split
  · exact ⟨_, _, rfl⟩
  · exact ⟨_, _, rfl⟩

theorem foldl_fireCommand (ready : List Bytes)
    : (ready.foldl fireCommand link).peer = link.peer
      ∧ (ready.foldl fireCommand link).view =
        {
          link.view with
          deliveries := link.deliveries ++ ready.map (.command link.key link.peer.id)
        } := by
  induction ready generalizing link with
  | nil => exact ⟨rfl, by simp [view]⟩
  | cons payload rest ih =>
      obtain ⟨peer, view⟩ := @ih (link.fireCommand payload)
      refine ⟨peer.trans rfl, ?_⟩
      simp only [List.foldl_cons]
      rw [view]
      simp [Link.view, fireCommand, fire, deliveries, seals, events, Effect.seal?, Effect.event?]
      rfl

@[simp] theorem handleCommand_peer
    : (link.handleCommand moment header payload).peer =
      {
        link.peer with
        command := (CommandChannel.handle link.peer.command header payload (u32 link.rttUs)
          moment.now).1
      } := by
  simp only [handleCommand]
  exact (foldl_fireCommand _).1

theorem handleCommand_view
    : (link.handleCommand moment header payload).view =
      {
        link.view with
        deliveries := link.deliveries ++
          (CommandChannel.handle link.peer.command header payload (u32 link.rttUs)
            moment.now).2.map (.command link.key link.peer.id)
      } := by
  simp only [handleCommand]
  exact (foldl_fireCommand _).2

/-- A fragment changes the lateness counters, the sequence tracking and the collection, and
shows nothing but the message it completes.
-/
theorem handleData_eq {after : Link}
    (handled : link.handleData numerics identity moment header payload = .ok after)
    : ∃ peer delivered,
      Reassembler.handleData numerics link.peer header payload
        {
          now := moment.now
          arrivalMs := moment.unixMs
          rttUs := u32 link.rttUs
          maxMessageBytes := identity.maxMessageBytes
        } = .ok (peer, delivered)
      ∧ after.peer = peer
      ∧ after.view = {
          link.view with
          deliveries := link.deliveries ++ delivered.toList.map (.message link.key peer.id)
        } := by
  unfold handleData at handled
  rcases result : Reassembler.handleData numerics link.peer header payload
    {
      now := moment.now
      arrivalMs := moment.unixMs
      rttUs := u32 link.rttUs
      maxMessageBytes := identity.maxMessageBytes
    } with fault | ⟨peer, delivered⟩
  · rw [result] at handled
    cases handled
  · rw [result] at handled
    refine ⟨peer, delivered, rfl, ?_⟩
    rcases delivered with _ | message
    · cases handled
      exact ⟨rfl, by simp [view, deliveries, seals, events]⟩
    · cases handled
      exact ⟨rfl, by simp [deliverMessage, fire, view, deliveries, seals, events,
        Effect.isDelivery, Effect.seal?, Effect.event?]⟩

theorem reassemblerHandleData_peer {peer after : Peer} {context : Reassembler.Context}
    {delivered : Option Bytes}
    (handled : Reassembler.handleData numerics peer header payload context
      = .ok (after, delivered))
    : ∃ late collection,
      after = {
        peer with
        late := late
        tracker := Reassembler.trackSequence peer.tracker header.sequence.toNat context.now
        collection := collection
      } := by
  simp only [Reassembler.handleData] at handled
  split at handled
  · cases handled
    exact ⟨_, _, rfl⟩
  · rcases collected : Reassembler.collect peer.collection header payload context with
      fault | ⟨collection, result⟩
    · rw [collected] at handled
      cases handled
    · rw [collected] at handled
      cases handled
      exact ⟨_, _, rfl⟩

@[simp] theorem touch_view : (link.touch moment header).view = link.view := rfl

end Creek.Tight.Link
