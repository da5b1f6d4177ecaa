import Creek.Proofs.Tight.HandlerFrames
import Creek.Tight.Transport

/-! The index from addresses to records. Only `connect` and the first packet of a source place a record at
an address, and neither looks for other addresses that still lead to it.
-/

namespace Creek.Tight

open Library

-- No handler moves a record

/-- Where a record is. -/
def Peer.site (peer : Peer) : AddrKey × Bool := (peer.addr, peer.addrSet)

namespace Link

variable {numerics : Numerics} {identity : Identity} {moment : Moment} {header : PacketHeader}
  {payload : Bytes} {link : Link}

@[simp] theorem sendControl_site (type : PacketType) (payload : Bytes) (ackable : Bool)
    : (link.sendControl identity moment type payload ackable).peer.site = link.peer.site := by
  rw [sendControl_peer]
  split
  · rfl
  · rfl

@[simp] theorem sendHandshake_site
    : (link.sendHandshake identity moment).peer.site = link.peer.site :=
  sendControl_site _ _ _

@[simp] theorem syncClock_site (tick : UInt32) (arrivalMs : Nat)
    : (link.syncClock tick arrivalMs).peer.site = link.peer.site := by
  obtain ⟨clock, eq⟩ := syncClock_peer link tick arrivalMs
  rw [eq]
  rfl

@[simp] theorem adoptRetransmit_site (announced : Option Bool)
    : (link.adoptRetransmit announced).peer.site = link.peer.site := by
  rw [adoptRetransmit_peer]
  rfl

@[simp] theorem adoptKey_site (pub : Option Bytes) (clientId : UInt32)
    : (link.adoptKey identity pub clientId).peer.site = link.peer.site := by
  cases pub with
  | none => rfl
  | some pub =>
      rw [adoptKey_some, installKey_peer, Peer.site, Peer.site]

@[simp] theorem establish_site : link.establish.peer.site = link.peer.site := by
  rw [establish_peer]
  rfl

@[simp] theorem goOnline_site : (link.goOnline identity moment).peer.site = link.peer.site := by
  rw [goOnline_peer]
  rfl

theorem handleHandshake_site
    : (link.handleHandshake identity moment header payload).peer.site = link.peer.site := by
  unfold handleHandshake
  split
  · rfl
  · rename_i contents _
    simp only
    split
    · have adopted : ∀ link : Link, (link.adoptIdentity contents).peer.site = link.peer.site :=
        fun _ => rfl
      have reset : ∀ link : Link, link.resetCommands.peer.site = link.peer.site := fun _ => rfl
      simp only [acceptHandshake]
      split
      · simp [adopted, reset]
      · simp [adopted, reset]
    · exact adoptRetransmit_site _

theorem handleHandshakeAck_site
    : (link.handleHandshakeAck identity moment header payload).peer.site = link.peer.site := by
  have reset : ((link.syncClock header.tick moment.unixMs).resetCommands).peer.site
      = link.peer.site :=
    syncClock_site _ _
  have finish (next : Link) (same : next.peer.site = link.peer.site)
      : (if next.peer.state = .handshake ∨ next.peer.state = .established then
          let link := next.sendControl identity moment .online [] true
          let link := { link with peer := { link.peer with handshakeBackoff := 500000000 } }
          link.goOnline identity moment
        else next).peer.site = link.peer.site := by
    split
    · rw [goOnline_site]
      exact (sendControl_site _ _ _).trans same
    · exact same
  unfold handleHandshakeAck
  refine finish _ ?_
  split
  · exact reset
  · rw [adoptKey_site, adoptRetransmit_site]
    exact reset

theorem handleHeartbeat_site
    : (link.handleHeartbeat moment header payload).peer.site = link.peer.site := by
  obtain ⟨rtt, clock, eq⟩ := @handleHeartbeat_peer moment header payload link
  rw [eq]
  rfl

theorem handleAck_site : (link.handleAck moment header).peer.site = link.peer.site := by
  obtain ⟨pending, clock, eq, -⟩ := @handleAck_peer moment header link
  rw [eq]
  rfl

theorem handleReport_site
    : (link.handleReport identity moment header payload).peer.site = link.peer.site := by
  obtain ⟨ratio, pending, eq⟩ := @reportHandle_peer payload link.peer moment.now
  rw [handleReport_peer, eq]
  rfl

theorem handleData_site {after : Link}
    (handled : link.handleData numerics identity moment header payload = .ok after)
    : after.peer.site = link.peer.site := by
  obtain ⟨peer, delivered, result, same, -⟩ := handleData_eq handled
  obtain ⟨late, collection, eq⟩ := reassemblerHandleData_peer result
  rw [same, eq]
  rfl

theorem handlePacket_site {after : Link}
    (handled : link.handlePacket numerics identity moment header payload = .ok after)
    : after.peer.site = link.peer.site := by
  have touched : (link.touch moment header).peer.site = link.peer.site := rfl
  rw [← touched]
  unfold handlePacket at handled
  simp only at handled
  split at handled
  · cases handled
    rfl
  · simp only [dispatch] at handled
    split at handled
    · cases handled
      rw [sendAckPacket_peer]
      exact handleHandshake_site
    · cases handled
      rw [sendAckPacket_peer]
      exact handleHandshakeAck_site
    · cases handled
      rw [sendAckPacket_peer, handleOnline_peer]
      rfl
    · cases handled
      exact handleHeartbeat_site
    · cases handled
      rw [handleBye_peer]
      rfl
    · exact handleData_site handled
    · exact handleData_site handled
    · cases handled
      exact handleAck_site
    · cases handled
      exact handleReport_site
    · cases handled
      rfl
    · cases handled
      rw [handleCommand_peer]
      rfl
    · cases handled
      rfl

theorem sendCommand_site
    : (link.sendCommand identity moment payload).peer.site = link.peer.site := by
  unfold sendCommand
  split
  · rfl
  · rw [sendWire_peer]
    rfl

theorem sendDataPacket_site (call : FragmentCall)
    : (link.sendDataPacket identity moment call).peer.site = link.peer.site := by
  simp only [sendDataPacket]
  split
  · split
    · rw [sendWire_peer]
      rfl
    · rw [sendWire_peer]
      rfl
  · rw [sendWire_peer]

theorem sendHandshakes_site
    : (link.sendHandshakes identity moment).peer.site = link.peer.site := by
  simp only [sendHandshakes]
  split
  · rfl
  · split
    · rfl
    · exact sendHandshake_site

theorem sendHeartbeats_site
    : (link.sendHeartbeats identity moment).peer.site = link.peer.site := by
  simp only [sendHeartbeats]
  split
  · rfl
  · split
    · rfl
    · exact sendControl_site _ _ _

theorem sendReports_site
    : (link.sendReports numerics identity moment).peer.site = link.peer.site := by
  simp only [sendReports]
  split
  · rfl
  · split
    · rfl
    · show ((Link.sendRaw { link with peer := (Report.buildPayload numerics link.peer
          identity.config.reportInterval moment.now).1 } _ _).peer).site = link.peer.site
      rw [sendRaw_peer]
      rfl

theorem checkOffline_site
    : (link.checkOffline identity moment).peer.site = link.peer.site := by
  simp only [checkOffline]
  split
  · rfl
  · split
    · rfl
    · split
      · rfl
      · rfl

theorem flushCommands_site : (link.flushCommands moment).peer.site = link.peer.site := by
  simp only [flushCommands]
  rw [(foldl_fireCommand _).1]
  rfl

end Link

-- The index

namespace Transport

variable {numerics : Numerics} {identity : Identity} {moment : Moment} {addr source : AddrKey}
  {remoteId key bytes : Bytes} {draw : Nat} {transport after last : Transport}
  {effects : List Effect} {history : List (Stage Transport Occurrence Effect)}

/-- Every address leads to a record that is there. -/
def Indexed (transport : Transport) : Prop :=
  ∀ addr key, transport.peerByAddr addr = some key
    → ∃ peer, transport.peers[key]? = some peer ∧ peer.addr = addr ∧ peer.addrSet = true

/-- Every datagram is handled on a record at its source. -/
def Attributes (transport : Transport) : Prop :=
  ∀ moment source draw, ∃ peer,
    (transport.findOrCreatePeerByAddr moment source draw).1.peers[
      (transport.findOrCreatePeerByAddr moment source draw).2]? = some peer
    ∧ peer.addr = source

/-- Another address still leads to the id. -/
def LeadsElsewhere (transport : Transport) (addr : AddrKey) (id : Bytes) : Prop :=
  ∃ other, other ≠ addr ∧ transport.peerByAddr other = some id

/-- The step places a record at an address while another address leads to its id: a `connect` to a new
address, or an unknown source whose anonymous id is taken.
-/
def Displaces (stage : Stage Transport Occurrence Effect) : Prop :=
  match stage.event.event with
  | .connect remoteId addr => stage.before.LeadsElsewhere addr remoteId
  | .datagram source bytes draw =>
      PacketCodec.decode (bytes.take 2048) ≠ none ∧ stage.before.known source = none
        ∧ stage.before.LeadsElsewhere source (anonymousId source draw)
  | _ => False

/-- Where the record under a key is. -/
def siteOf (transport : Transport) (key : Bytes) : Option (AddrKey × Bool) :=
  (transport.peers[key]?).map Peer.site

theorem indexed_iff_siteOf
    : Indexed transport
      ↔ ∀ addr key, transport.peerByAddr addr = some key
        → transport.siteOf key = some (addr, true) := by
  refine forall_congr' fun addr => forall_congr' fun key => imp_congr_right fun _ => ?_
  rw [siteOf, Option.map_eq_some_iff]
  refine exists_congr fun peer => and_congr_right fun _ => ?_
  rw [Peer.site, Prod.mk.injEq]

/-- Neither the index nor the site of a record differs. -/
structure SameSites (before after : Transport) : Prop where
  index : after.peerByAddr = before.peerByAddr
  sites : ∀ key, after.siteOf key = before.siteOf key

theorem SameSites.refl (transport : Transport) : SameSites transport transport :=
  ⟨rfl, fun _ => rfl⟩

theorem SameSites.indexed_iff {before : Transport} (same : SameSites before after)
    : Indexed after ↔ Indexed before := by
  rw [indexed_iff_siteOf, indexed_iff_siteOf, same.index]
  simp only [same.sites]

/-- A handler that leaves its record where it is changes no site. -/
theorem sameSites_visit {body : Link → Except Fault Link}
    (stays : ∀ link next, body link = .ok next → next.peer.site = link.peer.site)
    (visited : visit key body transport = .ok (after, effects))
    : SameSites transport after := by
  rcases visit_cases visited with ⟨-, rfl, -⟩ | ⟨peer, link, found, handled, rfl, -⟩
  · exact .refl _
  · refine ⟨rfl, fun other => ?_⟩
    rw [siteOf, siteOf, Std.TreeMap.getElem?_insert]
    split
    · rename_i same
      obtain rfl := Std.LawfulEqCmp.eq_of_compare same
      rw [found, Option.map_some, Option.map_some, stays _ _ handled]
    · rfl

theorem sameSites_visit_ok {act : Link → Link}
    (stays : ∀ link, (act link).peer.site = link.peer.site)
    (visited : transport.visit key (fun link => .ok (act link)) = .ok (after, effects))
    : SameSites transport after := by
  refine sameSites_visit (fun link next done => ?_) visited
  cases done
  exact stays link

theorem sameSites_encodeNext : SameSites transport (transport.encodeNext numerics) := by
  unfold encodeNext
  split
  · split
    · exact ⟨rfl, fun _ => rfl⟩
    · rename_i peer found
      refine ⟨rfl, fun other => ?_⟩
      rw [siteOf, siteOf, Std.TreeMap.getElem?_insert]
      split
      · rename_i same
        obtain rfl := Std.LawfulEqCmp.eq_of_compare same
        rw [found]
        rfl
      · rfl
  · exact .refl _

theorem sameSites_queueMessage {payload : Bytes}
    : SameSites transport (transport.queueMessage key payload) := by
  unfold queueMessage
  split
  · exact .refl _
  · split
    · exact .refl _
    · split
      · exact ⟨rfl, fun _ => rfl⟩
      · exact .refl _

/-- A record placed at an address keeps the index exactly when no other address leads to its id. -/
theorem indexed_place {placed : Transport} (indexed : Indexed transport)
    (index : placed.peerByAddr = mapAddr transport.peerByAddr addr key)
    (site : placed.siteOf key = some (addr, true))
    (others : ∀ other id, other ≠ addr → id ≠ key → transport.peerByAddr other = some id
      → placed.siteOf id = transport.siteOf id)
    : Indexed placed ↔ ¬transport.LeadsElsewhere addr key := by
  rw [indexed_iff_siteOf] at indexed ⊢
  rw [index]
  constructor
  · rintro kept ⟨other, differs, leads⟩
    have atKey := kept other key (by rw [mapAddr, if_neg differs, leads])
    rw [site] at atKey
    cases atKey
    exact differs rfl
  · intro alone other id leads
    rw [mapAddr] at leads
    split at leads
    · rename_i same
      cases leads
      rw [same]
      exact site
    · rename_i differs
      by_cases same : id = key
      · rw [same] at leads
        exact absurd ⟨other, differs, leads⟩ alone
      · rw [others other id differs same leads]
        exact indexed other id leads

/-- `connect` keeps the index exactly when no other address leads to its id. -/
theorem indexed_addPeer (indexed : Indexed transport)
    : Indexed (transport.addPeer moment remoteId addr)
      ↔ ¬transport.LeadsElsewhere addr remoteId := by
  have index : (transport.addPeer moment remoteId addr).peerByAddr
      = mapAddr transport.peerByAddr addr remoteId := by
    unfold addPeer
    split
    · rfl
    · rfl
  have site : (transport.addPeer moment remoteId addr).siteOf remoteId = some (addr, true) := by
    rw [siteOf, addPeer, Std.TreeMap.getElem?_insert_self]
    rfl
  refine indexed_place indexed index site ?_
  intro other id differs own leads
  have apart : compare remoteId id ≠ .eq :=
    fun same => own (Std.LawfulEqCmp.eq_of_compare same).symm
  rw [siteOf, addPeer, Std.TreeMap.getElem?_insert, if_neg apart]
  split
  · rename_i gone found
    obtain ⟨led, -⟩ := Option.filter_eq_some_iff.mp found
    have kept : gone ≠ id := by
      rintro rfl
      obtain ⟨peer, here, there, -⟩ := indexed addr gone led
      obtain ⟨again, same, elsewhere, -⟩ := indexed other gone leads
      obtain rfl := Option.some.inj (here.symm.trans same)
      exact differs (elsewhere.symm.trans there)
    rw [removePeer, Std.TreeMap.getElem?_erase,
      if_neg fun same => kept (Std.LawfulEqCmp.eq_of_compare same)]
    rfl
  · rfl

theorem findOrCreatePeerByAddr_known (here : transport.known source = some key)
    : transport.findOrCreatePeerByAddr moment source draw = (transport, key) := by
  rw [findOrCreatePeerByAddr, here]

/-- The record of an unknown source is at its address, and its address leads to it. -/
theorem findOrCreatePeerByAddr_unknown (unknown : transport.known source = none)
    : ∃ peer, transport.findOrCreatePeerByAddr moment source draw
        = (
          {
            transport with
            peers := transport.peers.insert (anonymousId source draw) peer
            peerByAddr := mapAddr transport.peerByAddr source (anonymousId source draw)
          },
          anonymousId source draw
        )
      ∧ peer.addr = source ∧ peer.addrSet = true := by
  rw [findOrCreatePeerByAddr, unknown]
  exact ⟨_, rfl, rfl, rfl⟩

/-- A datagram of an unknown source keeps the index exactly when no other address leads to the id it
draws.
-/
theorem indexed_findOrCreatePeerByAddr (indexed : Indexed transport)
    : Indexed (transport.findOrCreatePeerByAddr moment source draw).1
      ↔ ¬(transport.known source = none
        ∧ transport.LeadsElsewhere source (anonymousId source draw)) := by
  rcases here : transport.known source with _ | key
  · obtain ⟨peer, eq, there, set⟩ := @findOrCreatePeerByAddr_unknown moment _ draw _ here
    rw [eq, not_and]
    refine Iff.trans ?_ (imp_iff_right rfl).symm
    refine indexed_place indexed rfl ?_ ?_
    · rw [siteOf, Std.TreeMap.getElem?_insert_self, Option.map_some, Peer.site, there, set]
    · intro other id differs own leads
      rw [siteOf, Std.TreeMap.getElem?_insert,
        if_neg fun same => own (Std.LawfulEqCmp.eq_of_compare same).symm]
      rfl
  · rw [findOrCreatePeerByAddr_known here]
    exact iff_of_true indexed fun displaces => Option.some_ne_none _ displaces.1

/-- With the index in order a datagram is handled on the record at its source. -/
theorem Indexed.attributes (indexed : Indexed transport) : Attributes transport := by
  intro moment source draw
  rcases here : transport.known source with _ | key
  · obtain ⟨peer, eq, there, -⟩ := @findOrCreatePeerByAddr_unknown moment _ draw _ here
    rw [eq]
    exact ⟨peer, Std.TreeMap.getElem?_insert_self, there⟩
  · rw [findOrCreatePeerByAddr_known here]
    obtain ⟨leads, -⟩ := Option.filter_eq_some_iff.mp here
    obtain ⟨peer, found, there, -⟩ := indexed source key leads
    exact ⟨peer, found, there⟩

/-- A step keeps the index exactly when it displaces no address. -/
theorem step_indexed_iff {occurrence : Occurrence} (indexed : Indexed transport)
    (taken : step numerics transport occurrence = .ok (after, effects))
    : Indexed after
      ↔ ¬Displaces { before := transport, event := occurrence, outputs := effects } := by
  obtain ⟨moment, event⟩ := occurrence
  have kept (same : SameSites transport after) : Indexed after := same.indexed_iff.mpr indexed
  cases event with
  | connect remoteId addr =>
      simp only [step] at taken
      rw [(sameSites_visit_ok (fun _ => Link.sendHandshake_site) taken).indexed_iff]
      exact indexed_addPeer indexed
  | datagram source bytes draw =>
      simp only [step, receive] at taken
      rcases decoded : PacketCodec.decode (bytes.take 2048) with _ | packet
      · rw [decoded] at taken
        cases taken
        exact iff_of_true indexed fun displaces => displaces.1 decoded
      · rw [decoded] at taken
        have same := sameSites_visit (fun _ _ handled => Link.handlePacket_site handled) taken
        rw [same.indexed_iff, indexed_findOrCreatePeerByAddr indexed]
        have decodes : PacketCodec.decode (bytes.take 2048) ≠ none := by
          rw [decoded]
          exact Option.some_ne_none _
        exact not_congr (and_iff_right decodes).symm
  | sendCommand peerId payload =>
      refine iff_of_true (kept ?_) id
      simp only [step] at taken
      split at taken
      · cases taken
        exact .refl _
      · split at taken
        · cases taken
          exact .refl _
        · exact sameSites_visit_ok (fun _ => Link.sendCommand_site) taken
  | processSend peerId payload =>
      cases taken
      exact iff_of_true (kept sameSites_queueMessage) id
  | encode =>
      cases taken
      exact iff_of_true (kept sameSites_encodeNext) id
  | fragment =>
      refine iff_of_true (kept ?_) id
      simp only [step] at taken
      split at taken
      · cases taken
        exact .refl _
      · rename_i call encoding _
        obtain ⟨index, sites⟩ := sameSites_visit_ok (fun _ => Link.sendDataPacket_site _) taken
        exact ⟨index, sites⟩
  | sendHandshakes key =>
      simp only [step] at taken
      exact iff_of_true (kept (sameSites_visit_ok (fun _ => Link.sendHandshakes_site) taken)) id
  | sendHeartbeats key =>
      simp only [step] at taken
      exact iff_of_true (kept (sameSites_visit_ok (fun _ => Link.sendHeartbeats_site) taken)) id
  | sendReports key =>
      simp only [step] at taken
      exact iff_of_true (kept (sameSites_visit_ok (fun _ => Link.sendReports_site) taken)) id
  | checkOffline key =>
      simp only [step] at taken
      exact iff_of_true (kept (sameSites_visit_ok (fun _ => Link.checkOffline_site) taken)) id
  | flushCommands key =>
      simp only [step] at taken
      exact iff_of_true (kept (sameSites_visit_ok (fun _ => Link.flushCommands_site) taken)) id

/-- In every run each address leads to the record at it, and each datagram is handled there, as long as no
step displaces an address.
-/
theorem indexed_iff_displaces
    (run : Run (step numerics) (fun _ _ _ => True) (initial identity) history last)
    : Throughout (fun _ transport => Indexed transport ∧ Attributes transport) history last
      ↔ ∀ stage ∈ history, ¬Displaces stage := by
  have whole : ∀ transport, Indexed transport ∧ Attributes transport ↔ Indexed transport :=
    fun transport => and_iff_left_of_imp Indexed.attributes
  simp only [whole]
  refine run.throughout_iff (fun addr key leads => by cases leads) ?_
  intro history before occurrence after outputs _ indexed _ taken
  exact step_indexed_iff indexed taken

/-- A peer is connected at one address and then at another; the last call changes nothing. -/
def movedPeer : List Occurrence :=
  let moment := { now := 0, unixMs := 0 }
  [
    { moment := moment, event := .connect [1] { addr := 1, port := 1 } },
    { moment := moment, event := .connect [1] { addr := 2, port := 1 } },
    { moment := moment, event := .processSend [] [] }
  ]

/-- Whether an address leads to the peer that is at another. -/
def misled (transport : Transport) : Bool :=
  transport.peerByAddr { addr := 1, port := 1 } = some [1]
  && (transport.peers[([1] : Bytes)]?).map Peer.addr = some { addr := 2, port := 1 }

theorem not_indexed_of_misled (shown : transport.misled = true) : ¬Indexed transport := by
  obtain ⟨leads, elsewhere⟩ := Bool.and_eq_true_iff.mp shown
  intro indexed
  obtain ⟨peer, found, there, -⟩ := indexed _ _ (of_decide_eq_true leads)
  have moved := of_decide_eq_true elsewhere
  rw [found, Option.map_some, there] at moved
  cases moved

theorem movedPeer_run
    : ∃ history last, Run (step default) (fun _ _ _ => True) (initial {}) history last
      ∧ history.any (fun stage => stage.before.misled) = true := by
  have shown : shows (step default) (initial {}) movedPeer
      (fun history => history.any fun stage => stage.before.misled) = true := by
    decide +kernel
  exact Run.of_shows shown

theorem indexed_iff_displaces_movedPeer
    : ∃ history last, history.any (fun stage => stage.before.misled) = true
      ∧ (Throughout (fun _ transport => Indexed transport ∧ Attributes transport) history last
        ↔ ∀ stage ∈ history, ¬Displaces stage) := by
  obtain ⟨history, last, run, shown⟩ := movedPeer_run
  exact ⟨history, last, shown, indexed_iff_displaces run⟩

/-- The first address still leads to the peer after it has moved. -/
theorem old_address_leads_on
    : ∃ history last, Run (step default) (fun _ _ _ => True) (initial {}) history last
      ∧ ¬Throughout (fun _ transport => Indexed transport ∧ Attributes transport) history last := by
  obtain ⟨history, last, run, shown⟩ := movedPeer_run
  refine ⟨history, last, run, fun holds => ?_⟩
  obtain ⟨stage, member, misled⟩ := List.any_eq_true.mp shown
  obtain ⟨front, back, split⟩ := List.append_of_mem member
  exact not_indexed_of_misled misled (holds.1 front stage back split).1

end Transport

end Creek.Tight
