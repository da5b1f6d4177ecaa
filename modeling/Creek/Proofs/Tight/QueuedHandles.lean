import Creek.Library.Runs
import Creek.Tight.PeerHandles

/-! The pointers in the queues of a transport. Each is taken from the map under its mutex, and only
`connect` erases a record. It looks at no queue, so the pointers stay valid exactly as long as it erases
no record that is queued, and no thread queues a record again that was erased under its hands.
-/

namespace Creek.Tight

open Library

namespace HandledTransport

/-- Whether an allocation is a record of the map. -/
def Live (transport : HandledTransport) (handle : Nat) : Prop :=
  ∃ (key : Bytes) (node : PeerNode), transport.peers[key]? = some node ∧ node.handle = handle

/-- The pointers in the queues. -/
def queued (transport : HandledTransport) : List Nat :=
  transport.encodeQueue.items.map EncodeTask.peer
  ++ transport.outboundQueue.items.map OutboundPacket.peer
  ++ (transport.litePending.map OutboundPacket.peer).toList

/-- Every pointer in a queue is to a record of the map. -/
def QueuesValid (transport : HandledTransport) : Prop :=
  ∀ handle ∈ transport.queued, transport.Live handle

/-- Each record has its own allocation, and the next one is not in use. -/
structure Allocated (transport : HandledTransport) : Prop where
  below : ∀ (key : Bytes) (node : PeerNode), transport.peers[key]? = some node
    → node.handle < transport.allocated
  distinct : ∀ (key other : Bytes) (node node' : PeerNode), transport.peers[key]? = some node
    → transport.peers[other]? = some node'
    → node.handle = node'.handle
    → key = other

end HandledTransport

/-- A call of `connect` erases no record that is queued, and a packet that is queued for a record in hand
is for a record of the map.
-/
def HandleEvent.Spares (transport : HandledTransport) : HandleEvent → Prop
  | .connect remoteId addr _ => transport.running = true → ∀ key node,
      transport.replaced remoteId addr = some key → transport.peers[key]? = some node
      → node.handle ∉ transport.queued
  | .handSend index _ stale => ∀ handle, transport.hands[index]? = some handle
      → ¬transport.Live handle
      → stale = false ∨ transport.outboundQueue.refuses = true
  | _ => True

namespace HandledTransport

variable {transport after : HandledTransport} {handle : Nat} {key : Bytes} {node : PeerNode}

-- The map

theorem Live.congr (live : transport.Live handle) (same : after.peers = transport.peers)
    : after.Live handle := by
  unfold Live
  rw [same]
  exact live

theorem Allocated.congr (allocated : transport.Allocated) (same : after.peers = transport.peers)
    (next : after.allocated = transport.allocated)
    : after.Allocated := by
  refine ⟨?_, ?_⟩
  · rw [same, next]
    exact allocated.below
  · rw [same]
    exact allocated.distinct

theorem getElem?_insert {α : Type} (map : Std.TreeMap Bytes α) (key other : Bytes) (value : α)
    : (map.insert key value)[other]? = if key = other then some value else map[other]? := by
  rw [Std.TreeMap.getElem?_insert]
  simp only [Std.LawfulEqCmp.compare_eq_iff_eq]

theorem getElem?_erase {α : Type} (map : Std.TreeMap Bytes α) (key other : Bytes)
    : (map.erase key)[other]? = if key = other then none else map[other]? := by
  rw [Std.TreeMap.getElem?_erase]
  simp only [Std.LawfulEqCmp.compare_eq_iff_eq]

theorem live_write (found : ∃ old, transport.peers[key]? = some old ∧ old.handle = node.handle)
    : (transport.write key node).Live handle ↔ transport.Live handle := by
  obtain ⟨old, there, same⟩ := found
  constructor
  · rintro ⟨other, node', found', rfl⟩
    rw [write, getElem?_insert] at found'
    split at found'
    · obtain rfl := Option.some.inj found'
      exact ⟨key, old, there, same⟩
    · exact ⟨other, node', found', rfl⟩
  · rintro ⟨other, node', found', rfl⟩
    by_cases own : key = other
    · subst own
      obtain rfl := Option.some.inj (there.symm.trans found')
      refine ⟨key, node, ?_, same.symm⟩
      rw [write, getElem?_insert, if_pos rfl]
    · refine ⟨other, node', ?_, rfl⟩
      rw [write, getElem?_insert, if_neg own]
      exact found'

theorem Allocated.write (allocated : transport.Allocated)
    (found : ∃ old, transport.peers[key]? = some old ∧ old.handle = node.handle)
    : (transport.write key node).Allocated := by
  obtain ⟨old, there, same⟩ := found
  have look : ∀ (other : Bytes) (node' : PeerNode), (transport.write key node).peers[other]? = some node'
      → ∃ before, transport.peers[other]? = some before ∧ before.handle = node'.handle := by
    intro other node' found'
    rw [HandledTransport.write, getElem?_insert] at found'
    split at found'
    · rename_i own
      obtain rfl := Option.some.inj found'
      exact ⟨old, own ▸ there, same⟩
    · exact ⟨node', found', rfl⟩
  refine ⟨?_, ?_⟩
  · intro other node' found'
    obtain ⟨before, was, eq⟩ := look other node' found'
    rw [← eq]
    exact allocated.below other before was
  · intro one other node₁ node₂ found₁ found₂ eq
    obtain ⟨before₁, was₁, eq₁⟩ := look one node₁ found₁
    obtain ⟨before₂, was₂, eq₂⟩ := look other node₂ found₂
    exact allocated.distinct one other before₁ before₂ was₁ was₂ (eq₁.trans (eq.trans eq₂.symm))

theorem obtain_found : (transport.obtain key).1.peers[key]? = some (transport.obtain key).2 := by
  rw [obtain]
  split
  · rename_i found
    exact found
  · rw [getElem?_insert, if_pos rfl]

theorem live_obtain
    : (transport.obtain key).1.Live handle
      ↔ transport.Live handle ∨ transport.peers[key]? = none ∧ handle = transport.allocated := by
  rw [obtain]
  split
  · rename_i found
    simp [found]
  · rename_i absent
    constructor
    · rintro ⟨other, node', found', rfl⟩
      rw [getElem?_insert] at found'
      split at found'
      · obtain rfl := Option.some.inj found'
        exact .inr ⟨absent, rfl⟩
      · exact .inl ⟨other, node', found', rfl⟩
    · rintro (⟨other, node', found', rfl⟩ | ⟨-, rfl⟩)
      · refine ⟨other, node', ?_, rfl⟩
        rw [getElem?_insert, if_neg]
        · exact found'
        · rintro rfl
          rw [absent] at found'
          cases found'
      · exact ⟨key, _, (getElem?_insert _ _ _ _).trans (if_pos rfl), rfl⟩

theorem Allocated.obtain (allocated : transport.Allocated) : (transport.obtain key).1.Allocated := by
  rw [HandledTransport.obtain]
  split
  · exact allocated
  · have fresh : ∀ (other : Bytes) (node' : PeerNode), transport.peers[other]? = some node'
        → node'.handle ≠ transport.allocated :=
      fun other node' found' => Nat.ne_of_lt (allocated.below other node' found')
    refine ⟨?_, ?_⟩
    · intro other node' found'
      rw [getElem?_insert] at found'
      split at found'
      · obtain rfl := Option.some.inj found'
        exact Nat.lt_succ_self _
      · exact Nat.lt_succ_of_lt (allocated.below other node' found')
    · intro one other node₁ node₂ found₁ found₂ eq
      rw [getElem?_insert] at found₁ found₂
      split at found₁
      · rename_i own₁
        split at found₂
        · rename_i own₂
          exact own₁.symm.trans own₂
        · obtain rfl := Option.some.inj found₁
          exact absurd eq.symm (fresh other node₂ found₂)
      · split at found₂
        · obtain rfl := Option.some.inj found₂
          exact absurd eq (fresh one node₁ found₁)
        · exact allocated.distinct one other node₁ node₂ found₁ found₂ eq

/-- Of the allocations only that of the replaced record dies. -/
theorem live_eraseReplaced (allocated : transport.Allocated) {remoteId : Bytes} {addr : AddrKey}
    : (transport.eraseReplaced remoteId addr).Live handle
      ↔ transport.Live handle
        ∧ ∀ key node, transport.replaced remoteId addr = some key
          → transport.peers[key]? = some node
          → node.handle ≠ handle := by
  rw [eraseReplaced]
  split
  · rename_i key erased
    constructor
    · rintro ⟨other, node', found', rfl⟩
      rw [getElem?_erase] at found'
      split at found'
      · cases found'
      · rename_i other_ne
        refine ⟨⟨other, node', found', rfl⟩, fun key' node replaced found same => ?_⟩
        obtain rfl := Option.some.inj (erased.symm.trans replaced)
        exact other_ne (allocated.distinct key other node node' found found' same)
    · rintro ⟨⟨other, node', found', rfl⟩, spared⟩
      refine ⟨other, node', ?_, rfl⟩
      rw [getElem?_erase, if_neg]
      · exact found'
      · rintro rfl
        exact spared key node' erased found' rfl
  · rename_i none
    refine ⟨fun live => ⟨live, fun key node replaced => ?_⟩, fun both => both.1⟩
    rw [none] at replaced
    cases replaced

theorem Allocated.eraseReplaced (allocated : transport.Allocated) (remoteId : Bytes) (addr : AddrKey)
    : (transport.eraseReplaced remoteId addr).Allocated := by
  rw [HandledTransport.eraseReplaced]
  split
  · rename_i key erased
    have kept : ∀ (other : Bytes) (node' : PeerNode), (transport.peers.erase key)[other]? = some node'
        → transport.peers[other]? = some node' := by
      intro other node' found'
      rw [getElem?_erase] at found'
      split at found'
      · cases found'
      · exact found'
    exact ⟨fun other node' found' => allocated.below other node' (kept other node' found'),
      fun one other node₁ node₂ found₁ found₂ =>
        allocated.distinct one other node₁ node₂ (kept one node₁ found₁) (kept other node₂ found₂)⟩
  · exact allocated

theorem findPeer_live {peerId : Bytes} (found : transport.findPeer peerId = some node)
    : transport.Live node.handle := by
  rw [findPeer] at found
  split at found
  · rename_i there
    obtain rfl := Option.some.inj found
    exact ⟨peerId, _, there, rfl⟩
  · obtain ⟨entry, listed, rfl⟩ := Option.map_eq_some_iff.mp found
    have member := List.mem_of_find?_eq_some listed
    exact ⟨entry.1, entry.2, Std.TreeMap.mem_toList_iff_getElem?_eq_some.mp member, rfl⟩

theorem find_handle {entry : Bytes × PeerNode}
    (found : transport.peers.toList.find? (fun entry => entry.2.handle = handle) = some entry)
    : transport.peers[entry.1]? = some entry.2 ∧ entry.2.handle = handle :=
  ⟨Std.TreeMap.mem_toList_iff_getElem?_eq_some.mp (List.mem_of_find?_eq_some found),
    by simpa using List.find?_some found⟩

/-- A pointer under which nothing is found is to no record of the map. -/
theorem dead_of_nodeOf (gone : transport.nodeOf handle = none) : ¬transport.Live handle := by
  rintro ⟨key, node, found, rfl⟩
  have listed := Std.TreeMap.mem_toList_iff_getElem?_eq_some.mpr found
  have none := List.find?_eq_none.mp (Option.map_eq_none_iff.mp gone) (key, node) listed
  exact none (decide_eq_true rfl)

/-- What is read through a pointer to nothing is whatever is found there. -/
theorem addrSetOf_dead (dead : ¬transport.Live handle) (stale : Bool)
    : transport.addrSetOf handle stale = stale := by
  rw [addrSetOf, nodeOf]
  rcases found : transport.peers.toList.find? (fun entry => entry.2.handle = handle) with _ | entry
  · rw [found]
    rfl
  · obtain ⟨there, same⟩ := find_handle found
    exact absurd ⟨entry.1, entry.2, there, same⟩ dead

-- The queues

@[simp] theorem sendRaw_peers (addrSet : Bool) (datagram : Bytes)
    : (transport.sendRaw handle addrSet datagram).peers = transport.peers := by
  rw [sendRaw]
  split
  · rfl
  · rfl

@[simp] theorem sendRaw_allocated (addrSet : Bool) (datagram : Bytes)
    : (transport.sendRaw handle addrSet datagram).allocated = transport.allocated := by
  rw [sendRaw]
  split
  · rfl
  · rfl

theorem mem_queued_sendRaw {other : Nat} (addrSet : Bool) (datagram : Bytes)
    : other ∈ (transport.sendRaw handle addrSet datagram).queued
      ↔ other ∈ transport.queued
        ∨ addrSet = true ∧ transport.outboundQueue.refuses = false ∧ other = handle := by
  rw [sendRaw]
  cases addrSet with
  | false => simp
  | true =>
      rw [if_pos rfl, BlockingQueue.tryPush]
      cases transport.outboundQueue.refuses with
      | true => simp [queued]
      | false =>
          simp only [queued, Bool.false_eq_true, if_false, List.map_append, List.map_cons,
            List.map_nil, List.mem_append, List.mem_singleton, true_and]
          grind

@[simp] theorem putBack_peers (message : QueuedMessage)
    : (transport.putBack message).peers = transport.peers := by
  rw [putBack]
  split
  · rfl
  · rfl

@[simp] theorem putBack_allocated (message : QueuedMessage)
    : (transport.putBack message).allocated = transport.allocated := by
  rw [putBack]
  split
  · rfl
  · rfl

@[simp] theorem putBack_queued (message : QueuedMessage)
    : (transport.putBack message).queued = transport.queued := by
  rw [putBack]
  split
  · rfl
  · rfl

/-- Disposing of a message queues at most the record it is for. -/
theorem dispose_frame (message : QueuedMessage)
    : (transport.dispose message).peers = transport.peers
      ∧ (transport.dispose message).allocated = transport.allocated
      ∧ ∀ handle ∈ (transport.dispose message).queued,
        handle ∈ transport.queued ∨ transport.Live handle := by
  rw [dispose]
  split
  · exact ⟨rfl, rfl, fun handle => .inl⟩
  · rename_i node found
    split
    · split
      · rw [putBack_peers, putBack_allocated, putBack_queued]
        exact ⟨rfl, rfl, fun handle => .inl⟩
      · exact ⟨rfl, rfl, fun handle => .inl⟩
    · rcases refused : transport.encodeQueue.refuses with _ | _
      · simp only [BlockingQueue.tryPush, refused, Bool.false_eq_true, if_false, if_true]
        refine ⟨trivial, trivial, fun handle member => ?_⟩
        simp only [queued, List.map_append, List.map_cons, List.map_nil, List.mem_append,
          List.mem_singleton] at member ⊢
        have live := findPeer_live found
        grind
      · simp only [BlockingQueue.tryPush, refused, Bool.false_eq_true, if_false, if_true,
          putBack_peers, putBack_allocated, putBack_queued]
        exact ⟨trivial, trivial, fun handle => .inl⟩

/-- A step that keeps the queued records and queues only records of the map keeps the queues valid. -/
theorem QueuesValid.frame (valid : transport.QueuesValid)
    (live : ∀ handle ∈ transport.queued, transport.Live handle → after.Live handle)
    (queued : ∀ handle ∈ after.queued, handle ∈ transport.queued ∨ after.Live handle)
    : after.QueuesValid := by
  intro handle member
  rcases queued handle member with before | now
  · exact live handle before (valid handle before)
  · exact now

/-- A step that leaves the map alone and queues nothing new keeps the queues valid. -/
theorem QueuesValid.subset (valid : transport.QueuesValid) (same : after.peers = transport.peers)
    (queued : ∀ handle ∈ after.queued, handle ∈ transport.queued)
    : after.QueuesValid :=
  valid.frame (fun _ _ live => live.congr same) fun handle member => .inl (queued handle member)

@[simp] theorem eraseReplaced_queued (remoteId : Bytes) (addr : AddrKey)
    : (transport.eraseReplaced remoteId addr).queued = transport.queued := by
  rw [eraseReplaced]
  split
  · rfl
  · rfl

@[simp] theorem eraseReplaced_allocated (remoteId : Bytes) (addr : AddrKey)
    : (transport.eraseReplaced remoteId addr).allocated = transport.allocated := by
  rw [eraseReplaced]
  split
  · rfl
  · rfl

@[simp] theorem obtain_queued : (transport.obtain key).1.queued = transport.queued := by
  rw [obtain]
  split
  · rfl
  · rfl

-- Steps

/-- Obtaining a record and writing into it, with whatever happens outside of the map. -/
theorem obtain_write (allocated : transport.Allocated)
    (same : node.handle = (transport.obtain key).2.handle)
    : ((transport.obtain key).1.write key node).Allocated
      ∧ ((transport.obtain key).1.write key node).Live node.handle
      ∧ ∀ handle, ((transport.obtain key).1.write key node).Live handle
        ↔ transport.Live handle
          ∨ transport.peers[key]? = none ∧ handle = transport.allocated := by
  have found : ∃ old, (transport.obtain key).1.peers[key]? = some old ∧ old.handle = node.handle :=
    ⟨_, obtain_found, same.symm⟩
  refine ⟨allocated.obtain.write found, (live_write found).mpr ⟨key, _, obtain_found, same.symm⟩, ?_⟩
  intro handle
  exact (live_write found).trans live_obtain

/-- `connect` of a running transport, as a change of the map and a packet for the record. -/
theorem connect_eq (running : transport.running = true) (remoteId : Bytes) (addr : AddrKey)
    (datagram : Bytes)
    : ∃ node peerByAddr, node.handle = ((transport.eraseReplaced remoteId addr).obtain remoteId).2.handle
      ∧ (transport.connect remoteId addr datagram).1 =
        {
          ((transport.eraseReplaced remoteId addr).obtain remoteId).1.write remoteId node with
          peerByAddr := peerByAddr
        }.sendRaw node.handle true datagram := by
  rw [connect, running]
  rcases (transport.eraseReplaced remoteId addr).obtain remoteId with ⟨made, node⟩
  refine ⟨_, _, ?_, rfl⟩
  rfl

theorem Allocated.connect (allocated : transport.Allocated) (remoteId : Bytes) (addr : AddrKey)
    (datagram : Bytes)
    : (transport.connect remoteId addr datagram).1.Allocated := by
  rcases running : transport.running with _ | _
  · rw [HandledTransport.connect, running]
    exact allocated
  · obtain ⟨node, peerByAddr, same, eq⟩ := connect_eq running remoteId addr datagram
    rw [eq]
    refine (obtain_write (allocated.eraseReplaced remoteId addr) same).1.congr ?_ ?_
    · exact sendRaw_peers _ _
    · exact sendRaw_allocated _ _

/-- `connect` keeps valid queues valid exactly when it erases no queued record. Witness: what it erases
is not allocated again.
-/
theorem connect_valid_iff (allocated : transport.Allocated) (valid : transport.QueuesValid)
    (remoteId : Bytes) (addr : AddrKey) (datagram : Bytes)
    : (transport.connect remoteId addr datagram).1.QueuesValid
      ↔ HandleEvent.Spares transport (.connect remoteId addr datagram) := by
  rcases running : transport.running with _ | _
  · refine iff_of_true ?_ fun runs => absurd (running.symm.trans runs) Bool.false_ne_true
    rw [HandledTransport.connect, running]
    exact valid
  · obtain ⟨node, peerByAddr, same, eq⟩ := connect_eq running remoteId addr datagram
    obtain ⟨-, own, lives⟩ := obtain_write (allocated.eraseReplaced remoteId addr) same
    have live : ∀ handle, (transport.connect remoteId addr datagram).1.Live handle
        ↔ (((transport.eraseReplaced remoteId addr).obtain remoteId).1.write remoteId node).Live
          handle := by
      intro handle
      have peers : (transport.connect remoteId addr datagram).1.peers =
          (((transport.eraseReplaced remoteId addr).obtain remoteId).1.write remoteId node).peers := by
        rw [eq, sendRaw_peers]
      exact ⟨fun live => live.congr peers.symm, fun live => live.congr peers⟩
    have queued : ∀ handle, handle ∈ (transport.connect remoteId addr datagram).1.queued
        → handle ∈ transport.queued ∨ handle = node.handle := by
      intro handle member
      rw [eq] at member
      rcases (mem_queued_sendRaw true datagram).mp member with before | ⟨-, -, same⟩
      · have before : handle ∈ ((transport.eraseReplaced remoteId addr).obtain remoteId).1.queued :=
          before
        rw [obtain_queued, eraseReplaced_queued] at before
        exact .inl before
      · exact .inr same
    have kept : ∀ handle, handle ∈ transport.queued
        → handle ∈ (transport.connect remoteId addr datagram).1.queued := by
      intro handle member
      rw [eq]
      refine (mem_queued_sendRaw true datagram).mpr (.inl ?_)
      have before : handle ∈ ((transport.eraseReplaced remoteId addr).obtain remoteId).1.queued := by
        rw [obtain_queued, eraseReplaced_queued]
        exact member
      exact before
    constructor
    · intro still _ key erased replaced found member
      rcases (lives _).mp ((live _).mp (still _ (kept _ member))) with survived | ⟨-, fresh⟩
      · exact ((live_eraseReplaced allocated).mp survived).2 key erased replaced found rfl
      · have below := allocated.below key erased found
        rw [eraseReplaced_allocated] at fresh
        omega
    · intro spares
      refine valid.frame ?_ ?_
      · intro handle member wasLive
        refine (live handle).mpr ((lives handle).mpr (.inl ?_))
        refine (live_eraseReplaced allocated).mpr ⟨wasLive, fun key erased replaced found same => ?_⟩
        exact spares running key erased replaced found (same ▸ member)
      · intro handle member
        rcases queued handle member with before | rfl
        · exact .inl before
        · exact .inr ((live _).mpr own)

/-- A step that erases no record and queues only records of the map. -/
structure Gentle (transport after : HandledTransport) : Prop where
  allocated : after.Allocated
  live : ∀ handle, transport.Live handle → after.Live handle
  queued : ∀ handle ∈ after.queued, handle ∈ transport.queued ∨ after.Live handle

/-- A step that leaves the map alone and queues nothing is gentle. -/
theorem Gentle.subset (allocated : transport.Allocated) (peers : after.peers = transport.peers)
    (next : after.allocated = transport.allocated)
    (queued : ∀ handle ∈ after.queued, handle ∈ transport.queued)
    : Gentle transport after where
  allocated := allocated.congr peers next
  live := fun _ live => live.congr peers
  queued := fun handle member => .inl (queued handle member)

theorem Gentle.sendRaw (allocated : transport.Allocated) (live : transport.Live handle)
    (addrSet : Bool) (datagram : Bytes)
    : Gentle transport (transport.sendRaw handle addrSet datagram) where
  allocated := allocated.congr (sendRaw_peers _ _) (sendRaw_allocated _ _)
  live := fun _ live => live.congr (sendRaw_peers _ _)
  queued := by
    intro other member
    rcases (mem_queued_sendRaw addrSet datagram).mp member with before | ⟨-, -, rfl⟩
    · exact .inl before
    · exact .inr (live.congr (sendRaw_peers _ _))

theorem Gentle.valid (gentle : Gentle transport after) (valid : transport.QueuesValid)
    : after.QueuesValid :=
  valid.frame (fun handle _ => gentle.live handle) gentle.queued

/-- The receiver finds or makes a record; no record goes and nothing is queued. -/
theorem gentle_receive (allocated : transport.Allocated) (source : AddrKey) (draw : Nat)
    : Gentle transport (transport.receive source draw) := by
  rw [receive]
  split
  · exact .subset allocated rfl rfl fun _ member => member
  · dsimp only
    have made := @obtain_write transport (Transport.anonymousId source draw)
      {
        (transport.obtain (Transport.anonymousId source draw)).2 with
        id := Transport.anonymousId source draw
        addrSet := true
        state := .handshake
      } allocated rfl
    have queued := @obtain_queued transport (Transport.anonymousId source draw)
    exact {
      allocated := made.1.congr rfl rfl
      live := fun handle live => ((made.2.2 handle).mpr (.inl live)).congr rfl
      queued := fun handle member => .inl (queued ▸ member)
    }

theorem gentle_write (allocated : transport.Allocated)
    (found : ∃ old, transport.peers[key]? = some old ∧ old.handle = node.handle)
    : Gentle transport (transport.write key node) where
  allocated := allocated.write found
  live := fun _ => (live_write found).mpr
  queued := fun _ member => .inl member

/-- Every step is gentle but `connect`, and sending for a record in hand. -/
theorem step_gentle {event : HandleEvent} {outputs : List HandledOutput}
    (allocated : transport.Allocated) (taken : transport.step event = .ok (after, outputs))
    (notConnect : ∀ remoteId addr datagram, event ≠ .connect remoteId addr datagram)
    (notHandSend : ∀ index datagram stale, event ≠ .handSend index datagram stale)
    : Gentle transport after := by
  have idle : Gentle transport transport := .subset allocated rfl rfl fun _ member => member
  cases event with
  | connect remoteId addr datagram => exact absurd rfl (notConnect remoteId addr datagram)
  | handSend index datagram stale => exact absurd rfl (notHandSend index datagram stale)
  | sendMessage message =>
      obtain rfl : after = (transport.sendMessage message).1 :=
        (congrArg Prod.fst (Except.ok.inj taken)).symm
      rw [sendMessage]
      split
      · exact idle
      · split
        · exact idle
        · split
          · exact idle
          · exact .subset allocated rfl rfl fun _ member => member
  | sendCommand peerId payload datagram =>
      obtain rfl : after = (transport.sendCommand peerId payload datagram).1 :=
        (congrArg Prod.fst (Except.ok.inj taken)).symm
      rw [sendCommand]
      split
      · exact idle
      · split
        · exact idle
        · split
          · exact idle
          · rename_i node found
            split
            · exact idle
            · exact .sendRaw allocated (findPeer_live found) _ _
  | takeSendQueue =>
      rw [step] at taken
      split at taken
      · cases taken
        exact .subset allocated rfl rfl fun _ member => member
      · cases taken
  | dispose =>
      rw [step] at taken
      split at taken
      · cases taken
      · rename_i message rest _
        cases taken
        obtain ⟨peers, next, queued⟩ := @dispose_frame { transport with pass := rest } message
        exact {
          allocated := allocated.congr peers next
          live := fun _ live => live.congr peers
          queued := fun handle member =>
            (queued handle member).imp_right fun live => live.congr peers
        }
  | reactorSend key datagram =>
      rw [step] at taken
      split at taken
      · cases taken
      · rename_i node found
        cases taken
        exact .sendRaw allocated ⟨key, node, found, rfl⟩ _ _
  | reactorWrite key state =>
      rw [step] at taken
      split at taken
      · cases taken
      · rename_i node found
        cases taken
        exact gentle_write allocated ⟨node, found, rfl⟩
  | takeTask =>
      rw [step] at taken
      split at taken
      · cases taken
      · rename_i task rest items
        cases taken
        refine .subset allocated rfl rfl fun handle member => ?_
        simp only [queued, items, List.map_cons, List.cons_append, List.mem_cons] at member ⊢
        exact .inr member
  | receive source draw =>
      cases taken
      exact gentle_receive allocated source draw
  | handWrite index id state =>
      rw [step] at taken
      split at taken
      · cases taken
      · rename_i handle _
        cases taken
        rw [writeHandle]
        split
        · rename_i key node found
          exact gentle_write allocated ⟨node, (find_handle found).1, rfl⟩
        · exact idle
  | handDone index =>
      cases taken
      exact .subset allocated rfl rfl fun _ member => member
  | takePacket stale =>
      rw [step] at taken
      split at taken
      · cases taken
      · rename_i packet rest items
        cases taken
        refine .subset allocated rfl rfl fun handle member => ?_
        simp only [queued, items, List.map_cons, List.mem_append, List.mem_cons] at member ⊢
        grind
  | litePoll =>
      rw [step] at taken
      split at taken
      · rename_i packet rest none items
        cases taken
        refine .subset allocated rfl rfl fun handle member => ?_
        simp only [queued, items, none, List.map_cons, List.mem_append, List.mem_cons,
          Option.map_some, Option.map_none, Option.toList_some, Option.toList_none,
          List.not_mem_nil, or_false] at member ⊢
        grind
      · cases taken
  | liteSend stale =>
      rw [step] at taken
      split at taken
      · cases taken
      · cases taken
        refine .subset allocated rfl rfl fun handle member => ?_
        simp only [queued, List.mem_append, Option.map_none, Option.toList_none, List.not_mem_nil,
          or_false] at member ⊢
        exact .inl member
  | setLiteMode lite =>
      cases taken
      exact .subset allocated rfl rfl fun _ member => member
  | stop =>
      cases taken
      exact .subset allocated rfl rfl fun _ member => member

/-- A packet for a record in hand keeps the queues valid exactly when the record is in the map or nothing is
queued.
-/
theorem handSend_valid_iff (allocated : transport.Allocated) (valid : transport.QueuesValid) {index : Nat} {datagram : Bytes}
    {stale : Bool} (held : transport.hands[index]? = some handle)
    : (transport.sendRaw handle (transport.addrSetOf handle stale) datagram).QueuesValid
      ↔ HandleEvent.Spares transport (.handSend index datagram stale) := by
  by_cases live : transport.Live handle
  · refine iff_of_true ((Gentle.sendRaw allocated live _ _).valid valid) fun other same dead => ?_
    obtain rfl := Option.some.inj (held.symm.trans same)
    exact absurd live dead
  · rw [addrSetOf_dead live]
    constructor
    · intro still other same _
      obtain rfl := Option.some.inj (held.symm.trans same)
      cases stale with
      | false => exact .inl rfl
      | true =>
          refine .inr (Bool.eq_true_of_not_eq_false fun takes => live ?_)
          have queued : handle ∈ (transport.sendRaw handle true datagram).queued :=
            (mem_queued_sendRaw true datagram).mpr (.inr ⟨rfl, takes, rfl⟩)
          exact (still handle queued).congr (sendRaw_peers _ _).symm
    · intro spares
      refine valid.subset (sendRaw_peers _ _) fun other member => ?_
      rcases (mem_queued_sendRaw stale datagram).mp member with before | ⟨set, takes, -⟩
      · exact before
      · rcases spares handle held live with unset | refuses
        · exact absurd (unset.symm.trans set) Bool.false_ne_true
        · exact absurd (takes.symm.trans refuses) Bool.false_ne_true

/-- Every step keeps allocations apart, and keeps valid queues valid exactly when it spares the queued
records.
-/
theorem step_keeps {event : HandleEvent} {outputs : List HandledOutput}
    (allocated : transport.Allocated) (taken : transport.step event = .ok (after, outputs))
    : after.Allocated ∧ (transport.QueuesValid → (after.QueuesValid ↔ event.Spares transport)) := by
  by_cases connects : ∃ remoteId addr datagram, event = .connect remoteId addr datagram
  · obtain ⟨remoteId, addr, datagram, rfl⟩ := connects
    obtain rfl : after = (transport.connect remoteId addr datagram).1 :=
      (congrArg Prod.fst (Except.ok.inj taken)).symm
    exact ⟨allocated.connect remoteId addr datagram,
      fun valid => connect_valid_iff allocated valid remoteId addr datagram⟩
  by_cases sends : ∃ index datagram stale, event = .handSend index datagram stale
  · obtain ⟨index, datagram, stale, rfl⟩ := sends
    rw [step] at taken
    split at taken
    · cases taken
    · rename_i held
      cases taken
      exact ⟨allocated.congr (sendRaw_peers _ _) (sendRaw_allocated _ _),
        fun valid => handSend_valid_iff allocated valid held⟩
  push Not at connects sends
  have gentle := step_gentle allocated taken connects sends
  refine ⟨gentle.allocated, fun valid => iff_of_true (gentle.valid valid) ?_⟩
  cases event with
  | connect remoteId addr datagram => exact absurd rfl (connects remoteId addr datagram)
  | handSend index datagram stale => exact absurd rfl (sends index datagram stale)
  | _ => trivial

-- Runs

abbrev History := List (Stage HandledTransport HandleEvent HandledOutput)

/-- A transport that has just been started: no records and empty queues. -/
def started (identity : Identity) (queueLimit encodeLimit outboundLimit : Nat) (lite : Bool)
    : HandledTransport where
  identity := identity
  queueLimit := queueLimit
  lite := lite
  encodeQueue := { capacity := encodeLimit }
  outboundQueue := { capacity := outboundLimit }

theorem run_allocated {identity : Identity} {queueLimit encodeLimit outboundLimit : Nat} {lite : Bool}
    {allowed : History → HandledTransport → HandleEvent → Prop} {history : History}
    {last : HandledTransport}
    (run : Run HandledTransport.step allowed
      (started identity queueLimit encodeLimit outboundLimit lite) history last)
    : last.Allocated := by
  refine run.invariant (fun _ transport => transport.Allocated) ?_ ?_
  · refine ⟨?_, ?_⟩
    · intro key node found
      cases found
    · intro key other node node' found
      cases found
  · intro history transport event after outputs _ allocated _ taken
    exact (step_keeps allocated taken).1

/-- In every run the pointers in the queues are valid in every state exactly when each step spares the
queued records: no call of `connect` erases a record that is queued, and no thread queues a packet for a
record that was erased under its hands.
-/
theorem queues_valid_iff {identity : Identity} {queueLimit encodeLimit outboundLimit : Nat}
    {lite : Bool} {history : History} {last : HandledTransport}
    (run : Run HandledTransport.step (fun _ _ _ => True)
      (started identity queueLimit encodeLimit outboundLimit lite) history last)
    : Throughout (fun _ transport => transport.QueuesValid) history last
      ↔ ∀ stage ∈ history, stage.event.Spares stage.before := by
  refine run.throughout_iff ?_ ?_
  · intro handle member
    cases member
  · intro history transport event after outputs earlier valid _ taken
    exact (step_keeps (run_allocated earlier) taken).2 valid

/-- A caller connects to an address, and to the same address under another name, before the first packet
is on its way.
-/
def reconnected : List HandleEvent :=
  [
    .connect [1] { addr := 1, port := 1 } [0xAA],
    .connect [2] { addr := 1, port := 1 } [0xBB],
    .takePacket false
  ]

theorem queues_valid_iff_reconnected
    : ∃ history last, Run HandledTransport.step (fun _ _ _ => True) (started {} 8 8 8 false) history last
      ∧ history.length = 3
      ∧ (Throughout (fun _ transport => transport.QueuesValid) history last
        ↔ ∀ stage ∈ history, stage.event.Spares stage.before) := by
  have shown : shows HandledTransport.step (started {} 8 8 8 false) reconnected
      (fun history => history.length = 3) = true := by
    decide +kernel
  obtain ⟨history, last, run, length⟩ := Run.of_shows shown
  exact ⟨history, last, run, of_decide_eq_true length, queues_valid_iff run⟩

/-- `connect` erases the record that its first packet is queued for. -/
theorem replaced_still_queued
    : ¬ ∀ identity queueLimit encodeLimit outboundLimit lite history last,
        Run HandledTransport.step (fun _ _ _ => True)
          (started identity queueLimit encodeLimit outboundLimit lite) history last
        → Throughout (fun _ transport => transport.QueuesValid) history last := by
  intro always
  have shown : shows HandledTransport.step (started {} 8 8 8 false) reconnected (fun history =>
      history.any fun stage => stage.before.queued.any fun handle =>
        (stage.before.nodeOf handle).isNone) = true := by
    decide +kernel
  obtain ⟨history, last, run, found⟩ := Run.of_shows shown
  obtain ⟨stage, member, dangles⟩ := List.any_eq_true.mp found
  obtain ⟨handle, queued, gone⟩ := List.any_eq_true.mp dangles
  obtain ⟨front, back, split⟩ := List.append_of_mem member
  have valid := (always _ _ _ _ _ history last run).1 front stage back split
  exact dead_of_nodeOf (Option.isNone_iff_eq_none.mp gone) (valid handle queued)

end HandledTransport

end Creek.Tight
