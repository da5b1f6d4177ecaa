import Creek.Proofs.Tight.Fragments
import Mathlib

/-! A fragmented message over a lossy link.
A receiver is handed the fragments of one message in any order and multiplicity among packets
of other messages. What it holds of the message is a set of fragments, so a run delivers what
the first sufficient set assembles to.
-/

namespace Creek.Tight

open Library Reassembler

/-- The packet carries the fragment of the call; its other header fields are arbitrary. -/
structure Carries (call : FragmentCall) (arrival : Arrival) : Prop where
  messageId : arrival.header.messageId = call.msgId
  flags : arrival.header.flags = call.dataCnt
  fragmentIndex : arrival.header.fragmentIndex = call.idx
  fragmentCount : arrival.header.fragmentCount = call.cnt
  reserved : arrival.header.reserved = call.realSize
  payload : arrival.payload = call.payload

namespace Sending

variable {sending : Sending} {limit : Nat}

/-- The packet belongs to the message. -/
def Owns (sending : Sending) (arrival : Arrival) : Prop :=
  arrival.header.messageId.toNat = sending.messageId

instance (sending : Sending) (arrival : Arrival) : Decidable (sending.Owns arrival) :=
  inferInstanceAs (Decidable (_ = _))

/-- Every packet of the message carries one of its fragments, other packets announce no more
data fragments than fragments, and all calls use the configured limit.
-/
structure Traffic (sending : Sending) (limit : Nat) (arrivals : List Arrival) : Prop where
  limits : ∀ arrival ∈ arrivals, arrival.context.maxMessageBytes = limit
  own : ∀ arrival ∈ arrivals, sending.Owns arrival → ∃ call ∈ sending.calls, Carries call arrival
  others : ∀ arrival ∈ arrivals, ¬sending.Owns arrival
    → arrival.header.flags.toNat ≤ arrival.header.fragmentCount.toNat

/-- All but at most as many fragments as there are parities arrive. -/
def Suffices (sending : Sending) (arrivals : List Arrival) : Prop :=
  ∃ lost : Finset Nat, lost.card ≤ sending.parityCount
    ∧ ∀ (i : Nat) (call : FragmentCall), sending.calls[i]? = some call → i ∉ lost
      → ∃ arrival ∈ arrivals, Carries call arrival

/-- The receiver has not met the message id before. -/
structure Fresh (sending : Sending) (collection : Collection) : Prop where
  sound : Sound collection
  incoming : collection.incoming[sending.messageId]? = none
  completed : collection.completed.contains sending.messageId = false

/-- The deliveries of the message. -/
def ofMessage (sending : Sending) (deliveries : List Delivery) : List Delivery :=
  deliveries.filter fun delivery => delivery.1 = sending.messageId

/-- Whatever else arrives, the message is delivered exactly once and intact. -/
def Delivers (sending : Sending) (limit : Nat) : Prop :=
  ∀ (numerics : Numerics) (receiver : Peer) (arrivals : List Arrival),
    sending.Fresh receiver.collection → sending.Traffic limit arrivals
    → sending.Suffices arrivals
    → ∃ final deliveries, run numerics receiver arrivals = .ok (final, deliveries)
      ∧ sending.ofMessage deliveries = [(sending.messageId, sending.payload)]

/-- What the configuration and the message satisfy. -/
structure Within (sending : Sending) (limit : Nat) : Prop where
  limitLow : 8192 ≤ limit
  limitHigh : limit ≤ 10485760
  payload : sending.payload.length ≤ limit
  width : 64 ≤ sending.width
  count : sending.totalCount < 2 ^ 15

/-- A packet that carries fragment `i`, by the numbers the receiver reads. -/
structure CarriesIndex (sending : Sending) (i : Nat) (arrival : Arrival) : Prop where
  index : i < sending.totalCount
  messageId : arrival.header.messageId.toNat = sending.messageId
  flags : arrival.header.flags.toNat = sending.dataCount
  fragmentIndex : arrival.header.fragmentIndex.toNat = i
  fragmentCount : arrival.header.fragmentCount.toNat = sending.totalCount
  reserved : arrival.header.reserved.toNat = u16 (sending.size i)
  payload : arrival.payload = sending.shard i

theorem Within.carriesIndex (within : sending.Within limit) {i : Nat} {arrival : Arrival}
    (index : i < sending.totalCount) (carries : Carries (sending.call i) arrival)
    : sending.CarriesIndex i arrival := by
  have count := within.count
  have data : sending.dataCount ≤ sending.totalCount := Nat.le_add_right _ _
  have id := sending.messageId_range.2
  refine ⟨index, ?_, ?_, ?_, ?_, ?_, ?_⟩
  · rw [carries.messageId, call, UInt32.toNat_ofNat', Nat.mod_eq_of_lt (by omega)]
  · rw [carries.flags, call, UInt16.toNat_ofNat', Nat.mod_eq_of_lt (by omega)]
  · rw [carries.fragmentIndex, call, UInt16.toNat_ofNat', Nat.mod_eq_of_lt (by omega)]
  · rw [carries.fragmentCount, call, UInt16.toNat_ofNat', Nat.mod_eq_of_lt (by omega)]
  · rw [carries.reserved, call, UInt16.toNat_ofNat']
    rfl
  · rw [carries.payload, payload_call _ index]

/-- The number of fragments of a message within the limit is admitted. -/
theorem Within.totalCount_le (within : sending.Within limit)
    : sending.totalCount ≤ maxFragments limit := by
  have payload := within.payload
  have width := within.width
  have most := sending.parityCount_le
  have covers := sending.dataCount_covers.2
  have bound : (sending.dataCount - 1) * 64 ≤ (sending.dataCount - 1) * sending.width :=
    Nat.mul_le_mul_left _ width
  rw [length_full] at covers
  rw [maxFragments, totalCount]
  omega

/-- What a receiver holds of the message before it is delivered: a group of the fragments in
`seen`, which exists from the first fragment on.
-/
structure Awaits (sending : Sending) (collection : Collection) (seen : Finset Nat) : Prop where
  sound : Sound collection
  known : seen ⊆ Finset.range sending.totalCount
  completed : collection.completed.contains sending.messageId = false
  absent : seen = ∅ → collection.incoming[sending.messageId]? = none
  held : seen ≠ ∅ → ∃ firstSeen,
    collection.incoming[sending.messageId]? = some (sending.group seen firstSeen)

/-- The message has been delivered. -/
structure Finished (sending : Sending) (collection : Collection) : Prop where
  sound : Sound collection
  completed : collection.completed.contains sending.messageId = true

/-- Collecting a packet touches the entries under its message id only. -/
theorem collect_frame {collection next : Collection} {header : PacketHeader} {payload : Bytes}
    {context : Context} {delivered : Option Bytes}
    (collected : collect collection header payload context = .ok (next, delivered)) {id : Nat}
    (other : header.messageId.toNat ≠ id)
    : next.incoming[id]? = collection.incoming[id]?
      ∧ next.completed.contains id = collection.completed.contains id := by
  have inserted (message : IncomingMessage)
      : (collection.incoming.insert header.messageId.toNat message)[id]?
        = collection.incoming[id]? := by
    rw [Std.TreeMap.getElem?_insert, if_neg (by simpa using other)]
  rw [collect] at collected
  simp only at collected
  split at collected
  · obtain ⟨rfl, -⟩ := Prod.mk.inj (Except.ok.inj collected)
    exact ⟨inserted _, rfl⟩
  split at collected
  · obtain ⟨rfl, -⟩ := Prod.mk.inj (Except.ok.inj collected)
    exact ⟨inserted _, rfl⟩
  cases assembled : tryAssemble
      (storeFragment (openGroup collection header context.now) header payload)
      context.maxMessageBytes with
  | error fault =>
      rw [assembled] at collected
      cases collected
  | ok result =>
      rw [assembled, ok_bind] at collected
      cases result with
      | none =>
          obtain ⟨rfl, -⟩ := Prod.mk.inj (Except.ok.inj collected)
          exact ⟨inserted _, rfl⟩
      | some bytes =>
          obtain ⟨rfl, -⟩ := Prod.mk.inj (Except.ok.inj collected)
          refine ⟨?_, ?_⟩
          · rw [Std.TreeMap.getElem?_erase, if_neg (by simpa using other)]
          · rw [Std.TreeMap.contains_insert]
            simp [other]

/-- A packet of another message whose counts agree leaves the entries of this one alone. -/
theorem handleData_other (numerics : Numerics) {peer : Peer} {arrival : Arrival}
    (sound : Sound peer.collection) (other : ¬sending.Owns arrival)
    (counts : arrival.header.flags.toNat ≤ arrival.header.fragmentCount.toNat)
    : ∃ next delivered,
        handleData numerics peer arrival.header arrival.payload arrival.context
          = .ok (next, delivered)
        ∧ Sound next.collection
        ∧ next.collection.incoming[sending.messageId]?
          = peer.collection.incoming[sending.messageId]?
        ∧ next.collection.completed.contains sending.messageId
          = peer.collection.completed.contains sending.messageId := by
  obtain ⟨next, delivered, handled, after⟩ :=
    (handleData_safe_iff numerics sound arrival).1 fun _ _ _ => counts
  refine ⟨next, delivered, handled, after, ?_⟩
  rw [handleData] at handled
  simp only at handled
  split at handled
  · obtain ⟨rfl, -⟩ := Prod.mk.inj (Except.ok.inj handled)
    exact ⟨rfl, rfl⟩
  cases collected : collect peer.collection arrival.header arrival.payload arrival.context with
  | error fault =>
      rw [collected] at handled
      cases handled
  | ok result =>
      rw [collected, ok_bind] at handled
      obtain ⟨rfl, -⟩ := Prod.mk.inj (Except.ok.inj handled)
      exact collect_frame collected other

theorem set_map_range {α : Type} (f : Nat → α) (n i : Nat) (value : α)
    : ((List.range n).map f).set i value
      = (List.range n).map fun j => if j = i then value else f j := by
  refine List.ext_getElem (by simp) fun j inLeft inRight => ?_
  rw [List.getElem_set]
  simp only [List.getElem_map, List.getElem_range]
  exact if_congr eq_comm rfl rfl

theorem storeFragment_group {seen : Finset Nat} {firstSeen : TimePoint} {i : Nat}
    {arrival : Arrival} (carries : sending.CarriesIndex i arrival)
    : storeFragment (sending.group seen firstSeen) arrival.header arrival.payload
      = sending.group (insert i seen) firstSeen := by
  have place : (sending.group seen firstSeen).fragments.getD i none
      = if i ∈ seen then some (sending.shard i) else none := by
    rw [List.getD_eq_getElem?_getD, getElem?_fragments_group _ _ carries.index, Option.getD_some]
  simp only [storeFragment, carries.fragmentIndex, carries.reserved, carries.payload, place]
  by_cases member : i ∈ seen
  · rw [if_pos member, Finset.insert_eq_of_mem member]
    rfl
  · rw [if_neg member]
    simp only [group, set_map_range, Finset.mem_insert, Option.isSome_none, Bool.false_eq_true,
      if_false]
    congr 1
    · refine List.map_congr_left fun j _ => ?_
      by_cases here : j = i
      · subst here
        simp
      · simp [here]
    · refine List.map_congr_left fun j _ => ?_
      by_cases here : j = i
      · subst here
        simp
      · simp [here]

/-- The group a fragment finds is the group of the fragments before it. -/
theorem Awaits.openGroup {collection : Collection} {seen : Finset Nat} {i : Nat}
    {arrival : Arrival} (awaits : sending.Awaits collection seen)
    (carries : sending.CarriesIndex i arrival)
    : ∃ firstSeen,
        Reassembler.openGroup collection arrival.header arrival.context.now
        = sending.group seen firstSeen := by
  simp only [Reassembler.openGroup, carries.messageId, carries.fragmentCount, carries.flags,
    Std.TreeMap.getD_eq_getD_getElem?]
  by_cases empty : seen = ∅
  · refine ⟨arrival.context.now, ?_⟩
    rw [awaits.absent empty, Option.getD_none, if_pos rfl, empty]
    simp [group]
  · obtain ⟨firstSeen, stored⟩ := awaits.held empty
    have belongs : (sending.group seen firstSeen).messageId ≠ 0 :=
      Nat.ne_of_gt sending.messageId_range.1
    exact ⟨firstSeen, by rw [stored, Option.getD_some, if_neg belongs]⟩

/-- A fragment extends what the receiver holds; the message is delivered once the extended
group assembles.
-/
theorem Awaits.handleData {peer : Peer} {seen : Finset Nat} {i : Nat} {arrival : Arrival}
    (awaits : sending.Awaits peer.collection seen) (within : sending.Within limit)
    (carries : sending.CarriesIndex i arrival)
    (atLimit : arrival.context.maxMessageBytes = limit) {outcome : Option Bytes}
    (assembles : ∀ firstSeen,
      tryAssemble (sending.group (insert i seen) firstSeen) limit = .ok outcome)
    (numerics : Numerics)
    : ∃ next,
        Reassembler.handleData numerics peer arrival.header arrival.payload arrival.context
          = .ok (next, outcome)
        ∧ (outcome = none → sending.Awaits next.collection (insert i seen))
        ∧ (outcome ≠ none → sending.Finished next.collection) := by
  have index := carries.index
  have few := within.totalCount_le
  have admitted : admits peer.collection arrival.header arrival.context.maxMessageBytes = true := by
    simp only [admits, carries.messageId, carries.fragmentIndex, carries.fragmentCount, atLimit,
      awaits.completed, Bool.and_eq_true, decide_eq_true_eq, Bool.not_false, and_true]
    exact ⟨⟨by omega, index⟩, few⟩
  obtain ⟨firstSeen, opened⟩ := awaits.openGroup carries
  have length : (sending.group seen firstSeen).fragments.length = sending.totalCount := by
    simp [group]
  have counts : ¬(sending.group seen firstSeen).totalCount ≠ sending.totalCount :=
    not_not_intro rfl
  have sound : ∀ message, WellFormed message
      → Sound { peer.collection with
        incoming := peer.collection.incoming.insert sending.messageId message } :=
    fun message wellFormed => awaits.sound.insert wellFormed
  have collected : collect peer.collection arrival.header arrival.payload arrival.context
      = .ok (outcome.elim
        (
          {
            peer.collection with
            incoming := peer.collection.incoming.insert sending.messageId
              (sending.group (insert i seen) firstSeen)
          },
          none)
        fun bytes => (
          {
            incoming := peer.collection.incoming.erase sending.messageId
            completed := peer.collection.completed.insert sending.messageId arrival.context.now
          },
          some bytes)) := by
    rw [collect]
    simp only [opened, carries.messageId, carries.fragmentCount, carries.fragmentIndex, counts,
      if_false, length, ge_iff_le, Nat.not_le.mpr index, storeFragment_group carries, atLimit,
      assembles firstSeen, ok_bind]
    cases outcome <;> rfl
  simp only [Reassembler.handleData, admitted, not_true_eq_false, if_false, collected]
  cases outcome with
  | none =>
      refine ⟨_, rfl, fun _ => ⟨sound _ wellFormed_group, ?_, awaits.completed, ?_, fun _ => ?_⟩,
        fun some_ => absurd rfl some_⟩
      · exact Finset.insert_subset (Finset.mem_range.mpr index) awaits.known
      · exact fun empty => absurd empty (Finset.insert_ne_empty i seen)
      · exact ⟨firstSeen, Std.TreeMap.getElem?_insert_self⟩
  | some bytes =>
      refine ⟨_, rfl, fun none_ => absurd none_ (Option.some_ne_none bytes),
        fun _ => ⟨?_, Std.TreeMap.contains_insert_self⟩⟩
      intro id message stored belongs
      rw [Option.elim_some, Std.TreeMap.getElem?_erase] at stored
      split at stored
      · cases stored
      · exact awaits.sound id message stored belongs

theorem Finished.handleData {peer : Peer} {arrival : Arrival}
    (finished : sending.Finished peer.collection) (own : sending.Owns arrival)
    (numerics : Numerics)
    : ∃ next,
        Reassembler.handleData numerics peer arrival.header arrival.payload arrival.context
          = .ok (next, none)
        ∧ next.collection = peer.collection := by
  have refused : admits peer.collection arrival.header arrival.context.maxMessageBytes = false := by
    have id : arrival.header.messageId.toNat = sending.messageId := own
    simp [admits, id, finished.completed]
  simp only [Reassembler.handleData, refused, Bool.false_eq_true, not_false_eq_true, if_true]
  exact ⟨_, rfl, rfl⟩

/-- The fragments seen after one more packet. -/
def note (sending : Sending) (seen : Finset Nat) (arrival : Arrival) : Finset Nat :=
  if sending.Owns arrival then insert arrival.header.fragmentIndex.toNat seen else seen

/-- The fragments among the packets. -/
def seenAfter (sending : Sending) (arrivals : List Arrival) : Finset Nat → Finset Nat :=
  arrivals.foldl sending.note

theorem mem_seenAfter {arrivals : List Arrival} {seen : Finset Nat} {i : Nat}
    : i ∈ sending.seenAfter arrivals seen
      ↔ i ∈ seen
        ∨ ∃ arrival ∈ arrivals, sending.Owns arrival
          ∧ arrival.header.fragmentIndex.toNat = i := by
  rw [seenAfter]
  induction arrivals generalizing seen with
  | nil => simp
  | cons arrival rest ih =>
      rw [List.foldl_cons, ih, note]
      by_cases own : sending.Owns arrival
      · rw [if_pos own, Finset.mem_insert]
        simp only [List.mem_cons, exists_eq_or_imp, own, true_and]
        rw [eq_comm, or_assoc, or_left_comm]
      · rw [if_neg own]
        simp [own]

theorem subset_seenAfter (sending : Sending) (arrivals : List Arrival) (seen : Finset Nat)
    : seen ⊆ sending.seenAfter arrivals seen :=
  fun _ member => mem_seenAfter.mpr (Or.inl member)

theorem Traffic.tail {arrival : Arrival} {rest : List Arrival}
    (traffic : sending.Traffic limit (arrival :: rest))
    : sending.Traffic limit rest :=
  ⟨fun other member => traffic.limits other (List.mem_cons_of_mem _ member),
    fun other member => traffic.own other (List.mem_cons_of_mem _ member),
    fun other member => traffic.others other (List.mem_cons_of_mem _ member)⟩

/-- Every packet of the message carries a fragment with a known index. -/
theorem Traffic.carriesIndex {arrivals : List Arrival} (traffic : sending.Traffic limit arrivals)
    (within : sending.Within limit) {arrival : Arrival} (member : arrival ∈ arrivals)
    (own : sending.Owns arrival)
    : sending.CarriesIndex arrival.header.fragmentIndex.toNat arrival := by
  obtain ⟨call, inCalls, carries⟩ := traffic.own arrival member own
  rw [calls_eq] at inCalls
  obtain ⟨i, inRange, rfl⟩ := List.mem_map.mp inCalls
  have indexed := within.carriesIndex (List.mem_range.mp inRange) carries
  rw [indexed.fragmentIndex]
  exact indexed

theorem ofMessage_append (left right : List Delivery)
    : sending.ofMessage (left ++ right) = sending.ofMessage left ++ sending.ofMessage right :=
  List.filter_append ..

theorem ofMessage_other {arrival : Arrival} (other : ¬sending.Owns arrival)
    (delivered : Option Bytes)
    : sending.ofMessage (tagged arrival delivered) = [] := by
  have apart : arrival.header.messageId.toNat ≠ sending.messageId := other
  cases delivered <;> simp [ofMessage, tagged, apart]

theorem ofMessage_own {arrival : Arrival} (own : sending.Owns arrival) (bytes : Bytes)
    : sending.ofMessage (tagged arrival (some bytes))
      = [(sending.messageId, bytes)] := by
  have same : arrival.header.messageId.toNat = sending.messageId := own
  simp [ofMessage, tagged, same]

theorem Finished.run {peer : Peer} (finished : sending.Finished peer.collection)
    {arrivals : List Arrival} (traffic : sending.Traffic limit arrivals) (numerics : Numerics)
    (before : List Delivery)
    : ∃ final deliveries,
        arrivals.foldlM (runStep numerics) (peer, before) = .ok (final, before ++ deliveries)
        ∧ sending.ofMessage deliveries = [] := by
  induction arrivals generalizing peer before with
  | nil => exact ⟨peer, [], by rw [List.append_nil]; rfl, rfl⟩
  | cons arrival rest ih =>
      by_cases own : sending.Owns arrival
      · obtain ⟨next, handled, same⟩ := finished.handleData own numerics
        have still : sending.Finished next.collection := same ▸ finished
        obtain ⟨final, deliveries, ran, none⟩ := ih still traffic.tail before
        refine ⟨final, deliveries, ?_, none⟩
        rw [List.foldlM_cons, runStep_of_handleData handled, ok_bind]
        simpa [tagged] using ran
      · obtain ⟨next, delivered, handled, sound, -, completed⟩ := handleData_other numerics
          finished.sound own (traffic.others arrival List.mem_cons_self own)
        have still : sending.Finished next.collection :=
          ⟨sound, completed.trans finished.completed⟩
        obtain ⟨final, deliveries, ran, none⟩ := ih still traffic.tail
          (before ++ tagged arrival delivered)
        refine ⟨final, tagged arrival delivered ++ deliveries, ?_, ?_⟩
        · rw [List.foldlM_cons, runStep_of_handleData handled, ok_bind, ran, List.append_assoc]
        · rw [ofMessage_append, ofMessage_other own, none]
          rfl

/-- A run delivers what the first set of fragments that assembles to something assembles to,
or nothing while no set does.
-/
theorem Awaits.run {peer : Peer} {seen : Finset Nat}
    (awaits : sending.Awaits peer.collection seen) (within : sending.Within limit)
    {arrivals : List Arrival} (traffic : sending.Traffic limit arrivals)
    (outcome : Finset Nat → Option Bytes)
    (assembles : ∀ held ⊆ sending.seenAfter arrivals seen, held ⊆ Finset.range sending.totalCount
      → held.Nonempty → ∀ firstSeen,
        tryAssemble (sending.group held firstSeen) limit = .ok (outcome held))
    (numerics : Numerics) (before : List Delivery)
    : ∃ final deliveries,
        arrivals.foldlM (runStep numerics) (peer, before) = .ok (final, before ++ deliveries)
        ∧ ((sending.ofMessage deliveries = []
            ∧ (sending.seenAfter arrivals seen = seen
              ∨ outcome (sending.seenAfter arrivals seen) = none))
          ∨ ∃ held ⊆ sending.seenAfter arrivals seen, ∃ bytes,
              held.Nonempty
              ∧ outcome held = some bytes
              ∧ sending.ofMessage deliveries = [(sending.messageId, bytes)]) := by
  induction arrivals generalizing peer seen before with
  | nil => exact ⟨peer, [], by rw [List.append_nil]; rfl, Or.inl ⟨rfl, Or.inl rfl⟩⟩
  | cons arrival rest ih =>
      by_cases own : sending.Owns arrival
      · have carries := traffic.carriesIndex within List.mem_cons_self own
        have noted : sending.seenAfter (arrival :: rest) seen
            = sending.seenAfter rest (insert arrival.header.fragmentIndex.toNat seen) := by
          rw [seenAfter, List.foldl_cons, note, if_pos own]
          rfl
        rw [noted] at assembles ⊢
        have extended := sending.subset_seenAfter rest
          (insert arrival.header.fragmentIndex.toNat seen)
        have known : insert arrival.header.fragmentIndex.toNat seen
            ⊆ Finset.range sending.totalCount :=
          Finset.insert_subset (Finset.mem_range.mpr carries.index) awaits.known
        obtain ⟨next, handled, waits, finishes⟩ := awaits.handleData within carries
          (traffic.limits arrival List.mem_cons_self)
          (assembles _ extended known (Finset.insert_nonempty _ _)) numerics
        rw [List.foldlM_cons, runStep_of_handleData handled, ok_bind]
        cases result : outcome (insert arrival.header.fragmentIndex.toNat seen) with
        | none =>
            obtain ⟨final, deliveries, ran, ends⟩ := ih (waits result) traffic.tail assembles
              (before ++ tagged arrival none)
            refine ⟨final, deliveries, by simpa [tagged] using ran, ?_⟩
            rcases ends with ⟨none, unchanged | undelivered⟩ | delivered
            · exact Or.inl ⟨none, Or.inr (by rw [unchanged]; exact result)⟩
            · exact Or.inl ⟨none, Or.inr undelivered⟩
            · exact Or.inr delivered
        | some bytes =>
            obtain ⟨final, deliveries, ran, none⟩ :=
              (finishes (by rw [result]; simp)).run traffic.tail numerics
                (before ++ tagged arrival (some bytes))
            refine ⟨final, tagged arrival (some bytes) ++ deliveries, ?_, Or.inr ?_⟩
            · rw [ran, List.append_assoc]
            · refine ⟨_, extended, bytes, Finset.insert_nonempty _ _, result, ?_⟩
              rw [ofMessage_append, ofMessage_own own, none, List.append_nil]
      · have noted : sending.seenAfter (arrival :: rest) seen = sending.seenAfter rest seen := by
          rw [seenAfter, List.foldl_cons, note, if_neg own]
          rfl
        rw [noted] at assembles ⊢
        obtain ⟨next, delivered, handled, sound, incoming, completed⟩ := handleData_other numerics
          awaits.sound own (traffic.others arrival List.mem_cons_self own)
        have still : sending.Awaits next.collection seen :=
          ⟨sound, awaits.known, completed.trans awaits.completed,
            fun empty => incoming.trans (awaits.absent empty),
            fun nonempty => by rw [incoming]; exact awaits.held nonempty⟩
        obtain ⟨final, deliveries, ran, ends⟩ := ih still traffic.tail assembles
          (before ++ tagged arrival delivered)
        refine ⟨final, tagged arrival delivered ++ deliveries, ?_, ?_⟩
        · rw [List.foldlM_cons, runStep_of_handleData handled, ok_bind, ran, List.append_assoc]
        · rw [ofMessage_append, ofMessage_other own, List.nil_append]
          exact ends

theorem Fresh.awaits {collection : Collection} (fresh : sending.Fresh collection)
    : sending.Awaits collection ∅ :=
  ⟨fresh.sound, Finset.empty_subset _, fresh.completed, fun _ => fresh.incoming,
    fun nonempty => absurd rfl nonempty⟩

theorem getElem?_calls {i : Nat} (bound : i < sending.totalCount)
    : sending.calls[i]? = some (sending.call i) := by
  rw [calls_eq, List.getElem?_map, List.getElem?_range bound]
  rfl

/-- Sufficient packets hold at least as many fragments as there are data fragments. -/
theorem Suffices.card {arrivals : List Arrival} (suffices_ : sending.Suffices arrivals)
    (within : sending.Within limit)
    : sending.dataCount ≤ (sending.seenAfter arrivals ∅).card := by
  obtain ⟨lost, few, rest⟩ := suffices_
  have covered : Finset.range sending.totalCount \ lost ⊆ sending.seenAfter arrivals ∅ := by
    intro i member
    obtain ⟨inRange, kept⟩ := Finset.mem_sdiff.mp member
    have bound := Finset.mem_range.mp inRange
    obtain ⟨arrival, arrived, carries⟩ := rest i _ (getElem?_calls bound) kept
    have indexed := within.carriesIndex bound carries
    exact mem_seenAfter.mpr (Or.inr ⟨arrival, arrived, indexed.messageId, indexed.fragmentIndex⟩)
  have size := (Finset.le_card_sdiff lost (Finset.range sending.totalCount)).trans
    (Finset.card_le_card covered)
  rw [Finset.card_range, totalCount] at size
  omega

/-- A decodable message whose sizes fit is delivered whatever happens on the way. Witness: a
set of fragments assembles to the payload exactly when it is large enough.
-/
theorem Decodable.delivers (decodable : sending.Decodable) (sizes : sending.SizesFit)
    (within : sending.Within limit)
    : sending.Delivers limit := by
  intro numerics receiver arrivals fresh traffic suffices_
  have high := within.limitHigh
  have wide := within.width
  let outcome (held : Finset Nat) : Option Bytes :=
    if sending.dataCount ≤ held.card then some sending.payload else none
  have enough := suffices_.card within
  have last : outcome (sending.seenAfter arrivals ∅) = some sending.payload := if_pos enough
  obtain ⟨final, deliveries, ran, ends⟩ := fresh.awaits.run within traffic outcome
    (fun held _ known _ firstSeen => by
      by_cases many : sending.dataCount ≤ held.card
      · rw [decodable.tryAssemble known many,
          sizes.unframe_stream within.payload (by omega) (by omega)]
        simp only [outcome, many, if_true]
      · rw [tryAssemble_few known (Nat.lt_of_not_le many)]
        simp only [outcome, many, if_false])
    numerics []
  refine ⟨final, deliveries, ran, ?_⟩
  rcases ends with ⟨-, unchanged | undelivered⟩ | ⟨held, -, bytes, -, delivered, only⟩
  · have data := sending.dataCount_pos
    rw [unchanged, Finset.card_empty] at enough
    omega
  · rw [last] at undelivered
    cases undelivered
  · simp only [outcome] at delivered
    split at delivered
    · obtain rfl := Option.some.inj delivered
      exact only
    · cases delivered

/-- A packet that carries fragment `i` and nothing else of interest. -/
def packet (sending : Sending) (limit i : Nat) : Arrival where
  header := (sending.call i).header
  payload := (sending.call i).payload
  context := { now := 0, arrivalMs := 0, rttUs := 0, maxMessageBytes := limit }

theorem carries_packet (limit i : Nat) : Carries (sending.call i) (sending.packet limit i) :=
  ⟨rfl, rfl, rfl, rfl, rfl, rfl⟩

/-- When no part of a sufficient set of fragments assembles to the payload, the message is not
delivered if exactly these arrive.
-/
theorem not_delivers (within : sending.Within limit) {sent : Finset Nat}
    (known : sent ⊆ Finset.range sending.totalCount) (enough : sending.dataCount ≤ sent.card)
    (outcome : Finset Nat → Option Bytes)
    (assembles : ∀ held ⊆ sent, held.Nonempty → ∀ firstSeen,
      tryAssemble (sending.group held firstSeen) limit = .ok (outcome held))
    (wrong : ∀ held ⊆ sent, outcome held ≠ some sending.payload)
    : ¬sending.Delivers limit := by
  intro delivers
  let arrivals := sent.toList.map (sending.packet limit)
  have carried {arrival : Arrival} (member : arrival ∈ arrivals)
      : ∃ i ∈ sent, arrival = sending.packet limit i := by
    obtain ⟨i, inSent, same⟩ := List.mem_map.mp member
    exact ⟨i, Finset.mem_toList.mp inSent, same.symm⟩
  have bound {i : Nat} (member : i ∈ sent) : i < sending.totalCount :=
    Finset.mem_range.mp (known member)
  have indexed {i : Nat} (member : i ∈ sent) : sending.CarriesIndex i (sending.packet limit i) :=
    within.carriesIndex (bound member) (carries_packet limit i)
  have traffic : sending.Traffic limit arrivals := by
    refine ⟨fun arrival member => ?_, fun arrival member _ => ?_, fun arrival member other => ?_⟩
    · obtain ⟨i, -, rfl⟩ := carried member
      rfl
    · obtain ⟨i, inSent, rfl⟩ := carried member
      exact ⟨_, List.mem_of_getElem? (getElem?_calls (bound inSent)), carries_packet limit i⟩
    · obtain ⟨i, inSent, rfl⟩ := carried member
      exact absurd (indexed inSent).messageId other
  have arrived : sending.seenAfter arrivals ∅ ⊆ sent := by
    intro i member
    rcases mem_seenAfter.mp member with none | ⟨arrival, inArrivals, -, same⟩
    · exact absurd none (Finset.notMem_empty i)
    · obtain ⟨j, inSent, rfl⟩ := carried inArrivals
      rw [(indexed inSent).fragmentIndex] at same
      exact same ▸ inSent
  have suffices_ : sending.Suffices arrivals := by
    refine ⟨Finset.range sending.totalCount \ sent, ?_, fun i call stored kept => ?_⟩
    · rw [Finset.card_sdiff_of_subset known, Finset.card_range, totalCount]
      omega
    · have inRange : i < sending.totalCount := by
        have inside := (List.getElem?_eq_some_iff.mp stored).1
        rwa [calls_eq, List.length_map, List.length_range] at inside
      have inSent : i ∈ sent := by
        by_contra absent
        exact kept (Finset.mem_sdiff.mpr ⟨Finset.mem_range.mpr inRange, absent⟩)
      rw [getElem?_calls inRange] at stored
      obtain rfl := Option.some.inj stored
      exact ⟨_, List.mem_map_of_mem (Finset.mem_toList.mpr inSent), carries_packet limit i⟩
  have fresh : sending.Fresh ({} : Peer).collection :=
    ⟨fun id message stored => by simp at stored, by simp, by simp⟩
  obtain ⟨final, deliveries, ran, intact⟩ := delivers default {} arrivals fresh traffic suffices_
  obtain ⟨final', deliveries', ran', ends⟩ := fresh.awaits.run within traffic outcome
    (fun held inside _ nonempty => assembles held (inside.trans arrived) nonempty) default []
  rw [run, ran', List.nil_append] at ran
  obtain ⟨rfl, rfl⟩ := Prod.mk.inj (Except.ok.inj ran)
  rcases ends with ⟨none, -⟩ | ⟨held, inside, bytes, -, delivered, only⟩
  · rw [none] at intact
    cases intact
  · rw [only] at intact
    obtain ⟨⟨-, rfl⟩, -⟩ := List.cons.inj intact
    exact wrong held (inside.trans arrived) delivered

/-- A nodup list with one possible member that it has is that singleton. -/
theorem eq_singleton {items : List Nat} {only : Nat} (nodup : items.Nodup)
    (member : ∀ item, item ∈ items ↔ item = only)
    : items = [only] := by
  refine List.perm_singleton.mp ((List.perm_ext_iff_of_nodup nodup (List.nodup_singleton _)).mpr ?_)
  simpa using member

/-- A single gap at data fragment 255 cannot be restored from the second parity fragment,
whose weight for it is a power of zero.
-/
theorem tryAssemble_undecodable (several : 2 ≤ sending.parityCount)
    (many : 256 ≤ sending.dataCount) {held : Finset Nat}
    (inside : held ⊆ insert (sending.dataCount + 1) ((Finset.range sending.dataCount).erase 255))
    (firstSeen : TimePoint) (limit : Nat)
    : tryAssemble (sending.group held firstSeen) limit = .ok none := by
  have total : sending.totalCount = sending.dataCount + sending.parityCount := rfl
  have members {i : Nat}
      : i ∈ insert (sending.dataCount + 1) ((Finset.range sending.dataCount).erase 255)
        ↔ i = sending.dataCount + 1 ∨ i ≠ 255 ∧ i < sending.dataCount := by
    rw [Finset.mem_insert, Finset.mem_erase, Finset.mem_range]
  have card : (insert (sending.dataCount + 1) ((Finset.range sending.dataCount).erase 255)).card
      ≤ sending.dataCount := by
    refine (Finset.card_insert_le _ _).trans ?_
    rw [Finset.card_erase_of_mem (Finset.mem_range.mpr (by omega)), Finset.card_range]
    omega
  by_cases few : held.card < sending.dataCount
  · refine tryAssemble_few (fun i member => Finset.mem_range.mpr ?_) few limit
    have place := members.mp (inside member)
    omega
  · obtain rfl := Finset.eq_of_subset_of_card_le inside (card.trans (Nat.le_of_not_lt few))
    have gaps : (List.range sending.dataCount).filter
        (· ∉ insert (sending.dataCount + 1) ((Finset.range sending.dataCount).erase 255))
        = [255] := by
      refine eq_singleton (List.nodup_range.filter _) fun i => ?_
      rw [List.mem_filter, List.mem_range, decide_eq_true_eq, members]
      omega
    have parities : sending.paritiesSeen
        (insert (sending.dataCount + 1) ((Finset.range sending.dataCount).erase 255)) = [1] := by
      refine eq_singleton (List.nodup_range.filter _) fun q => ?_
      rw [paritiesSeen, List.mem_filter, List.mem_range, decide_eq_true_eq, members]
      omega
    have weightless : coef 1 255 = 0 := by decide +kernel
    have gap := (length_missing_group _ firstSeen).symm.trans
      (congrArg List.length (missing_group.trans gaps))
    rw [tryAssemble_group, if_neg (by intro full; simp [full] at gap)]
    refine recover_undecodable (by simp [group, total]) limit ?_
    have arrived : arrivedParities
        (sending.group
          (insert (sending.dataCount + 1) ((Finset.range sending.dataCount).erase 255)) firstSeen)
        sending.dataCount sending.parityCount
        = [(1, sending.shard (sending.dataCount + 1))] := by
      rw [arrivedParities_group, parities]
      rfl
    exact ReedSolomon.decode_eq_none (missing_group.trans gaps) arrived weightless

theorem not_delivers_of_not_decodable (within : sending.Within limit)
    (undecodable : ¬sending.Decodable)
    : ¬sending.Delivers limit := by
  have several : 2 ≤ sending.parityCount := by
    have positive := sending.parityCount_pos
    have apart : sending.parityCount ≠ 1 := fun single => undecodable (Or.inl single)
    omega
  have many : 256 ≤ sending.dataCount := Nat.lt_of_not_le fun few => undecodable (Or.inr few)
  have total : sending.totalCount = sending.dataCount + sending.parityCount := rfl
  have outside : sending.dataCount + 1 ∉ (Finset.range sending.dataCount).erase 255 := by
    intro member
    have bound := Finset.mem_range.mp (Finset.mem_of_mem_erase member)
    omega
  refine not_delivers within ?_ ?_ (fun _ => none) (fun held inside _ firstSeen =>
    tryAssemble_undecodable several many inside firstSeen limit) fun _ _ same => by cases same
  · refine Finset.insert_subset (Finset.mem_range.mpr (by omega)) fun i member => ?_
    have bound := Finset.mem_range.mp (Finset.mem_of_mem_erase member)
    exact Finset.mem_range.mpr (by omega)
  · rw [Finset.card_insert_of_notMem outside,
      Finset.card_erase_of_mem (Finset.mem_range.mpr (by omega)), Finset.card_range]
    omega

/-- A stream in which one slice loses bytes and none gains any is too short. -/
theorem length_stream_lt {seen : Finset Nat}
    (atMost : ∀ i < sending.dataCount, (sending.piece seen i).length ≤ (sending.span i).length)
    {i : Nat} (inRange : i < sending.dataCount)
    (cut : (sending.piece seen i).length < (sending.span i).length)
    : (sending.stream seen).length < sending.payload.length + 4 := by
  rw [← length_full, ← flatMap_span_dataCount, stream, List.length_flatMap, List.length_flatMap]
  exact List.sum_lt_sum _ _ (fun j member => atMost j (List.mem_range.mp member))
    ⟨i, List.mem_range.mpr inRange, cut⟩

/-- A sufficient set that assembles to a stream which is too short, and no part of which
assembles to anything, is not delivered intact.
-/
theorem not_delivers_of_short (within : sending.Within limit) {sent : Finset Nat}
    (known : sent ⊆ Finset.range sending.totalCount) (enough : sending.dataCount ≤ sent.card)
    (all : ∀ firstSeen, tryAssemble (sending.group sent firstSeen) limit
      = .ok (some (unframe limit (sending.stream sent))))
    (parts : ∀ held ⊆ sent, ¬sent ⊆ held → ∀ firstSeen,
      tryAssemble (sending.group held firstSeen) limit = .ok none)
    (nonempty : sending.payload ≠ [])
    (short : (sending.stream sent).length < sending.payload.length + 4)
    : ¬sending.Delivers limit := by
  have length := length_unframe_le limit (sending.stream sent)
  have positive := List.length_pos_of_ne_nil nonempty
  refine not_delivers within known enough
    (fun held => if sent ⊆ held then some (unframe limit (sending.stream sent)) else none)
    (fun held inside _ firstSeen => ?_) fun held _ same => ?_
  · by_cases whole : sent ⊆ held
    · obtain rfl := Finset.Subset.antisymm inside whole
      simp only [all firstSeen, whole, if_true]
    · simp only [parts held inside whole firstSeen, whole, if_false]
  · split at same
    · rw [Option.some.inj same] at length
      omega
    · cases same

theorem not_delivers_of_not_sizesFit (within : sending.Within limit)
    (cut : ¬sending.SizesFit)
    : ¬sending.Delivers limit := by
  obtain ⟨wide, nonempty, lost⟩ : ¬sending.width ≤ 65535 ∧ sending.payload ≠ []
      ∧ ¬sending.payload.length + 4 ≤ sending.width % 65536 := by
    simpa only [SizesFit, not_or] using cut
  have total : sending.totalCount = sending.dataCount + sending.parityCount := rfl
  have parity := sending.parityCount_pos
  have remainder : sending.width % 65536 < 65536 := Nat.mod_lt _ (by omega)
  by_cases single : sending.dataCount = 1
  · -- The only data fragment is lost and its parity restores a width cut to 16 bits.
    have whole : (sending.span 0).length = sending.payload.length + 4 := by
      have covers := sending.dataCount_covers.1
      rw [single, Nat.one_mul] at covers
      rw [span_zero covers, length_full]
    have piece : (sending.piece {1} 0).length < (sending.span 0).length := by
      rw [Sending.piece, if_neg (by decide), List.length_take, whole]
      exact Nat.lt_of_le_of_lt (Nat.min_le_left _ _) (Nat.lt_of_not_le lost)
    have decodable : sending.Decodable := Or.inr (by omega)
    have known : {1} ⊆ Finset.range sending.totalCount := by
      rw [Finset.singleton_subset_iff, Finset.mem_range]
      omega
    refine not_delivers_of_short within known (by rw [single]; rfl)
      (fun firstSeen => decodable.tryAssemble known (by rw [single]; rfl) limit)
      (fun held inside proper firstSeen => ?_) nonempty
      (length_stream_lt (fun i inRange => ?_) (by omega) piece)
    · refine tryAssemble_few (inside.trans known) ?_ limit
      rw [single]
      exact Finset.card_lt_card ⟨inside, proper⟩
    · obtain rfl : i = 0 := by omega
      exact Nat.le_of_lt piece
  · -- All data fragments arrive, but the first announces its width cut to 16 bits.
    have atMost : ∀ i < sending.dataCount,
        (sending.piece (Finset.range sending.dataCount) i).length
          ≤ u16 (sending.span i).length := by
      intro i inRange
      rw [Sending.piece, if_pos (Finset.mem_range.mpr inRange), size, if_pos inRange,
        List.length_take]
      exact Nat.min_le_left _ _
    have known : Finset.range sending.dataCount ⊆ Finset.range sending.totalCount :=
      Finset.range_mono (by omega)
    have data := sending.dataCount_pos
    refine not_delivers_of_short within known (by rw [Finset.card_range])
      (fun firstSeen => tryAssemble_all (Finset.Subset.refl _) limit)
      (fun held inside proper firstSeen => ?_) nonempty
      (length_stream_lt (fun i inRange => (atMost i inRange).trans (Nat.mod_le _ _))
        data ?_)
    · refine tryAssemble_few (inside.trans known) ?_ limit
      have smaller := Finset.card_lt_card ⟨inside, proper⟩
      rwa [Finset.card_range] at smaller
    · refine Nat.lt_of_le_of_lt (atMost 0 data) ?_
      rw [sending.length_span_of_lt (by omega), u16]
      omega

/-- Within the configured bounds a message is delivered exactly once and intact on every
arrival sequence with enough fragments exactly when one parity fragment is used or there are
at most 255 data fragments, and the fragment sizes fit their header field.
-/
theorem delivers_iff (within : sending.Within limit)
    : sending.Delivers limit ↔ sending.Decodable ∧ sending.SizesFit := by
  constructor
  · intro delivers
    exact ⟨by_contra fun undecodable => not_delivers_of_not_decodable within undecodable delivers,
      by_contra fun cut => not_delivers_of_not_sizesFit within cut delivers⟩
  · exact fun ⟨decodable, sizes⟩ => decodable.delivers sizes within

/-- A short message on the configured path. -/
def shortMessage : Sending where
  numerics := default
  peer := { msgIdOut := 1 }
  payload := [1, 2, 3]
  mtu := 1200
  scratch := []

/-- The equivalence at a short message, which is therefore delivered. -/
theorem delivers_iff_shortMessage : shortMessage.Within 65536 ∧ shortMessage.Delivers 65536 := by
  have within : shortMessage.Within 65536 :=
    ⟨by decide, by decide, by decide, by decide, by decide⟩
  exact ⟨within, (delivers_iff within).mpr ⟨Or.inr (by decide), Or.inl (by decide)⟩⟩

/-- A message of 256 fragments towards a peer that reports ten percent late packets. -/
def largeMessage : Sending where
  numerics := { (default : Numerics) with redundancy := fun _ _ => 3 }
  peer := { msgIdOut := 1, peerLateRatio := 1000 }
  payload := List.replicate 293757 0
  mtu := 1200
  scratch := []

/-- Such a message is within the bounds but lost with its last data fragment and its first
parity fragment.
-/
theorem largeMessage_not_delivers
    : largeMessage.Within 1048576 ∧ ¬largeMessage.Delivers 1048576 := by
  have length : largeMessage.payload.length = 293757 := by
    rw [largeMessage]
    exact List.length_replicate
  have width : largeMessage.width = 1152 := by decide
  have data : largeMessage.dataCount = 256 := by
    rw [dataCount_eq, length_full, length, width]
  have parity : largeMessage.parityCount = 3 := rfl
  have within : largeMessage.Within 1048576 := by
    refine ⟨by omega, by omega, by omega, by omega, ?_⟩
    rw [totalCount, data, parity]
    decide
  refine ⟨within, not_delivers_of_not_decodable within ?_⟩
  rintro (single | few)
  · omega
  · omega

end Sending

end Creek.Tight
