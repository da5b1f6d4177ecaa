import Creek.Proofs.Tight.ErasureRecovery
import Creek.Proofs.Tight.PacketCodec
import Creek.Proofs.Tight.ReassemblerSafety
import Creek.Tight.Fragmenter

/-! The fragments of one message: what the sender emits and what they assemble to.
A sent message determines all its fragments; a receiver holding some of them holds a group
that is a function of which ones.
-/

namespace Creek.Tight

open Library

/-- A call of `fragment_and_send`: the message and the state it finds. -/
structure Sending where
  numerics : Numerics
  peer : Peer
  payload : Bytes
  mtu : Nat
  scratch : List Bytes

namespace Sending

variable (sending : Sending)

def messageId : Nat := (Fragmenter.nextMsgId sending.peer.msgIdOut).1

/-- The common width of the fragments. -/
def width : Nat := Fragmenter.fragPayload sending.mtu

def dataCount : Nat := Fragmenter.dataCount sending.payload sending.mtu

def parityCount : Nat :=
  Fragmenter.computeParityCountFor sending.numerics sending.peer.peerLateRatio sending.dataCount

def totalCount : Nat := sending.dataCount + sending.parityCount

/-- The calls of the fragment callback, in order. -/
def calls : List FragmentCall :=
  (Fragmenter.fragmentAndSend sending.numerics sending.peer sending.payload sending.mtu
    sending.scratch).calls

def span (i : Nat) : Bytes := Fragmenter.span sending.payload sending.mtu i

def spans : List Bytes := (List.range sending.dataCount).map sending.span

def parity (p : Nat) : Bytes :=
  ((ReedSolomon.encodeInto sending.spans sending.parityCount sending.width sending.scratch).getD p
    []).take sending.width

/-- The bytes of fragment `i` before padding. -/
def bytes (i : Nat) : Bytes :=
  if i < sending.dataCount then sending.span i else sending.parity (i - sending.dataCount)

/-- The size announced with fragment `i`, before it is cut to the header field. -/
def size (i : Nat) : Nat :=
  if i < sending.dataCount then (sending.span i).length else sending.width

/-- Fragment `i` as it travels, padded to the common width. -/
def shard (i : Nat) : Bytes :=
  sending.bytes i ++ List.replicate (sending.width - (sending.bytes i).length) 0

/-- The call for fragment `i`. -/
def call (i : Nat) : FragmentCall where
  msgId := UInt32.ofNat sending.messageId
  idx := UInt16.ofNat i
  cnt := UInt16.ofNat sending.totalCount
  dataCnt := UInt16.ofNat sending.dataCount
  realSize := UInt16.ofNat (sending.size i)
  data := sending.bytes i
  width := sending.width

/-- The calls are one for each fragment, data fragments first. -/
theorem calls_eq : sending.calls = (List.range sending.totalCount).map sending.call := by
  have parity (p : Nat) : sending.call (sending.dataCount + p)
      = {
          msgId := UInt32.ofNat sending.messageId
          idx := UInt16.ofNat (sending.dataCount + p)
          cnt := UInt16.ofNat sending.totalCount
          dataCnt := UInt16.ofNat sending.dataCount
          realSize := UInt16.ofNat sending.width
          data := sending.parity p
          width := sending.width
        } := by
    have behind : ¬sending.dataCount + p < sending.dataCount := by omega
    simp only [call, size, bytes, behind, if_false, Nat.add_sub_cancel_left]
  have data : (List.range sending.dataCount).map sending.call
      = (List.range sending.dataCount).map fun i => {
          msgId := UInt32.ofNat sending.messageId
          idx := UInt16.ofNat i
          cnt := UInt16.ofNat sending.totalCount
          dataCnt := UInt16.ofNat sending.dataCount
          realSize := UInt16.ofNat (sending.span i).length
          data := sending.span i
          width := sending.width
        } := by
    refine List.map_congr_left fun i inRange => ?_
    simp only [call, size, bytes, List.mem_range.mp inRange, if_true]
  rw [totalCount, List.range_add, List.map_append, data, List.map_map]
  have same : sending.call ∘ (sending.dataCount + ·)
      = fun p => sending.call (sending.dataCount + p) := rfl
  rw [same]
  simp only [parity]
  rfl

theorem parityCount_pos : 0 < sending.parityCount := by
  unfold parityCount Fragmenter.computeParityCountFor
  split <;> omega

theorem parityCount_le : sending.parityCount ≤ 3 := by
  unfold parityCount Fragmenter.computeParityCountFor
  split <;> omega

theorem messageId_range : 0 < sending.messageId ∧ sending.messageId < 2 ^ 31 := by
  simp only [messageId, Fragmenter.nextMsgId, u32]
  split <;> simp only <;> omega

/-- The message behind its length prefix. -/
def full : Bytes := Fragmenter.full sending.payload

theorem length_full : sending.full.length = sending.payload.length + 4 := by
  rw [full, Fragmenter.full, List.length_append, PacketCodec.length_put32, Nat.add_comm]

theorem width_pos : 0 < sending.width := by
  simp only [width, Fragmenter.fragPayload]
  generalize (if sending.mtu > kHeaderSize then sending.mtu - kHeaderSize else 64) = size
  split <;> omega

theorem dataCount_eq
    : sending.dataCount = (sending.full.length + sending.width - 1) / sending.width :=
  rfl

/-- The data fragments cover the message, and none of them is empty. -/
theorem dataCount_covers
    : sending.full.length ≤ sending.dataCount * sending.width
      ∧ (sending.dataCount - 1) * sending.width < sending.full.length := by
  have positive := sending.width_pos
  have nonempty := sending.length_full
  rw [dataCount_eq, Nat.sub_mul]
  generalize sending.full.length = length at *
  generalize sending.width = width at *
  have split := Nat.div_add_mod (length + width - 1) width
  have rest := Nat.mod_lt (length + width - 1) positive
  rw [Nat.mul_comm] at split
  omega

theorem dataCount_pos : 0 < sending.dataCount := by
  have covers := sending.dataCount_covers.1
  rw [length_full] at covers
  exact Nat.pos_of_ne_zero fun zero => by simp [zero] at covers

theorem length_span (i : Nat)
    : (sending.span i).length = min sending.width (sending.full.length - i * sending.width) := by
  rw [span, Fragmenter.span, List.length_take, List.length_drop]
  rfl

theorem length_span_le (i : Nat) : (sending.span i).length ≤ sending.width := by
  rw [length_span]
  exact Nat.min_le_left _ _

theorem length_span_of_lt {i : Nat} (before : i + 1 < sending.dataCount)
    : (sending.span i).length = sending.width := by
  have covers := sending.dataCount_covers.2
  have bound : (i + 1) * sending.width ≤ (sending.dataCount - 1) * sending.width :=
    Nat.mul_le_mul_right _ (by omega)
  rw [Nat.succ_mul] at bound
  rw [length_span]
  omega

/-- The data fragments are consecutive slices of the message. -/
theorem flatMap_span (n : Nat)
    : (List.range n).flatMap sending.span = sending.full.take (n * sending.width) := by
  induction n with
  | zero => simp
  | succ n ih =>
      rw [List.range_succ, List.flatMap_append, ih, Nat.succ_mul, List.take_add]
      simp [span, Fragmenter.span, full, width]

theorem flatMap_span_dataCount
    : (List.range sending.dataCount).flatMap sending.span = sending.full := by
  rw [flatMap_span, List.take_of_length_le sending.dataCount_covers.1]

theorem spans_fit : ∀ fragment ∈ sending.spans, fragment.length ≤ sending.width := by
  intro fragment member
  obtain ⟨i, -, rfl⟩ := List.mem_map.mp member
  exact sending.length_span_le i

/-- Parity fragment `p` encodes the data fragments whatever the reused buffers hold. -/
theorem parity_eq {p : Nat} (bound : p < sending.parityCount)
    : ∃ buffer,
        sending.parity p
        = (ReedSolomon.encodeParity sending.spans sending.width p buffer).take sending.width := by
  rw [parity, ReedSolomon.encodeInto]
  generalize grown : sending.scratch
      ++ List.replicate (sending.parityCount - sending.scratch.length) [] = buffers
  have inside : p < buffers.length := by
    rw [← grown, List.length_append, List.length_replicate]
    omega
  refine ⟨buffers[p], ?_⟩
  rw [List.getD_eq_getElem?_getD, List.getElem?_mapIdx, List.getElem?_eq_getElem inside]
  simp [bound]

theorem length_parity {p : Nat} (bound : p < sending.parityCount)
    : (sending.parity p).length = sending.width := by
  obtain ⟨buffer, same⟩ := sending.parity_eq bound
  rw [same, ReedSolomon.length_encodeParity sending.spans_fit]

theorem length_bytes_le {i : Nat} (bound : i < sending.totalCount)
    : (sending.bytes i).length ≤ sending.width := by
  unfold bytes
  split
  · exact sending.length_span_le i
  · exact Nat.le_of_eq (sending.length_parity (by rw [totalCount] at bound; omega))

theorem length_shard {i : Nat} (bound : i < sending.totalCount)
    : (sending.shard i).length = sending.width := by
  have fits := sending.length_bytes_le bound
  rw [shard, List.length_append, List.length_replicate]
  omega

theorem payload_call {i : Nat} (bound : i < sending.totalCount)
    : (sending.call i).payload = sending.shard i := by
  rw [FragmentCall.payload, call, List.take_of_length_le (sending.length_bytes_le bound), shard]

theorem symbol_append_replicate (bytes : Bytes) (n k : Nat)
    : symbol (bytes ++ List.replicate n 0) k = symbol bytes k := by
  by_cases inside : k < bytes.length
  · simp [symbol, List.getD_eq_getElem?_getD, List.getElem?_append, inside]
  · rw [symbol_of_le (Nat.le_of_not_lt inside)]
    simp only [symbol, List.getD_eq_getElem?_getD, List.getElem?_append, inside, if_false,
      List.getElem?_replicate]
    split <;> rfl

/-- The data fragments as they travel. -/
def originals : List Bytes := (List.range sending.dataCount).map sending.shard

theorem length_originals : sending.originals.length = sending.dataCount := by
  rw [originals, List.length_map, List.length_range]

theorem getElem?_originals {j : Nat} (bound : j < sending.dataCount)
    : sending.originals[j]? = some (sending.shard j) := by
  rw [originals, List.getElem?_map, List.getElem?_range bound]
  rfl

/-- A parity fragment is the weighted sum of the data fragments as they travel. -/
theorem symbol_shard_parity {p : Nat} (bound : p < sending.parityCount) (k : Nat)
    : symbol (sending.shard (sending.dataCount + p)) k
      = ∑ j ∈ Finset.range sending.originals.length,
          weight p j * symbol (sending.originals.getD j []) k := by
  have behind : ¬sending.dataCount + p < sending.dataCount := by omega
  obtain ⟨buffer, same⟩ := sending.parity_eq bound
  have count : sending.spans.length = sending.dataCount := by
    rw [spans, List.length_map, List.length_range]
  rw [shard, symbol_append_replicate, bytes, if_neg behind, Nat.add_sub_cancel_left, same,
    ReedSolomon.symbol_encodeParity sending.spans_fit, count, length_originals]
  refine Finset.sum_congr rfl fun j inRange => ?_
  have inData := Finset.mem_range.mp inRange
  have left : sending.spans.getD j [] = sending.span j := by
    rw [spans, List.getD_eq_getElem?_getD, List.getElem?_map, List.getElem?_range inData]
    rfl
  have right : sending.originals.getD j [] = sending.shard j := by
    rw [List.getD_eq_getElem?_getD, sending.getElem?_originals inData]
    rfl
  rw [left, right, shard, symbol_append_replicate, bytes, if_pos inData]

/-- The group of a receiver that holds the fragments in `seen`. -/
def group (seen : Finset Nat) (firstSeen : TimePoint) : IncomingMessage where
  messageId := sending.messageId
  totalCount := sending.totalCount
  dataCount := sending.dataCount
  fragments := (List.range sending.totalCount).map fun i =>
    if i ∈ seen then some (sending.shard i) else none
  sizes := (List.range sending.totalCount).map fun i =>
    if i ∈ seen then u16 (sending.size i) else 0
  firstSeen := firstSeen

/-- How many data fragments are in `seen`. -/
def dataSeen (seen : Finset Nat) : Nat :=
  ((List.range sending.dataCount).filter (· ∈ seen)).length

/-- The parity fragments in `seen`, in order. -/
def paritiesSeen (seen : Finset Nat) : List Nat :=
  (List.range sending.parityCount).filter (sending.dataCount + · ∈ seen)

/-- The bytes of data fragment `i` that count, received or restored. -/
def piece (seen : Finset Nat) (i : Nat) : Bytes :=
  (sending.shard i).take (u16 (if i ∈ seen then sending.size i else sending.width))

/-- The stream a receiver assembles from the fragments in `seen`. -/
def stream (seen : Finset Nat) : Bytes :=
  (List.range sending.dataCount).flatMap (sending.piece seen)

variable {sending} {seen : Finset Nat} {firstSeen : TimePoint}

/-- Every fragment in `seen` is a data or a parity fragment. -/
theorem card_seen (known : seen ⊆ Finset.range sending.totalCount)
    : seen.card = sending.dataSeen seen + (sending.paritiesSeen seen).length := by
  have all : seen.card = ((List.range sending.totalCount).filter (· ∈ seen)).length := by
    have same : (Finset.range sending.totalCount).filter (· ∈ seen) = seen := by
      rw [Finset.filter_mem_eq_inter, Finset.inter_eq_right.mpr known]
    exact (congrArg Finset.card same).symm
  rw [all, totalCount, List.range_add, List.filter_append, List.length_append, List.filter_map,
    List.length_map]
  rfl

theorem getElem?_fragments_group (seen : Finset Nat) (firstSeen : TimePoint) {i : Nat}
    (bound : i < sending.totalCount)
    : (sending.group seen firstSeen).fragments[i]?
      = some (if i ∈ seen then some (sending.shard i) else none) := by
  rw [group, List.getElem?_map, List.getElem?_range bound]
  rfl

theorem getElem?_sizes_group {i : Nat} (bound : i < sending.totalCount)
    : (sending.group seen firstSeen).sizes[i]?
      = some (if i ∈ seen then u16 (sending.size i) else 0) := by
  rw [group, List.getElem?_map, List.getElem?_range bound]
  rfl

theorem wellFormed_group : Reassembler.WellFormed (sending.group seen firstSeen) :=
  ⟨by simp [group], by simp [group], fun _ => Nat.le_add_right _ _⟩

theorem presentCount_group
    : Reassembler.presentCount (sending.group seen firstSeen) sending.dataCount
      = sending.dataSeen seen := by
  rw [Reassembler.presentCount, List.countP_eq_length_filter, dataSeen]
  refine congrArg List.length (List.filter_congr fun i inRange => ?_)
  have bound : i < sending.totalCount :=
    Nat.lt_of_lt_of_le (List.mem_range.mp inRange) (Nat.le_add_right _ _)
  rw [List.getD_eq_getElem?_getD, getElem?_fragments_group seen firstSeen bound, Option.getD_some]
  by_cases member : i ∈ seen <;> simp [member]

theorem arrivedParities_group
    : Reassembler.arrivedParities (sending.group seen firstSeen) sending.dataCount
          sending.parityCount
      = (sending.paritiesSeen seen).map fun p => (p, sending.shard (sending.dataCount + p)) := by
  rw [Reassembler.arrivedParities, paritiesSeen, ← List.filterMap_eq_map, List.filterMap_filter]
  refine List.filterMap_congr fun p inRange => ?_
  have bound : sending.dataCount + p < sending.totalCount := by
    have below := List.mem_range.mp inRange
    rw [totalCount]
    omega
  rw [getElem?_fragments_group seen firstSeen bound]
  by_cases member : sending.dataCount + p ∈ seen <;> simp [member]

/-- The data part of the group, in which unseen fragments are gaps. -/
theorem take_fragments_group
    : (sending.group seen firstSeen).fragments.take sending.dataCount
      = (List.range sending.dataCount).map fun i =>
          if i ∈ seen then some (sending.shard i) else none := by
  rw [group, ← List.map_take, List.take_range, totalCount,
    Nat.min_eq_left (Nat.le_add_right _ _)]

theorem missing_group
    : ReedSolomon.missing ((sending.group seen firstSeen).fragments.take sending.dataCount)
      = (List.range sending.dataCount).filter (· ∉ seen) := by
  rw [take_fragments_group, ReedSolomon.missing, List.length_map, List.length_range]
  refine List.filter_congr fun i inRange => ?_
  rw [List.getD_eq_getElem?_getD, List.getElem?_map,
    List.getElem?_range (List.mem_range.mp inRange)]
  by_cases member : i ∈ seen <;> simp [member]

theorem length_missing_group (seen : Finset Nat) (firstSeen : TimePoint)
    : (ReedSolomon.missing
          ((sending.group seen firstSeen).fragments.take sending.dataCount)).length
      = sending.dataCount - sending.dataSeen seen := by
  have parts := List.length_eq_length_filter_add (l := List.range sending.dataCount) (· ∈ seen)
  rw [List.length_range] at parts
  rw [missing_group, dataSeen]
  simp only [decide_not]
  omega

/-- The widest of fragments of one width, as soon as there is one. -/
theorem foldl_maxWidth {fragments : List (Option Bytes)} {width start : Nat}
    (common : ∀ bytes, some bytes ∈ fragments → bytes.length = width) (below : start ≤ width)
    (reached : start = width ∨ ∃ bytes, some bytes ∈ fragments)
    : fragments.foldl
          (fun width fragment =>
            match fragment with
            | some bytes => max width bytes.length
            | none => width)
          start
        = width := by
  induction fragments generalizing start with
  | nil => exact reached.resolve_right fun ⟨_, member⟩ => List.not_mem_nil member
  | cons fragment rest ih =>
      have commonRest : ∀ bytes, some bytes ∈ rest → bytes.length = width :=
        fun bytes member => common bytes (List.mem_cons_of_mem _ member)
      cases fragment with
      | none =>
          refine ih commonRest below ?_
          rcases reached with full | ⟨bytes, member⟩
          · exact Or.inl full
          · rcases List.mem_cons.mp member with impossible | later
            · cases impossible
            · exact Or.inr ⟨bytes, later⟩
      | some bytes =>
          have grown : max start bytes.length = width := by
            rw [common bytes List.mem_cons_self, Nat.max_eq_right below]
          exact ih commonRest (Nat.le_of_eq grown) (Or.inl grown)

/-- The widest fragment of a nonempty group has the common width. -/
theorem maxWidth_group (firstSeen : TimePoint)
    (known : seen ⊆ Finset.range sending.totalCount) (some_ : seen.Nonempty)
    : Reassembler.maxWidth (sending.group seen firstSeen) = sending.width := by
  have common : ∀ bytes, some bytes ∈ (sending.group seen firstSeen).fragments
      → bytes.length = sending.width := by
    intro bytes member
    obtain ⟨i, inRange, same⟩ := List.mem_map.mp member
    by_cases here : i ∈ seen
    · rw [if_pos here] at same
      obtain rfl := Option.some.inj same
      exact sending.length_shard (List.mem_range.mp inRange)
    · rw [if_neg here] at same
      cases same
  obtain ⟨i, member⟩ := some_
  have bound := Finset.mem_range.mp (known member)
  refine foldl_maxWidth common (Nat.zero_le _) (Or.inr ⟨sending.shard i, ?_⟩)
  have stored := getElem?_fragments_group seen firstSeen bound
  rw [if_pos member] at stored
  exact List.mem_of_getElem? stored

theorem effectiveDataCount_group
    : Reassembler.effectiveDataCount (sending.group seen firstSeen) = sending.dataCount :=
  if_pos sending.dataCount_pos

theorem lt_totalCount {i : Nat} (inRange : i < sending.dataCount) : i < sending.totalCount :=
  Nat.lt_of_lt_of_le inRange (Nat.le_add_right _ _)

/-- A group that holds the fragments with the sizes that count streams these pieces. -/
theorem flatMap_piece {message : IncomingMessage}
    (holds : ∀ i < sending.dataCount,
      message.fragments[i]? = some (some (sending.shard i))
      ∧ message.sizes[i]? = some (u16 (if i ∈ seen then sending.size i else sending.width)))
    : Reassembler.stream message sending.dataCount = sending.stream seen := by
  refine List.flatMap_congr fun i inRange => ?_
  obtain ⟨fragment, size⟩ := holds i (List.mem_range.mp inRange)
  rw [Reassembler.piece, List.getD_eq_getElem?_getD, List.getD_eq_getElem?_getD, fragment, size]
  rfl

/-- Assembly of a group reduces to counting its data fragments. -/
theorem tryAssemble_group (limit : Nat)
    : Reassembler.tryAssemble (sending.group seen firstSeen) limit
      = if sending.dataSeen seen = sending.dataCount then
          (Reassembler.buildMsg (sending.group seen firstSeen) sending.dataCount limit).map some
        else
          Reassembler.recover (sending.group seen firstSeen) sending.dataCount
            sending.parityCount (sending.dataCount - sending.dataSeen seen) limit := by
  have data := sending.dataCount_pos
  have parity := sending.parityCount_pos
  have total : (sending.group seen firstSeen).totalCount = sending.totalCount := rfl
  have several : ¬sending.totalCount < 2 := by rw [totalCount]; omega
  have counts : sending.dataCount ≤ sending.totalCount := Nat.le_add_right _ _
  have difference : sending.totalCount - sending.dataCount = sending.parityCount :=
    Nat.add_sub_cancel_left _ _
  have inside : sending.dataCount ≤ (sending.group seen firstSeen).fragments.length := by
    simpa [group] using counts
  rw [Reassembler.tryAssemble, total, if_neg several, effectiveDataCount_group]
  simp only [difference_of_le counts, difference, ok_bind, Reassembler.countPresent_eq inside,
    presentCount_group]
  split
  · cases Reassembler.buildMsg (sending.group seen firstSeen) sending.dataCount limit <;> rfl
  · rfl

/-- With all data fragments the stream of the sizes is delivered. -/
theorem tryAssemble_all (all : Finset.range sending.dataCount ⊆ seen) (limit : Nat)
    : Reassembler.tryAssemble (sending.group seen firstSeen) limit
      = .ok (some (Reassembler.unframe limit (sending.stream seen))) := by
  have member {i : Nat} (inRange : i < sending.dataCount) : i ∈ seen :=
    all (Finset.mem_range.mpr inRange)
  have every : (List.range sending.dataCount).filter (· ∈ seen) = List.range sending.dataCount :=
    List.filter_eq_self.mpr fun i inRange => by simpa using member (List.mem_range.mp inRange)
  have full : sending.dataSeen seen = sending.dataCount := by
    rw [dataSeen, every, List.length_range]
  have present : Reassembler.Present (sending.group seen firstSeen) sending.dataCount := by
    refine Reassembler.present_of_presentCount (presentCount_group.trans full) ?_
    simp [group, totalCount]
  have same : Reassembler.stream (sending.group seen firstSeen) sending.dataCount
      = sending.stream seen := by
    refine flatMap_piece fun i inRange => ⟨?_, ?_⟩
    · have stored := getElem?_fragments_group seen firstSeen
        (lt_totalCount inRange)
      rwa [if_pos (member inRange)] at stored
    · rw [getElem?_sizes_group (lt_totalCount inRange), if_pos (member inRange),
        if_pos (member inRange)]
  rw [tryAssemble_group, if_pos full, present.buildMsg, same]
  rfl

/-- With fewer fragments than data fragments nothing is delivered. -/
theorem tryAssemble_few (known : seen ⊆ Finset.range sending.totalCount)
    (few : seen.card < sending.dataCount) (limit : Nat)
    : Reassembler.tryAssemble (sending.group seen firstSeen) limit = .ok none := by
  rw [card_seen known] at few
  have inside : sending.dataCount ≤ (sending.group seen firstSeen).fragments.length := by
    simp [group, totalCount]
  rw [tryAssemble_group, if_neg (by omega)]
  refine Reassembler.recover_few inside limit ?_
  rw [arrivedParities_group, List.length_map]
  omega

/-- The decoder can tell the gaps of a message apart. -/
def Decodable (sending : Sending) : Prop :=
  sending.parityCount = 1 ∨ sending.dataCount ≤ 255

/-- The data fragments that have arrived are originals. -/
theorem originals_group {j : Nat} {fragment : Bytes}
    (stored : ((sending.group seen firstSeen).fragments.take sending.dataCount)[j]?
      = some (some fragment))
    : sending.originals[j]? = some fragment := by
  rw [take_fragments_group] at stored
  have bound : j < sending.dataCount := by
    have inside := (List.getElem?_eq_some_iff.mp stored).1
    rwa [List.length_map, List.length_range] at inside
  rw [List.getElem?_map, List.getElem?_range bound] at stored
  rw [sending.getElem?_originals bound]
  by_cases member : j ∈ seen
  · simpa [member] using stored
  · simp [member] at stored

theorem dataSeen_le (sending : Sending) (seen : Finset Nat)
    : sending.dataSeen seen ≤ sending.dataCount := by
  have bound := List.length_filter_le (· ∈ seen) (List.range sending.dataCount)
  rwa [List.length_range] at bound

theorem dataSeen_ne (gaps : ¬Finset.range sending.dataCount ⊆ seen)
    : sending.dataSeen seen ≠ sending.dataCount := by
  intro full
  refine gaps fun i inRange => ?_
  have every := List.length_filter_eq_length_iff.mp (full.trans List.length_range.symm) i
    (List.mem_range.mpr (Finset.mem_range.mp inRange))
  simpa using every

/-- A group whose gaps are filled with the originals streams the pieces. -/
theorem stream_filled {filled : IncomingMessage} {recovered : List (Option Bytes)}
    (isFilled : Reassembler.Filled (sending.group seen firstSeen) filled recovered sending.width
      sending.dataCount)
    (restored : ∀ i < sending.dataCount, i ∉ seen → recovered[i]? = some (some (sending.shard i)))
    : Reassembler.stream filled sending.dataCount = sending.stream seen := by
  refine flatMap_piece fun i inRange => ?_
  have stored := getElem?_fragments_group seen firstSeen (lt_totalCount inRange)
  by_cases member : i ∈ seen
  · rw [if_pos member] at stored
    have kept := isFilled.kept i (Or.inr (by rw [stored]; simp))
    refine ⟨kept.1.trans stored, ?_⟩
    rw [kept.2, getElem?_sizes_group (lt_totalCount inRange), if_pos member, if_pos member]
  · rw [if_neg member] at stored
    have gap := isFilled.gap i inRange stored
    rw [if_neg member]
    exact ⟨gap.1.trans (restored i inRange member), gap.2⟩

theorem Decodable.erased (decodable : sending.Decodable) (seen : Finset Nat)
    (firstSeen : TimePoint)
    : ReedSolomon.Erased sending.originals
        ((sending.group seen firstSeen).fragments.take sending.dataCount)
        (Reassembler.arrivedParities (sending.group seen firstSeen) sending.dataCount
          sending.parityCount)
        sending.width := by
  have most := sending.parityCount_le
  have indices : (Reassembler.arrivedParities (sending.group seen firstSeen) sending.dataCount
      sending.parityCount).map Prod.fst = sending.paritiesSeen seen := by
    rw [arrivedParities_group, List.map_map]
    exact List.map_id _
  have range {p : Nat} (member : p ∈ sending.paritiesSeen seen) : p < sending.parityCount :=
    List.mem_range.mp (List.mem_of_mem_filter member)
  have parities {p : Nat} {fragment : Bytes}
      (member : (p, fragment) ∈ Reassembler.arrivedParities (sending.group seen firstSeen)
        sending.dataCount sending.parityCount)
      : p < sending.parityCount ∧ fragment = sending.shard (sending.dataCount + p) := by
    rw [arrivedParities_group] at member
    obtain ⟨q, inSeen, same⟩ := List.mem_map.mp member
    obtain ⟨rfl, rfl⟩ := Prod.mk.inj same
    exact ⟨range inSeen, rfl⟩
  constructor
  · intro original member
    obtain ⟨i, inRange, rfl⟩ := List.mem_map.mp member
    have bound := List.mem_range.mp inRange
    exact sending.length_shard (Nat.lt_of_lt_of_le bound (Nat.le_add_right _ _))
  · rw [take_fragments_group, length_originals, List.length_map, List.length_range]
  · exact fun j fragment => originals_group
  · intro p fragment member
    obtain ⟨bound, rfl⟩ := parities member
    exact sending.length_shard (by rw [totalCount]; omega)
  · intro p fragment member k
    obtain ⟨bound, rfl⟩ := parities member
    exact sending.symbol_shard_parity bound k
  · rw [indices]
    exact List.pairwise_lt_range.filter _
  · rw [indices]
    intro p member
    exact Nat.lt_of_lt_of_le (range member) most
  · rw [indices, length_originals]
    rcases decodable with single | few
    · refine Or.inl fun p member => ?_
      have bound := range member
      omega
    · exact Or.inr few

/-- With enough fragments the stream restored from them is delivered. -/
theorem Decodable.tryAssemble (decodable : sending.Decodable)
    (known : seen ⊆ Finset.range sending.totalCount) (enough : sending.dataCount ≤ seen.card)
    (limit : Nat)
    : Reassembler.tryAssemble (sending.group seen firstSeen) limit
      = .ok (some (Reassembler.unframe limit (sending.stream seen))) := by
  by_cases all : Finset.range sending.dataCount ⊆ seen
  · exact tryAssemble_all all limit
  have positive := sending.width_pos
  have data := sending.dataCount_pos
  have nonempty : seen.Nonempty := Finset.card_pos.mp (by omega)
  have width := maxWidth_group firstSeen known nonempty
  have gaps := dataSeen_ne all
  have atMost := sending.dataSeen_le seen
  have parities : (sending.paritiesSeen seen).length ≤ sending.parityCount := by
    have bound := List.length_filter_le (sending.dataCount + · ∈ seen)
      (List.range sending.parityCount)
    rwa [List.length_range] at bound
  have split := card_seen known
  have arrived : (Reassembler.arrivedParities (sending.group seen firstSeen) sending.dataCount
      sending.parityCount).length = (sending.paritiesSeen seen).length := by
    rw [arrivedParities_group, List.length_map]
  have erased := decodable.erased seen firstSeen
  have decoded := erased.decode (by rw [length_missing_group, arrived]; omega)
  rw [← width] at decoded
  have fewGaps : sending.dataCount - sending.dataSeen seen ≤ sending.parityCount := by omega
  obtain ⟨filled, isFilled, delivered⟩ := Reassembler.recover_decoded
    (by simp [group, totalCount]) limit (by simp [group, totalCount]) fewGaps
    (by rw [arrived]; omega) (by omega) decoded
  rw [width] at isFilled
  rw [tryAssemble_group, if_neg gaps, delivered, stream_filled isFilled]
  intro i inRange _
  rw [List.getElem?_map, sending.getElem?_originals inRange]
  rfl

/-- The sizes of the fragments survive the 16-bit header field where they matter. -/
def SizesFit (sending : Sending) : Prop :=
  sending.width ≤ 65535 ∨ sending.payload = []
  ∨ sending.payload.length + 4 ≤ sending.width % 65536

/-- Pieces that are the slices, apart from padding behind the last, stream the message. -/
theorem stream_eq_full
    (pieces : ∀ i < sending.dataCount, ∃ pad,
      sending.piece seen i = sending.span i ++ pad ∧ (i + 1 < sending.dataCount → pad = []))
    : ∃ pad, sending.stream seen = sending.full ++ pad := by
  have prefixes : ∀ n ≤ sending.dataCount, ∃ pad,
      (List.range n).flatMap (sending.piece seen)
        = (List.range n).flatMap sending.span ++ pad
      ∧ (n < sending.dataCount → pad = []) := by
    intro n
    induction n with
    | zero => exact fun _ => ⟨[], rfl, fun _ => rfl⟩
    | succ n ih =>
        intro bound
        obtain ⟨before, same, none⟩ := ih (by omega)
        obtain ⟨pad, piece, only⟩ := pieces n (by omega)
        obtain rfl := none (by omega)
        refine ⟨pad, ?_, only⟩
        simp only [List.range_succ, List.flatMap_append, same, List.append_nil,
          List.flatMap_cons, List.flatMap_nil, piece, List.append_assoc]
  obtain ⟨pad, same, -⟩ := prefixes _ (Nat.le_refl _)
  exact ⟨pad, by rw [stream, same, flatMap_span_dataCount]⟩

theorem shard_data {i : Nat} (inRange : i < sending.dataCount)
    : sending.shard i
      = sending.span i ++ List.replicate (sending.width - (sending.span i).length) 0 := by
  rw [shard, bytes, if_pos inRange]

/-- Slices no longer than the cut width keep all their bytes, received or restored. -/
theorem stream_of_short (seen : Finset Nat)
    (short : ∀ i < sending.dataCount, (sending.span i).length ≤ sending.width % 65536)
    : ∃ pad, sending.stream seen = sending.full ++ pad := by
  refine stream_eq_full fun i inRange => ?_
  have fits := short i inRange
  have cut : sending.width % 65536 < 65536 := Nat.mod_lt _ (by omega)
  rw [piece, shard_data inRange, size, if_pos inRange]
  by_cases member : i ∈ seen
  · refine ⟨[], ?_, fun _ => rfl⟩
    rw [if_pos member, show u16 (sending.span i).length = (sending.span i).length from
      Nat.mod_eq_of_lt (by omega), List.take_left' rfl, List.append_nil]
  · rw [if_neg member, show u16 sending.width = sending.width % 65536 from rfl,
      List.take_append, List.take_of_length_le fits]
    refine ⟨_, rfl, fun before => ?_⟩
    rw [sending.length_span_of_lt before, Nat.sub_self, List.replicate_zero, List.take_nil]

/-- Unframing the message behind its length prefix gives the payload back. -/
theorem unframe_full {limit : Nat} (payload : sending.payload.length ≤ limit)
    (small : limit < 2 ^ 32) (pad : Bytes)
    : Reassembler.unframe limit (sending.full ++ pad) = sending.payload := by
  have announced : (get32 (sending.full ++ pad) 0).toNat = sending.payload.length := by
    have written : put32 (UInt32.ofNat sending.payload.length) <+: (sending.full ++ pad).drop 0 := by
      rw [List.drop_zero, full, Fragmenter.full, List.append_assoc]
      exact List.prefix_append _ _
    rw [PacketCodec.get32_of_front written, UInt32.toNat_ofNat']
    exact Nat.mod_eq_of_lt (by omega)
  have long : ¬(sending.full ++ pad).length < 4 := by
    rw [List.length_append, length_full]
    omega
  rw [Reassembler.unframe, if_neg long, announced, if_neg (by omega), full, Fragmenter.full,
    List.append_assoc, List.drop_left' (PacketCodec.length_put32 _), List.take_left' rfl]

theorem unframe_short {limit : Nat} {bytes : Bytes} (short : bytes.length < 4)
    : Reassembler.unframe limit bytes = [] :=
  if_pos short

/-- An unframed message is shorter than its stream by the length prefix. -/
theorem length_unframe_le (limit : Nat) (bytes : Bytes)
    : (Reassembler.unframe limit bytes).length ≤ bytes.length - 4 := by
  unfold Reassembler.unframe
  split
  · exact Nat.zero_le _
  · split
    · exact Nat.zero_le _
    · rw [List.length_take, List.length_drop]
      exact Nat.min_le_right _ _

theorem dataCount_eq_one (fits : sending.full.length ≤ sending.width) : sending.dataCount = 1 := by
  have positive := sending.dataCount_pos
  have covers := sending.dataCount_covers.2
  by_contra several
  have bound : 1 * sending.width ≤ (sending.dataCount - 1) * sending.width :=
    Nat.mul_le_mul_right _ (by omega)
  omega

theorem span_zero (fits : sending.full.length ≤ sending.width) : sending.span 0 = sending.full := by
  rw [span, Fragmenter.span, Nat.zero_mul, List.drop_zero]
  exact List.take_of_length_le fits

/-- Sizes that fit although a slice is longer than the cut width belong to an empty message. -/
theorem SizesFit.payload_eq_nil (sizes : sending.SizesFit)
    (long : ¬∀ i < sending.dataCount, (sending.span i).length ≤ sending.width % 65536)
    : sending.payload = [] := by
  rcases sizes with narrow | empty | small
  · refine absurd (fun i _ => ?_) long
    rw [Nat.mod_eq_of_lt (by omega)]
    exact sending.length_span_le i
  · exact empty
  · refine absurd (fun i _ => ?_) long
    rw [length_span, length_full]
    omega

/-- When the sizes fit, every stream unframes to the payload. Witness: the sizes only matter
for an empty message when the restored fragment is too short even for the length prefix.
-/
theorem SizesFit.unframe_stream (sizes : sending.SizesFit) {limit : Nat}
    (payload : sending.payload.length ≤ limit) (small : limit < 2 ^ 32)
    (wide : 4 ≤ sending.width) (seen : Finset Nat)
    : Reassembler.unframe limit (sending.stream seen) = sending.payload := by
  by_cases short : ∀ i < sending.dataCount, (sending.span i).length ≤ sending.width % 65536
  · obtain ⟨pad, same⟩ := stream_of_short seen short
    rw [same, unframe_full payload small]
  · have empty := sizes.payload_eq_nil short
    have length : sending.full.length = 4 := by rw [length_full, empty]; rfl
    have single := sending.dataCount_eq_one (by omega)
    have whole := sending.span_zero (by omega)
    have only : sending.stream seen = sending.piece seen 0 := by
      rw [stream, single]
      exact List.append_nil _
    rw [only, piece, shard_data (by omega), whole]
    by_cases member : 0 ∈ seen
    · rw [if_pos member, size, if_pos (by omega), whole, length,
        show u16 4 = sending.full.length from length.symm, List.take_left' rfl]
      have same := unframe_full payload small []
      rwa [List.append_nil] at same
    · rw [if_neg member, empty]
      refine unframe_short ?_
      rw [List.length_take]
      have cut : u16 sending.width < 4 := by
        rw [single] at short
        refine Nat.lt_of_not_le fun wide => short fun i inRange => ?_
        rw [show i = 0 by omega, whole, length]
        exact wide
      omega

end Sending

end Creek.Tight
