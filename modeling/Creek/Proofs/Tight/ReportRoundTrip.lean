import Creek.Proofs.Tight.CursorStall
import Creek.Proofs.Tight.PacketCodec

/-! A report over the wire. What its receiver reads is what its builder put in, with one exception:
the number of lost sequences is cut to 16 bits before it is cut to the most that a report lists.
-/

namespace Creek.Tight.Report

open Library PacketCodec Reassembler SequenceTracker

-- The lost sequences on the wire

/-- The list of lost sequences as a report carries it. -/
def words (seqs : List Nat) : Bytes := seqs.flatMap fun seq => put32 (UInt32.ofNat seq)

@[simp] theorem words_cons (seq : Nat) (seqs : List Nat)
    : words (seq :: seqs) = put32 (UInt32.ofNat seq) ++ words seqs :=
  List.flatMap_cons

@[simp] theorem length_words (seqs : List Nat) : (words seqs).length = seqs.length * 4 := by
  induction seqs with
  | nil => rfl
  | cons seq seqs ih =>
      rw [words_cons, List.length_append, length_put32, ih, List.length_cons]
      omega

theorem drop_words (seqs : List Nat) (rest : Bytes) (i : Nat)
    : i ≤ seqs.length → (words seqs ++ rest).drop (i * 4) = words (seqs.drop i) ++ rest := by
  induction i generalizing seqs with
  | zero => exact fun _ => by rw [Nat.zero_mul, List.drop_zero, List.drop_zero]
  | succ i ih =>
      intro bound
      cases seqs with
      | nil => exact absurd bound (Nat.not_succ_le_zero i)
      | cons seq seqs =>
          rw [words_cons, List.append_assoc, Nat.succ_mul, drop_put32, List.drop_succ_cons]
          exact ih seqs (Nat.le_of_succ_le_succ bound)

theorem lostCount_le (lost : List Nat) : lostCount lost ≤ kMaxLost := Nat.min_le_right _ _

theorem lostCount_le_length (lost : List Nat) : lostCount lost ≤ lost.length :=
  Nat.le_trans (Nat.min_le_left _ _) (Nat.mod_le _ _)

/-- A report lists as many sequences as it may unless the 16-bit count has lost some. -/
theorem lostCount_iff (lost : List Nat)
    : lostCount lost = min lost.length kMaxLost
      ↔ lost.length < 65536 ∨ 256 ≤ lost.length % 65536 := by
  simp only [lostCount, u16, kMaxLost]
  omega

-- Reading a report

theorem encode_eq (ack ratio : Nat) (lost : List Nat) (probeBw : Nat)
    : encode ack ratio lost probeBw
      = put32 (UInt32.ofNat ack)
        ++ (put16 (UInt16.ofNat ratio)
          ++ (put16 (UInt16.ofNat (lostCount lost))
            ++ (put32 0
              ++ (words (lost.take (lostCount lost)) ++ put32 (UInt32.ofNat probeBw))))) := by
  simp only [encode, words, List.append_assoc]

theorem length_encode (ack ratio : Nat) (lost : List Nat) (probeBw : Nat)
    : (encode ack ratio lost probeBw).length = 12 + lostCount lost * 4 + 4 := by
  have cut : (lost.take (lostCount lost)).length = lostCount lost :=
    List.length_take_of_le (lostCount_le_length lost)
  simp only [encode_eq, List.length_append, length_put32, length_put16, length_words, cut]
  omega

theorem drop_encode (ack ratio : Nat) (lost : List Nat) (probeBw i : Nat)
    (bound : i ≤ lostCount lost)
    : (encode ack ratio lost probeBw).drop (12 + i * 4)
      = words ((lost.take (lostCount lost)).drop i) ++ put32 (UInt32.ofNat probeBw) := by
  have cut : (lost.take (lostCount lost)).length = lostCount lost :=
    List.length_take_of_le (lostCount_le_length lost)
  rw [encode_eq, show 12 + i * 4 = i * 4 + 4 + 2 + 2 + 4 by omega, drop_put32, drop_put16, drop_put16,
    drop_put32, drop_words _ _ _ (by rwa [cut])]

/-- Reading an encoded report gives its fields, with as many lost sequences as the count says. -/
theorem parse_encode {ack ratio : Nat} {lost : List Nat} (probeBw : Nat) (smallAck : ack < 2 ^ 32)
    (small : ∀ seq ∈ lost, seq < 2 ^ 32)
    : parse (encode ack ratio lost probeBw)
      = some
        {
          ackSeq := ack
          lateRatio := min 10000 (u16 ratio)
          lost := lost.take (lostCount lost)
          probeBw := u32 probeBw
        } := by
  have length := length_encode ack ratio lost probeBw
  have tail := drop_encode ack ratio lost probeBw
  have cut : (lost.take (lostCount lost)).length = lostCount lost :=
    List.length_take_of_le (lostCount_le_length lost)
  have cursor : (get32 (encode ack ratio lost probeBw) 0).toNat = ack := by
    rw [get32_of_front (v := UInt32.ofNat ack), UInt32.toNat_ofNat_of_lt' smallAck]
    rw [encode_eq, List.drop_zero]
    exact List.prefix_append _ _
  have late : (get16 (encode ack ratio lost probeBw) 4).toNat = u16 ratio := by
    rw [get16_of_front (v := UInt16.ofNat ratio), UInt16.toNat_ofNat']
    · rfl
    · rw [encode_eq, drop_put32 _ _ 0, List.drop_zero]
      exact List.prefix_append _ _
  have count : (get16 (encode ack ratio lost probeBw) 6).toNat = lostCount lost := by
    rw [get16_of_front (v := UInt16.ofNat (lostCount lost)), UInt16.toNat_ofNat_of_lt']
    · exact Nat.lt_of_le_of_lt (lostCount_le lost) (by decide)
    · rw [encode_eq, drop_put32 _ _ 2, drop_put16 _ _ 0, List.drop_zero]
      exact List.prefix_append _ _
  have probe : (get32 (encode ack ratio lost probeBw) (12 + lostCount lost * 4)).toNat
      = u32 probeBw := by
    rw [get32_of_front (v := UInt32.ofNat probeBw), UInt32.toNat_ofNat']
    · rfl
    · rw [tail _ (Nat.le_refl _), List.drop_of_length_le (Nat.le_of_eq cut)]
      exact List.prefix_refl _
  have listed : ((List.range (lostCount lost)).map fun i =>
        (get32 (encode ack ratio lost probeBw) (12 + i * 4)).toNat)
      = lost.take (lostCount lost) := by
    refine List.ext_getElem (by rw [List.length_map, List.length_range, cut]) fun i inRange inTake => ?_
    have bound : i < lostCount lost := by rwa [cut] at inTake
    have word : put32 (UInt32.ofNat (lost.take (lostCount lost))[i])
        <+: (encode ack ratio lost probeBw).drop (12 + i * 4) := by
      rw [tail i (Nat.le_of_lt bound), List.drop_eq_getElem_cons inTake, words_cons,
        List.append_assoc]
      exact List.prefix_append _ _
    rw [List.getElem_map, List.getElem_range, get32_of_front word]
    exact UInt32.toNat_ofNat_of_lt' (small _ (List.mem_of_mem_take (List.getElem_mem inTake)))
  rw [parse, if_neg (by omega)]
  simp only [count]
  rw [if_neg (by omega), cursor, late, listed, if_pos (by omega), probe]

/-- A payload is too short for the lost sequences it declares. -/
def TooShort (payload : Bytes) : Prop :=
  payload.length < 12 ∨ payload.length < 12 + (get16 payload 6).toNat * 4

theorem parse_tooShort {payload : Bytes} (short : TooShort payload) : parse payload = none := by
  rw [parse]
  rcases short with short | short
  · rw [if_pos short]
  · split
    · rfl
    · exact if_pos short

-- What a report is about

instance (giveUp threshold : Int) (now : TimePoint) (entry : Nat × TimePoint)
    : Decidable (Listed giveUp threshold now entry) :=
  inferInstanceAs (Decidable (_ ∧ _))

/-- The lost sequences of a peer: gaps that are neither young nor given up, where both ends
retransmit.
-/
def lostOf (peer : Peer) (reportInterval : Int) (now : TimePoint) : List Nat :=
  if peer.retransmit && peer.peerRetransmit then
    (peer.tracker.missingSeqs.toList.filter fun entry =>
      decide (Listed (giveUpUs reportInterval) (lossThreshold peer.senderRttUs) now entry)).map
      Prod.fst
  else
    []

variable {negotiated : Bool} {giveUp threshold : Int} {now : TimePoint} {peer : Peer}
  {reportInterval : Int}

/-- The scan collects the listed entries, by induction on the entries. -/
theorem foldl_lost (entries : List (Nat × TimePoint)) (tracker : SequenceTracker) (lost : List Nat)
    : (entries.foldl (scanGap negotiated giveUp threshold now) (tracker, lost)).2
      = lost
        ++ if negotiated then
            (entries.filter fun entry => decide (Listed giveUp threshold now entry)).map Prod.fst
          else [] := by
  induction entries generalizing tracker lost with
  | nil => cases negotiated <;> exact (List.append_nil _).symm
  | cons entry rest ih =>
      obtain ⟨gap, since⟩ := entry
      rw [List.foldl_cons]
      rcases scanGap_cases negotiated giveUp threshold now tracker lost gap since with
        ⟨rfl, eq⟩ | ⟨rfl, old, eq⟩ | ⟨rfl, recent, due, eq⟩ | ⟨rfl, recent, young, eq⟩
      · rw [eq, ih]
        rfl
      · have unlisted : ¬Listed giveUp threshold now (gap, since) := fun listed =>
          absurd listed.1 (Int.not_le.mpr old)
        rw [eq, ih, List.filter_cons_of_neg (by simpa using unlisted)]
      · have listed : Listed giveUp threshold now (gap, since) := ⟨recent, due⟩
        rw [eq, ih, List.filter_cons_of_pos (by simpa using listed)]
        simp only [if_true, List.map_cons, List.append_assoc, List.cons_append, List.nil_append]
      · have unlisted : ¬Listed giveUp threshold now (gap, since) := fun listed =>
          absurd listed.2 (Int.not_lt.mpr young)
        rw [eq, ih, List.filter_cons_of_neg (by simpa using unlisted)]

theorem scan_lost (peer : Peer) (reportInterval : Int) (now : TimePoint)
    : (scan peer reportInterval now).2 = lostOf peer reportInterval now := by
  rw [scan_eq, scanned, foldl_lost, List.nil_append, lostOf]

theorem lostOf_ascending (peer : Peer) (reportInterval : Int) (now : TimePoint)
    : (lostOf peer reportInterval now).Pairwise (· < ·) := by
  rw [lostOf]
  split
  · exact List.pairwise_map.mpr (toList_ascending.sublist List.filter_sublist)
  · exact List.Pairwise.nil

theorem mem_lostOf {gap : Nat} (member : gap ∈ lostOf peer reportInterval now)
    : gap ∈ peer.tracker.missingSeqs := by
  rw [lostOf] at member
  split at member
  · obtain ⟨entry, kept, rfl⟩ := List.mem_map.mp member
    have stored := mem_toList_iff.mp (List.mem_filter.mp kept).1
    rw [Std.TreeMap.mem_iff_isSome_getElem?, stored]
    rfl
  · cases member

-- Ranges

/-- The ranges of the fields that a report reads. -/
structure Ranged (peer : Peer) : Prop where
  cursor : peer.tracker.nextExpectedSeq < 2 ^ 32
  gaps : ∀ gap ∈ peer.tracker.missingSeqs, gap < 2 ^ 32
  late : peer.late.lateSamples ≤ peer.late.transitSamples

theorem advanceLoop_cursor {fuel : Nat} {tracker : SequenceTracker}
    (small : tracker.nextExpectedSeq < 2 ^ 32)
    : (advanceLoop fuel tracker).nextExpectedSeq < 2 ^ 32 := by
  induction fuel generalizing tracker with
  | zero => exact small
  | succ fuel ih =>
      rw [advanceLoop]
      split
      · exact ih (u32_lt _)
      · exact small

theorem skipGap_cursor {tracker : SequenceTracker} (small : tracker.nextExpectedSeq < 2 ^ 32)
    (gap : Nat)
    : (skipGap tracker gap).nextExpectedSeq < 2 ^ 32 := by
  rw [skipGap]
  split
  · exact advanceLoop_cursor (u32_lt _)
  · exact small

/-- A scan keeps the cursor a 32-bit sequence, by induction on the entries. -/
theorem foldl_cursor (entries : List (Nat × TimePoint)) {tracker : SequenceTracker}
    (lost : List Nat) (small : tracker.nextExpectedSeq < 2 ^ 32)
    : (entries.foldl (scanGap negotiated giveUp threshold now) (tracker, lost)).1.nextExpectedSeq
      < 2 ^ 32 := by
  induction entries generalizing tracker lost with
  | nil => exact small
  | cons entry rest ih =>
      obtain ⟨gap, since⟩ := entry
      rw [List.foldl_cons]
      rcases scanGap_cases negotiated giveUp threshold now tracker lost gap since with
        ⟨-, eq⟩ | ⟨-, -, eq⟩ | ⟨-, -, -, eq⟩ | ⟨-, -, -, eq⟩
      · rw [eq]
        exact ih _ (skipGap_cursor small gap)
      · rw [eq]
        exact ih _ small
      · rw [eq]
        exact ih _ (skipGap_cursor small gap)
      · rw [eq]
        exact ih _ small

theorem ackSeq_lt {tracker : SequenceTracker} (small : tracker.nextExpectedSeq < 2 ^ 32)
    : ackSeq tracker < 2 ^ 32 := by
  rw [ackSeq]
  split
  · exact Nat.lt_of_le_of_lt (Nat.sub_le _ _) small
  · decide

-- Round trip

/-- The late ratio of an interval, in ten-thousandths. -/
def intervalRatio (numerics : Numerics) (late : LateSamples) : Nat :=
  if late.transitSamples > 0 then numerics.lateRatio late.lateSamples late.transitSamples else 0

/-- What a report is to say: the cursor it leaves, the late ratio, the first lost sequences as far as
a report lists them, and the low 32 bits of the measured bandwidth.
-/
def contentsOf (numerics : Numerics) (peer : Peer) (reportInterval : Int) (now : TimePoint)
    : Contents where
  ackSeq := ackSeq (buildPayload numerics peer reportInterval now).1.tracker
  lateRatio := intervalRatio numerics peer.late
  lost :=
    let lost := lostOf peer reportInterval now
    lost.take (min lost.length kMaxLost)
  probeBw := (finalizeProbeTrain numerics peer.probe now).bwBps % 2 ^ 32

/-- The report that a peer builds is read as what it is to say. -/
def RoundTrips (numerics : Numerics) (peer : Peer) (reportInterval : Int) (now : TimePoint) : Prop :=
  parse (buildPayload numerics peer reportInterval now).2
    = some (contentsOf numerics peer reportInterval now)

/-- The report that a peer builds is read with as many lost sequences as its count says. -/
theorem parse_buildPayload {numerics : Numerics} (cursor : peer.tracker.nextExpectedSeq < 2 ^ 32)
    (gaps : ∀ gap ∈ peer.tracker.missingSeqs, gap < 2 ^ 32) (reportInterval : Int) (now : TimePoint)
    : parse (buildPayload numerics peer reportInterval now).2
      = some
        {
          contentsOf numerics peer reportInterval now with
          lateRatio := min 10000 (u16 (intervalRatio numerics peer.late))
          lost :=
            (lostOf peer reportInterval now).take (lostCount (lostOf peer reportInterval now))
        } := by
  have scannedCursor : (scan peer reportInterval now).1.nextExpectedSeq < 2 ^ 32 := by
    rw [scan_eq]
    exact foldl_cursor _ _ cursor
  have small : ∀ seq ∈ lostOf peer reportInterval now, seq < 2 ^ 32 := fun seq member =>
    gaps seq (mem_lostOf member)
  have payload : (buildPayload numerics peer reportInterval now).2
      = encode (ackSeq (scan peer reportInterval now).1) (intervalRatio numerics peer.late)
          (lostOf peer reportInterval now) (finalizeProbeTrain numerics peer.probe now).bwBps := by
    rw [← scan_lost]
    rfl
  rw [payload, parse_encode _ (ackSeq_lt scannedCursor) small]
  rfl

theorem parse_buildPayload_of_ranged {numerics : Numerics}
    (ratios : ∀ late total, 0 < total → late ≤ total → numerics.lateRatio late total ≤ 10000)
    (ranged : Ranged peer) (reportInterval : Int) (now : TimePoint)
    : parse (buildPayload numerics peer reportInterval now).2
      = some
        {
          contentsOf numerics peer reportInterval now with
          lost :=
            (lostOf peer reportInterval now).take (lostCount (lostOf peer reportInterval now))
        } := by
  have ratio : intervalRatio numerics peer.late ≤ 10000 := by
    rw [intervalRatio]
    split
    · rename_i sampled
      exact ratios _ _ sampled ranged.late
    · exact Nat.zero_le _
  have same : min 10000 (u16 (intervalRatio numerics peer.late)) = intervalRatio numerics peer.late := by
    rw [u16, Nat.mod_eq_of_lt (by omega), Nat.min_eq_right ratio]
  rw [parse_buildPayload ranged.cursor ranged.gaps, same]
  rfl

/-- A built report is read as what it is to say exactly when the number of lost sequences fits into
16 bits, or what is left of it there is no less than a report lists; and a payload too short for the
sequences it declares changes nothing.
-/
theorem roundTrips_iff {numerics : Numerics}
    (ratios : ∀ late total, 0 < total → late ≤ total → numerics.lateRatio late total ≤ 10000)
    (ranged : Ranged peer) (reportInterval : Int) (now : TimePoint)
    : (lostOf peer reportInterval now).Pairwise (· < ·)
      ∧ (RoundTrips numerics peer reportInterval now
        ↔ (lostOf peer reportInterval now).length < 65536
          ∨ 256 ≤ (lostOf peer reportInterval now).length % 65536)
      ∧ ∀ (other : Peer) (payload : Bytes) (later : TimePoint),
          TooShort payload → handle other payload later = (other, []) := by
  refine ⟨lostOf_ascending _ _ _, ?_, ?_⟩
  · rw [RoundTrips, parse_buildPayload_of_ranged ratios ranged, ← lostCount_iff]
    constructor
    · intro same
      have lists := congrArg (fun contents => contents.lost.length) (Option.some.inj same)
      simp only [contentsOf, List.length_take] at lists
      have few := lostCount_le_length (lostOf peer reportInterval now)
      omega
    · intro full
      rw [full]
      rfl
  · intro other payload later short
    rw [handle, parse_tooShort short]

theorem lateRatio_default (late total : Nat) (_sampled : 0 < total) (bound : late ≤ total)
    : (default : Numerics).lateRatio late total ≤ 10000 :=
  Nat.div_le_of_le_mul (Nat.mul_le_mul_right 10000 bound)

/-- A peer that has received packet 1 and packet `seq`. -/
def gapPeer (seq : Nat) : Peer where
  tracker := trackSequence { nextExpectedSeq := 2, seqInitialized := true } seq 0

theorem gapPeer_tracker {seq : Nat} (ahead : 2 ≤ seq)
    : (gapPeer seq).tracker
      = advance (noted { nextExpectedSeq := 2, seqInitialized := true } seq 0) := by
  rw [gapPeer, trackSequence, if_neg (by omega), if_neg (by simp), if_pos ahead]
  rfl

theorem gapPeer_ranged {seq : Nat} (ahead : 2 ≤ seq) (small : seq < 2 ^ 32)
    : Ranged (gapPeer seq) where
  cursor := by
    rw [gapPeer_tracker ahead]
    exact advanceLoop_cursor (show 2 < 2 ^ 32 by decide)
  gaps := by
    intro gap member
    rw [gapPeer_tracker ahead, advance_missing] at member
    rcases mem_noteMissing.mp member with before | ⟨⟨-, behind⟩, -⟩
    · exact absurd before Std.TreeMap.not_mem_emptyc
    · exact Nat.lt_trans behind small
  late := Nat.le_refl 0

/-- Gaps 2 and 3. -/
theorem roundTrips_two_gaps : RoundTrips default (gapPeer 4) 1000000000 200000000 :=
  (roundTrips_iff lateRatio_default (gapPeer_ranged (by decide) (by decide)) _ _).2.1.mpr
    (Or.inl (by decide))

/-- Noted gaps carry the time of the arrival that opened them. -/
theorem foldl_note_since {tracker : SequenceTracker} (gaps : List Nat)
    {missing : Std.TreeMap Nat TimePoint}
    (all : ∀ (gap : Nat) (since : TimePoint), missing[gap]? = some since → since = now)
    : ∀ (gap : Nat) (since : TimePoint),
      (gaps.foldl
        (fun missing gap =>
          if tracker.recvSeqs.contains gap then missing else missing.insertIfNew gap now)
        missing)[gap]? = some since
      → since = now := by
  induction gaps generalizing missing with
  | nil => exact all
  | cons first rest ih =>
      rw [List.foldl_cons]
      refine ih fun gap since stored => ?_
      split at stored
      · exact all gap since stored
      · rw [Std.TreeMap.getElem?_insertIfNew] at stored
        split at stored
        · exact (Option.some.inj stored).symm
        · exact all gap since stored

theorem length_lostOf_gapPeer {seq : Nat} (ahead : 2 ≤ seq)
    : (lostOf (gapPeer seq) 1000000000 200000000).length = seq - 2 := by
  have missing : (gapPeer seq).tracker.missingSeqs
      = noteMissing { nextExpectedSeq := 2, seqInitialized := true } seq 0 := by
    rw [gapPeer_tracker ahead, advance_missing]
    rfl
  have opened : newGaps { nextExpectedSeq := 2, seqInitialized := true } seq
      = List.range' 2 (seq - 2) :=
    List.filter_eq_self.mpr fun _ _ => rfl
  have due : ∀ entry ∈ (gapPeer seq).tracker.missingSeqs.toList,
      Listed (giveUpUs 1000000000) (lossThreshold (gapPeer seq).senderRttUs) 200000000 entry := by
    rintro ⟨gap, since⟩ member
    have stored := mem_toList_iff.mp member
    rw [missing] at stored
    obtain rfl := foldl_note_since _ (fun _ _ none_ => by simp at none_) gap since stored
    exact (by decide : Listed (giveUpUs 1000000000) (lossThreshold 0) 200000000 (0, 0))
  have all : (gapPeer seq).tracker.missingSeqs.toList.filter (fun entry =>
        decide (Listed (giveUpUs 1000000000) (lossThreshold (gapPeer seq).senderRttUs) 200000000
          entry))
      = (gapPeer seq).tracker.missingSeqs.toList :=
    List.filter_eq_self.mpr fun entry member => decide_eq_true (due entry member)
  have negotiated : ((gapPeer seq).retransmit && (gapPeer seq).peerRetransmit) = true := rfl
  rw [lostOf, if_pos negotiated, all, List.length_map, Std.TreeMap.length_toList, missing,
    size_noteMissing, opened, List.length_range']
  exact Nat.zero_add _

/-- 65536 gaps, of which a report lists none. -/
theorem gapPeer_lists_none
    : Ranged (gapPeer 65538)
      ∧ (lostOf (gapPeer 65538) 1000000000 200000000).length = 65536
      ∧ ¬RoundTrips default (gapPeer 65538) 1000000000 200000000 := by
  have ranged : Ranged (gapPeer 65538) := gapPeer_ranged (by decide) (by decide)
  have count : (lostOf (gapPeer 65538) 1000000000 200000000).length = 65536 :=
    length_lostOf_gapPeer (by decide)
  refine ⟨ranged, count, fun trips => ?_⟩
  have nothing : lostCount (lostOf (gapPeer 65538) 1000000000 200000000) = 0 := by
    rw [lostCount, count]
    rfl
  rw [RoundTrips, parse_buildPayload_of_ranged lateRatio_default ranged] at trips
  have lists := congrArg (fun contents => contents.lost.length) (Option.some.inj trips)
  simp only [contentsOf, List.length_take, nothing, count] at lists
  exact absurd lists (by decide)

end Creek.Tight.Report
