import Creek.Proofs.Tight.LossTable
import Mathlib

/-! The gap at which the ack cursor stands. A report that forgets it without moving the cursor, because
it is too old or because the table is cut, leaves the cursor there.
-/

namespace Creek.Tight

open Library Reassembler SequenceTracker

namespace SequenceTracker

variable {tracker after : SequenceTracker} {gap : Nat}

/-- Every sequence between the cursor and a received one is received or in the missing table. -/
def Covered (tracker : SequenceTracker) : Prop :=
  ∀ top ∈ tracker.recvSeqs, ∀ gap, tracker.nextExpectedSeq ≤ gap → gap < top
    → gap ∈ tracker.recvSeqs ∨ gap ∈ tracker.missingSeqs

/-- A sequence that has not been received holds the cursor back from a received one. -/
structure Blocks (tracker : SequenceTracker) (gap : Nat) : Prop where
  beyond : tracker.nextExpectedSeq ≤ gap
  absent : gap ∉ tracker.recvSeqs
  before : ∃ top ∈ tracker.recvSeqs, gap < top

theorem covered_iff : Covered tracker ↔ ∀ gap, Blocks tracker gap → gap ∈ tracker.missingSeqs := by
  constructor
  · rintro covered gap ⟨beyond, absent, top, member, below⟩
    exact (covered top member gap beyond below).resolve_left absent
  · intro all top member gap beyond below
    by_cases received : gap ∈ tracker.recvSeqs
    · exact .inl received
    · exact .inr (all gap ⟨beyond, received, top, member, below⟩)

theorem Blocks.of_moves (blocks : Blocks after gap) (moves : Moves tracker after)
    : Blocks tracker gap := by
  obtain ⟨beyond, absent, top, member, below⟩ := blocks
  rcases moves.onward with ⟨forward, kept⟩ | ⟨-, gone⟩
  · refine ⟨Nat.le_trans forward beyond, fun received => ?_, top, moves.fewer top member, below⟩
    rcases kept gap received with still | passed
    · exact absent still
    · exact Nat.not_lt.mpr beyond passed
  · exact absurd member (gone top)

/-- Moving the cursor keeps the sequences before it covered. -/
theorem Covered.of_moves (covered : Covered tracker) (moves : Moves tracker after)
    (kept : ∀ gap, Blocks after gap → gap ∈ tracker.missingSeqs → gap ∈ after.missingSeqs)
    : Covered after :=
  covered_iff.mpr fun gap blocks =>
    kept gap blocks (covered_iff.mp covered gap (blocks.of_moves moves))

/-- The cursor of a steady tracker blocks itself, unless nothing is received beyond it. -/
theorem Steady.cursor_blocks {top : Nat} (steady : tracker.Steady) (member : top ∈ tracker.recvSeqs)
    : Blocks tracker tracker.nextExpectedSeq := by
  refine ⟨Nat.le_refl _, steady.stopped, top, member, ?_⟩
  refine Nat.lt_of_le_of_ne (steady.ahead.received top member).1 fun same => ?_
  exact steady.stopped (same ▸ member)

theorem trackSequence_covered {seq : Nat} {now : TimePoint} (steady : tracker.Steady)
    (small : seq < 2 ^ 32) (covered : Covered tracker)
    : Covered (trackSequence tracker seq now) := by
  rcases trackSequence_cases tracker seq now with
    ⟨-, eq⟩ | ⟨uninitialized, -, eq⟩ | ⟨-, -, beyond, eq⟩ | ⟨-, -, behind, eq⟩ <;> rw [eq]
  · exact covered
  · exact fun top member => absurd member ((steady.idle uninitialized).2 top)
  · obtain ⟨run, advanced⟩ := advance_advanced (@noted_ahead _ _ now steady.ahead beyond small)
    have notedCovered : Covered (noted tracker seq now) := by
      refine covered_iff.mpr ?_
      rintro gap ⟨low, absent, top, member, below⟩
      have unreceived : gap ∉ tracker.recvSeqs := fun received =>
        absent (mem_noted.mpr (.inr received))
      refine mem_noteMissing.mpr ?_
      rcases mem_noted.mp member with rfl | member
      · exact .inr ⟨⟨low, below⟩, unreceived⟩
      · exact .inl ((covered top member gap low below).resolve_left unreceived)
    exact notedCovered.of_moves
      (advanced.moves (noted_ahead steady.ahead beyond small)) fun gap _ member => by
        rwa [advance_missing]
  · have ahead : (filled tracker seq).Ahead := ⟨steady.ahead.cursor, steady.ahead.received⟩
    obtain ⟨run, advanced⟩ := advance_advanced ahead
    have filledCovered : Covered (filled tracker seq) := by
      refine covered.of_moves (.of_same rfl rfl rfl) fun gap blocks member => ?_
      have beyond : tracker.nextExpectedSeq ≤ gap := blocks.beyond
      rw [filled, Std.TreeMap.mem_erase, ne_eq, Nat.compare_eq_eq]
      exact ⟨by omega, member⟩
    exact filledCovered.of_moves (advanced.moves ahead) fun gap _ member => by
      rwa [advance_missing]

end SequenceTracker

-- What a report keeps

namespace Report

variable {tracker : SequenceTracker} {giveUp threshold : Int} {now : TimePoint}
  {entries : List (Nat × TimePoint)} {lost : List Nat} {gap : Nat}

theorem skipGap_blocks {other : Nat} (steady : tracker.Steady) (small : other + 1 < 2 ^ 32)
    (blocks : Blocks tracker gap) (different : other ≠ gap)
    : Blocks (skipGap tracker other) gap := by
  rw [skipGap]
  split
  · rename_i stands
    obtain ⟨initialized, rfl⟩ := stands
    obtain ⟨beyond, absent, top, member, below⟩ := blocks
    obtain ⟨next, eq, cursor, received, ahead⟩ := exists_stepped steady small
    obtain ⟨run, advanced⟩ := advance_advanced ahead
    rw [← eq]
    -- the run of received sequences ends before the gap
    have stops : next.nextExpectedSeq + run ≤ gap := by
      rcases Nat.lt_or_ge gap (next.nextExpectedSeq + run) with inside | outside
      · have passed := advanced.passed (gap - next.nextExpectedSeq) (by omega)
        rw [received, show next.nextExpectedSeq + (gap - next.nextExpectedSeq) = gap by omega]
          at passed
        exact absurd passed absent
      · exact outside
    refine ⟨?_, fun still => absent ?_, top, ?_, below⟩
    · rw [advanced.same]
      exact Nat.le_trans (Nat.mod_le _ _) stops
    · rw [← received]
      exact ((advanced.kept gap).mp still).1
    · refine (advanced.kept top).mpr ⟨by rwa [received], by omega⟩
  · exact blocks

/-- An entry that a report lists and skips. -/
def Listed (giveUp threshold : Int) (now : TimePoint) (entry : Nat × TimePoint) : Prop :=
  microseconds (now - entry.2) ≤ giveUp ∧ threshold < microseconds (now - entry.2)

/-- A gap that is not listed keeps blocking, by induction on the entries. -/
theorem foldl_blocks (steady : tracker.Steady) (small : ∀ entry ∈ entries, entry.1 + 1 < 2 ^ 32)
    (blocks : Blocks tracker gap)
    (unlisted : ∀ entry ∈ entries, entry.1 = gap → ¬Listed giveUp threshold now entry)
    : Blocks (entries.foldl (scanGap true giveUp threshold now) (tracker, lost)).1 gap := by
  induction entries generalizing tracker lost with
  | nil => exact blocks
  | cons entry rest ih =>
      obtain ⟨first, since⟩ := entry
      have smallFirst := small _ List.mem_cons_self
      have step := @scanGap_scans tracker true giveUp threshold now lost first since steady smallFirst
      refine @ih (scanGap true giveUp threshold now (tracker, lost) (first, since)).1
        (scanGap true giveUp threshold now (tracker, lost) (first, since)).2 step.steady
        (fun entry member => small entry (List.mem_cons_of_mem _ member)) ?_
        fun entry member => unlisted entry (List.mem_cons_of_mem _ member)
      rcases scanGap_cases true giveUp threshold now tracker lost first since with
        ⟨impossible, -⟩ | ⟨-, -, eq⟩ | ⟨-, recent, old, eq⟩ | ⟨-, -, -, eq⟩
      · cases impossible
      · rw [eq]
        exact ⟨blocks.beyond, blocks.absent, blocks.before⟩
      · rw [eq]
        refine skipGap_blocks steady smallFirst blocks fun same => ?_
        exact unlisted _ List.mem_cons_self same ⟨recent, old⟩
      · rw [eq]
        exact blocks

/-- The cursor does not come to stand at a listed gap: it has skipped the gap, and a gap behind which
it stands holds it back to the end.
-/
theorem foldl_stands (steady : tracker.Steady) (small : ∀ entry ∈ entries, entry.1 + 1 < 2 ^ 32)
    (ascending : entries.Pairwise fun left right => left.1 < right.1)
    {top : Nat}
    (received : top ∈ (entries.foldl (scanGap true giveUp threshold now) (tracker, lost)).1.recvSeqs)
    : ∀ entry ∈ entries, Listed giveUp threshold now entry
      → entry.1
        ≠ (entries.foldl (scanGap true giveUp threshold now) (tracker, lost)).1.nextExpectedSeq := by
  induction entries generalizing tracker lost with
  | nil => exact fun entry member => absurd member List.not_mem_nil
  | cons entry rest ih =>
      obtain ⟨first, since⟩ := entry
      obtain ⟨least, ascendingRest⟩ := List.pairwise_cons.mp ascending
      have smallFirst := small _ List.mem_cons_self
      have smallRest := fun entry member => small entry (List.mem_cons_of_mem (first, since) member)
      obtain ⟨middle, listed, eq⟩ : ∃ middle listed,
          scanGap true giveUp threshold now (tracker, lost) (first, since) = (middle, listed) :=
        ⟨_, _, rfl⟩
      have step := @scanGap_scans tracker true giveUp threshold now lost first since steady smallFirst
      rw [eq] at step
      rw [List.foldl_cons, eq] at received ⊢
      intro entry member isListed
      rcases List.mem_cons.mp member with rfl | member
      · -- the first entry was listed: the cursor is past it, or held back before it
        obtain ⟨rest_, -⟩ := @foldl_scans middle true giveUp threshold now rest listed step.steady
          smallRest
        rcases scanGap_cases true giveUp threshold now tracker lost first since with
          ⟨impossible, -⟩ | ⟨-, old, -⟩ | ⟨-, -, -, skipped⟩ | ⟨-, -, young, -⟩
        · cases impossible
        · exact absurd isListed.1 (Int.not_le.mpr old)
        · have same : middle = skipGap tracker first := congrArg Prod.fst (eq.symm.trans skipped)
          have skips := skipGap_skips steady smallFirst
          have still := rest_.moves.fewer top received
          have earlier := step.moves.fewer top still
          rcases rest_.moves.onward with ⟨onward, -⟩ | ⟨-, gone⟩
          · by_cases stood : first = tracker.nextExpectedSeq
            · have initialized : tracker.seqInitialized = true := by
                by_contra idle
                exact (steady.idle (by simpa using idle)).2 top earlier
              rcases skips.passes initialized stood with past | gone
              · rw [← same] at past
                exact Nat.ne_of_lt (Nat.lt_of_lt_of_le past onward)
              · rw [← same] at gone
                exact absurd still (gone top)
            · have stayed : middle = tracker := same.trans (skips.stays stood)
              rw [stayed] at rest_ received ⊢
              have blocks := steady.cursor_blocks earlier
              rcases Nat.lt_or_gt_of_ne stood with behind | ahead
              · rw [stayed] at onward
                exact Nat.ne_of_lt (Nat.lt_of_lt_of_le behind onward)
              · have held := @foldl_blocks tracker giveUp threshold now rest listed
                  tracker.nextExpectedSeq steady smallRest blocks fun entry member same => by
                    have later := least entry member
                    simp only at later
                    omega
                exact Nat.ne_of_gt (Nat.lt_of_le_of_lt held.beyond ahead)
          · exact absurd received (gone top)
        · exact absurd isListed.2 (Int.not_lt.mpr young)
      · exact ih step.steady smallRest ascendingRest received entry member isListed

/-- With retransmission negotiated exactly the entries that are too old are forgotten. -/
theorem foldl_kept (steady : tracker.Steady) (small : ∀ entry ∈ entries, entry.1 + 1 < 2 ^ 32)
    : gap ∈ (entries.foldl (scanGap true giveUp threshold now) (tracker, lost)).1.missingSeqs
      ↔ gap ∈ tracker.missingSeqs
        ∧ ∀ entry ∈ entries, entry.1 = gap → microseconds (now - entry.2) ≤ giveUp := by
  induction entries generalizing tracker lost with
  | nil => simp
  | cons entry rest ih =>
      obtain ⟨first, since⟩ := entry
      have smallFirst := small _ List.mem_cons_self
      have smallRest := fun entry member => small entry (List.mem_cons_of_mem (first, since) member)
      have step := @scanGap_scans tracker true giveUp threshold now lost first since steady smallFirst
      have skips := skipGap_skips steady smallFirst
      rw [List.foldl_cons, @ih (scanGap true giveUp threshold now (tracker, lost) (first, since)).1
        (scanGap true giveUp threshold now (tracker, lost) (first, since)).2 step.steady smallRest,
        List.forall_mem_cons]
      rcases scanGap_cases true giveUp threshold now tracker lost first since with
        ⟨impossible, -⟩ | ⟨-, old, eq⟩ | ⟨-, recent, -, eq⟩ | ⟨-, recent, -, eq⟩
      · cases impossible
      · rw [eq, mem_forgotten, and_assoc, and_left_comm]
        refine and_congr_right fun _ => and_congr_left fun _ => ?_
        constructor
        · exact fun different same => absurd same.symm different
        · rintro spared rfl
          exact Int.not_le.mpr old (spared rfl)
      · rw [eq, skips.missing]
        refine and_congr_right fun _ => ⟨fun spared => ⟨fun _ => recent, spared⟩, And.right⟩
      · rw [eq]
        refine and_congr_right fun _ => ⟨fun spared => ⟨fun _ => recent, spared⟩, And.right⟩

/-- Without retransmission every gap is skipped, by induction on the entries in sequence order: a gap
behind an entry would have been skipped before it.
-/
theorem foldl_unnegotiated (steady : tracker.Steady)
    (small : ∀ entry ∈ entries, entry.1 + 1 < 2 ^ 32)
    (ascending : entries.Pairwise fun left right => left.1 < right.1)
    (covered : ∀ gap, Blocks tracker gap → gap ∈ entries.map Prod.fst)
    : ¬Blocks (entries.foldl (scanGap false giveUp threshold now) (tracker, lost)).1 gap := by
  induction entries generalizing tracker lost gap with
  | nil => exact fun blocks => absurd (covered gap blocks) List.not_mem_nil
  | cons entry rest ih =>
      obtain ⟨first, since⟩ := entry
      obtain ⟨least, ascendingRest⟩ := List.pairwise_cons.mp ascending
      have smallFirst := small _ List.mem_cons_self
      have step := @scanGap_scans tracker false giveUp threshold now lost first since steady smallFirst
      have skips := skipGap_skips steady smallFirst
      refine @ih (scanGap false giveUp threshold now (tracker, lost) (first, since)).1
        (scanGap false giveUp threshold now (tracker, lost) (first, since)).2 gap step.steady
        (fun entry member => small entry (List.mem_cons_of_mem _ member)) ascendingRest ?_
      intro other still
      have blocks := still.of_moves step.moves
      rcases List.mem_cons.mp (covered other blocks) with rfl | later
      · rcases scanGap_cases false giveUp threshold now tracker lost other since with
          ⟨-, eq⟩ | ⟨impossible, -⟩ | ⟨impossible, -⟩ | ⟨impossible, -⟩
        · rw [eq] at still
          obtain ⟨beyond, -, top, member, -⟩ := still
          by_cases stood : other = tracker.nextExpectedSeq
          · have initialized : tracker.seqInitialized = true := by
              by_contra idle
              obtain ⟨earlier, received, -⟩ := blocks.before
              exact (steady.idle (by simpa using idle)).2 earlier received
            rcases skips.passes initialized stood with past | gone
            · exact absurd past (Nat.not_lt.mpr beyond)
            · exact absurd member (gone top)
          · -- the cursor stands at a gap before this one, which is not an entry any more
            obtain ⟨low, -, top, member, -⟩ := blocks
            rcases List.mem_cons.mp (covered _ (steady.cursor_blocks member)) with same | later
            · exact absurd same.symm stood
            · obtain ⟨entry, inRest, same⟩ := List.mem_map.mp later
              have bound := least entry inRest
              simp only at bound
              omega
        all_goals cases impossible
      · exact later

theorem capMissing_upward {fuel : Nat} {missing : Std.TreeMap Nat TimePoint} {other : Nat}
    (kept : gap ∈ capMissing fuel missing) (member : other ∈ missing) (above : gap ≤ other)
    : other ∈ capMissing fuel missing := by
  induction fuel generalizing missing with
  | zero => exact member
  | succ fuel ih =>
      rw [capMissing] at kept ⊢
      split at kept
      · rename_i exceeds
        rw [if_pos exceeds]
        refine ih kept ?_
        have present := capMissing_subset kept
        rw [Std.TreeMap.mem_erase, ne_eq, Nat.compare_eq_eq] at present ⊢
        have least : missing.minKeyD 0 ≤ gap :=
          Nat.isLE_compare.mp (Std.TreeMap.minKeyD_le_of_mem present.2)
        exact ⟨by omega, member⟩
      · rename_i within
        rwa [if_neg within]

/-- The cut spares the entries from a point on when they are few enough. -/
theorem capMissing_keeps {fuel : Nat} {missing : Std.TreeMap Nat TimePoint} {point : Nat}
    {beyond : List Nat} (few : beyond.length ≤ kMaxMissing)
    (all : ∀ key ∈ missing, point ≤ key → key ∈ beyond) (member : gap ∈ missing)
    (after : point ≤ gap)
    : gap ∈ capMissing fuel missing := by
  induction fuel generalizing missing with
  | zero => exact member
  | succ fuel ih =>
      rw [capMissing]
      split
      · rename_i exceeds
        have least {key : Nat} (present : key ∈ missing) : missing.minKeyD 0 ≤ key :=
          Nat.isLE_compare.mp (Std.TreeMap.minKeyD_le_of_mem present)
        have below : missing.minKeyD 0 < point := by
          rcases Nat.lt_or_ge (missing.minKeyD 0) point with below | above
          · exact below
          · have inside : missing.keys ⊆ beyond := fun key present =>
              have present := Std.TreeMap.mem_keys.mp present
              all key present (Nat.le_trans above (least present))
            have bound := (List.Nodup.subperm missing.nodup_keys inside).length_le
            rw [Std.TreeMap.length_keys] at bound
            omega
        refine ih (fun key present => all key (Std.TreeMap.mem_of_mem_erase present)) ?_
        rw [Std.TreeMap.mem_erase, ne_eq, Nat.compare_eq_eq]
        exact ⟨by omega, member⟩
      · exact member

end Report

-- The reports that strand the cursor

/-- The entries from a gap on that a report does not give up on. -/
def staying (peer : Peer) (reportInterval : Int) (now : TimePoint) (gap : Nat)
    : List (Nat × TimePoint) :=
  peer.tracker.missingSeqs.toList.filter fun entry =>
    gap ≤ entry.1 ∧ microseconds (now - entry.2) ≤ Report.giveUpUs reportInterval

/-- A report of a retransmitting link meets a gap that blocks the cursor and is too old, or too young
to be skipped but cut from the table by the entries behind it.
-/
def StrandedBy (peer : Peer) (reportInterval : Int) (now : TimePoint) : Prop :=
  (peer.retransmit && peer.peerRetransmit) = true
    ∧ ∃ gap since, peer.tracker.missingSeqs[gap]? = some since
      ∧ Blocks peer.tracker gap
      ∧ (Report.giveUpUs reportInterval < microseconds (now - since)
        ∨ microseconds (now - since) ≤ Report.lossThreshold peer.senderRttUs
          ∧ Report.kMaxMissing < (staying peer reportInterval now gap).length)

namespace Report

variable {peer : Peer} {reportInterval : Int} {now : TimePoint}

theorem mem_toList_iff {gap : Nat} {since : TimePoint}
    : (gap, since) ∈ peer.tracker.missingSeqs.toList ↔ peer.tracker.missingSeqs[gap]? = some since :=
  Std.TreeMap.mem_toList_iff_getElem?_eq_some

theorem toList_ascending
    : peer.tracker.missingSeqs.toList.Pairwise fun left right => left.1 < right.1 :=
  Std.TreeMap.ordered_keys_toList.imp Nat.compare_eq_lt.mp

theorem toList_small (steady : peer.tracker.Steady)
    : ∀ entry ∈ peer.tracker.missingSeqs.toList, entry.1 + 1 < 2 ^ 32 := by
  rintro ⟨gap, since⟩ member
  refine steady.gaps gap ?_
  rw [Std.TreeMap.mem_iff_isSome_getElem?, mem_toList_iff.mp member]
  rfl

/-- What is forgotten of a gap in the table, where retransmission is negotiated. -/
theorem scanned_kept {gap : Nat} {since : TimePoint} (steady : peer.tracker.Steady)
    (negotiated : (peer.retransmit && peer.peerRetransmit) = true)
    (noted : peer.tracker.missingSeqs[gap]? = some since)
    : gap ∈ (scanned peer reportInterval now).1.missingSeqs
      ↔ microseconds (now - since) ≤ giveUpUs reportInterval := by
  rw [scanned, negotiated, foldl_kept steady (toList_small steady)]
  constructor
  · rintro ⟨-, recent⟩
    exact recent (gap, since) (mem_toList_iff.mpr noted) rfl
  · refine fun recent => ⟨?_, ?_⟩
    · rw [Std.TreeMap.mem_iff_isSome_getElem?, noted]
      rfl
    · rintro ⟨other, since'⟩ member rfl
      have same := Option.some.inj (noted.symm.trans (mem_toList_iff.mp member))
      rwa [← same]

/-- The cut leaves the cursor and the received sequences alone. -/
theorem scan_blocks_iff {gap : Nat}
    : Blocks (scan peer reportInterval now).1 gap ↔ Blocks (scanned peer reportInterval now).1 gap :=
  ⟨fun ⟨beyond, absent, before⟩ => ⟨beyond, absent, before⟩,
    fun ⟨beyond, absent, before⟩ => ⟨beyond, absent, before⟩⟩

/-- Without retransmission a report leaves no gap before a received sequence. -/
theorem scan_covered_of_unnegotiated (steady : peer.tracker.Steady)
    (covered : Covered peer.tracker)
    (unnegotiated : (peer.retransmit && peer.peerRetransmit) = false)
    : Covered (scan peer reportInterval now).1 := by
  refine covered_iff.mpr fun gap blocks => ?_
  have blocks := scan_blocks_iff.mp blocks
  rw [scanned, unnegotiated] at blocks
  refine absurd blocks (foldl_unnegotiated steady (toList_small steady) toList_ascending ?_)
  intro gap blocks
  rw [Std.TreeMap.map_fst_toList_eq_keys]
  exact Std.TreeMap.mem_keys.mpr (covered_iff.mp covered gap blocks)

theorem scanned_blocks {gap : Nat} {since : TimePoint} (steady : peer.tracker.Steady)
    (negotiated : (peer.retransmit && peer.peerRetransmit) = true)
    (present : peer.tracker.missingSeqs[gap]? = some since) (blocks : Blocks peer.tracker gap)
    (unlisted : ¬Listed (giveUpUs reportInterval) (lossThreshold peer.senderRttUs) now (gap, since))
    : Blocks (scanned peer reportInterval now).1 gap := by
  rw [scanned, negotiated]
  refine foldl_blocks steady (toList_small steady) blocks ?_
  rintro ⟨other, since'⟩ member rfl
  have same := Option.some.inj (present.symm.trans (mem_toList_iff.mp member))
  rwa [← same]

/-- A report that strands the cursor forgets the gap at which it does. Witness: a gap that is not too
old stays only when everything behind it does, which is more than the cut leaves.
-/
theorem scan_uncovered (steady : peer.tracker.Steady)
    (stranded : StrandedBy peer reportInterval now)
    : ¬Covered (scan peer reportInterval now).1 := by
  obtain ⟨negotiated, gap, since, present, blocks, exit⟩ := stranded
  intro kept
  have unlisted : ¬Listed (giveUpUs reportInterval) (lossThreshold peer.senderRttUs) now
      (gap, since) := by
    rintro ⟨recent, old⟩
    rcases exit with tooOld | ⟨young, -⟩
    · exact Int.not_le.mpr tooOld recent
    · exact Int.not_le.mpr old young
  have still := scanned_blocks steady negotiated present blocks unlisted
  have inTable := covered_iff.mp kept gap (scan_blocks_iff.mpr still)
  have recent := (scanned_kept steady negotiated present).mp (capMissing_subset inTable)
  obtain ⟨-, many⟩ := exit.resolve_left (Int.not_lt.mpr recent)
  have distinct : ((staying peer reportInterval now gap).map Prod.fst).Nodup := by
    refine List.Pairwise.map _ (fun _ _ => Nat.ne_of_lt) ?_
    exact toList_ascending.filter _
  have inside : (staying peer reportInterval now gap).map Prod.fst
      ⊆ (scan peer reportInterval now).1.missingSeqs.keys := by
    intro key member
    obtain ⟨⟨other, since'⟩, stays, rfl⟩ := List.mem_map.mp member
    obtain ⟨entry, holds⟩ := List.mem_filter.mp stays
    obtain ⟨above, recent⟩ := of_decide_eq_true holds
    refine Std.TreeMap.mem_keys.mpr (capMissing_upward inTable ?_ above)
    exact (scanned_kept steady negotiated (mem_toList_iff.mp entry)).mpr recent
  have bound := (List.Nodup.subperm distinct inside).length_le
  rw [List.length_map, Std.TreeMap.length_keys] at bound
  exact Nat.not_lt.mpr (Nat.le_trans bound (capMissing_fits (Nat.le_refl _))) many

/-- A report that does not strand the cursor keeps every gap before a received sequence. Witness: the
cursor comes to stand at a gap too young to be skipped, from which on the cut spares all entries.
-/
theorem scan_covered (steady : peer.tracker.Steady) (covered : Covered peer.tracker)
    (negotiated : (peer.retransmit && peer.peerRetransmit) = true)
    (spared : ¬StrandedBy peer reportInterval now)
    : Covered (scan peer reportInterval now).1 := by
  obtain ⟨scans, -⟩ := scanned_scans steady reportInterval now
  have recent {gap : Nat} {since : TimePoint} (blocks : Blocks peer.tracker gap)
      (present : peer.tracker.missingSeqs[gap]? = some since)
      : microseconds (now - since) ≤ giveUpUs reportInterval :=
    Int.not_lt.mp fun old => spared ⟨negotiated, gap, since, present, blocks, .inl old⟩
  have timed {gap : Nat} (blocks : Blocks peer.tracker gap)
      : ∃ since, peer.tracker.missingSeqs[gap]? = some since :=
    Option.isSome_iff_exists.mp
      (Std.TreeMap.mem_iff_isSome_getElem?.mp (covered_iff.mp covered gap blocks))
  refine covered_iff.mpr fun gap blocks => ?_
  have blocks := scan_blocks_iff.mp blocks
  obtain ⟨top, member, below⟩ := blocks.before
  obtain ⟨cursor, stood⟩ : ∃ cursor,
      cursor = (scanned peer reportInterval now).1.nextExpectedSeq := ⟨_, rfl⟩
  have stands : Blocks peer.tracker cursor := by
    rw [stood]
    exact (scans.steady.cursor_blocks member).of_moves scans.moves
  obtain ⟨since, present⟩ := timed stands
  have young : microseconds (now - since) ≤ lossThreshold peer.senderRttUs := by
    refine Int.not_lt.mp fun old => ?_
    rw [scanned, negotiated] at member stood
    exact foldl_stands steady (toList_small steady) toList_ascending member (cursor, since)
      (mem_toList_iff.mpr present) ⟨recent stands present, old⟩ stood
  have few : (staying peer reportInterval now cursor).length ≤ kMaxMissing :=
    Nat.not_lt.mp fun many => spared ⟨negotiated, _, since, present, stands, .inr ⟨young, many⟩⟩
  rw [← List.length_map Prod.fst] at few
  have earlier := blocks.of_moves scans.moves
  obtain ⟨gapSince, gapPresent⟩ := timed earlier
  refine capMissing_keeps few ?_
    ((scanned_kept steady negotiated gapPresent).mpr (recent earlier gapPresent))
    (stood ▸ blocks.beyond)
  intro key inTable above
  obtain ⟨keySince, keyPresent⟩ := Option.isSome_iff_exists.mp
    (Std.TreeMap.mem_iff_isSome_getElem?.mp (scans.fewer key inTable))
  refine List.mem_map.mpr ⟨(key, keySince), List.mem_filter.mpr ⟨?_, ?_⟩, rfl⟩
  · exact mem_toList_iff.mpr keyPresent
  · exact decide_eq_true ⟨above, (scanned_kept steady negotiated keyPresent).mp inTable⟩

end Report

/-- The event is a report that strands the cursor. -/
def Strands (stage : LossStage) : Prop :=
  ∃ reportInterval now, stage.event = .report reportInterval now
    ∧ StrandedBy stage.before reportInterval now

namespace LossTable

variable {numerics : Numerics} {start last peer after : Peer} {event : LossEvent}
  {outputs : List Nat} {history : List LossStage}

/-- An event keeps the sequences before the cursor covered exactly when it does not strand it. -/
theorem step_covered_iff (steady : peer.tracker.Steady) (covered : Covered peer.tracker)
    (taken : step numerics peer event = .ok (after, outputs))
    : Covered after.tracker ↔ ¬Strands { before := peer, event := event, outputs := outputs } := by
  have moved := step_tracker taken
  cases event with
  | data header payload context =>
      rw [moved.1]
      refine iff_of_true (trackSequence_covered steady header.sequence.toNat_lt covered) ?_
      rintro ⟨_, _, same, -⟩
      cases same
  | report reportInterval now =>
      rw [moved.1]
      have only : Strands { before := peer, event := .report reportInterval now, outputs := outputs }
          ↔ StrandedBy peer reportInterval now := by
        constructor
        · rintro ⟨_, _, same, stranded⟩
          cases same
          exact stranded
        · exact fun stranded => ⟨_, _, rfl, stranded⟩
      rw [only]
      rcases negotiated : peer.retransmit && peer.peerRetransmit with _ | _
      · refine iff_of_true (Report.scan_covered_of_unnegotiated steady covered negotiated) ?_
        exact fun stranded => nomatch negotiated.symm.trans stranded.1
      · constructor
        · exact fun kept stranded => Report.scan_uncovered steady stranded kept
        · exact Report.scan_covered steady covered negotiated
  | tune retransmit peerRetransmit senderRttUs =>
      rw [moved.1]
      refine iff_of_true covered ?_
      rintro ⟨_, _, same, -⟩
      cases same

/-- In every run the sequences before the cursor stay covered exactly as long as no report strands it.
-/
theorem covered_iff_unstranded (fresh : start.tracker = {})
    (run : Run (step numerics) (fun _ _ _ => True) start history last)
    : Throughout (fun _ peer => Covered peer.tracker) history last
      ↔ ∀ stage ∈ history, ¬Strands stage := by
  refine run.throughout_iff ?_ fun _ _ _ _ _ run covered _ taken =>
    step_covered_iff (run_steady fresh run) covered taken
  rw [fresh]
  exact fun top member => absurd member Std.TreeSet.not_mem_emptyc

theorem covered_iff_unstranded_gapReported
    : ∃ history last, history.map Stage.outputs = [[], [], [2, 3]]
      ∧ (Throughout (fun _ peer => Covered peer.tracker) history last
        ↔ ∀ stage ∈ history, ¬Strands stage) := by
  obtain ⟨history, last, run, listed, -⟩ := gapReported_run
  exact ⟨history, last, listed, covered_iff_unstranded rfl run⟩

/-- Packets 1 and 3 arrive, and the next report is built 13 seconds later: it forgets the gap at which
the cursor stands.
-/
theorem stranded
    : ∃ history last, Run (step default) (fun _ _ _ => True) {} history last
      ∧ ¬Throughout (fun _ peer => Covered peer.tracker) history last := by
  refine ⟨_, _,
    .next
      (.next (.next .start trivial (rfl : step default _ (arrival 1 0) = _)) trivial
        (rfl : step default _ (arrival 3 0) = _))
      trivial (rfl : step default _ (.report 1000000000 13000000000) = _),
    fun covered => ?_⟩
  rcases covered.2 3 (by decide +kernel) 2 (by decide +kernel) (by decide) with received | noted
  · exact absurd received (by decide +kernel)
  · exact absurd noted (by decide +kernel)

end LossTable

end Creek.Tight
