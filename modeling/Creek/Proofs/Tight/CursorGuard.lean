import Creek.Proofs.Tight.ReportRoundTrip

/-! What the ack cursor leaves behind: a set of sequences that are owed, each of which, once the cursor
has passed it, has been received or is in the missing table.
-/

namespace Creek.Tight

open Library Reassembler SequenceTracker

namespace SequenceTracker

variable {tracker after : SequenceTracker} {owed received : Nat → Prop} {seq gap run : Nat}
  {now : TimePoint}

/-- Whatever is owed behind the cursor has been received or is in the missing table, and whatever is
tracked ahead of the cursor has been received.
-/
structure Guards (owed received : Nat → Prop) (tracker : SequenceTracker) : Prop where
  behind : ∀ seq, owed seq → seq < tracker.nextExpectedSeq → received seq ∨ seq ∈ tracker.missingSeqs
  ahead : ∀ seq ∈ tracker.recvSeqs, received seq

theorem Advanced.passes (advanced : tracker.Advanced after run)
    (beyond : tracker.nextExpectedSeq ≤ seq) (below : seq < after.nextExpectedSeq)
    : seq ∈ tracker.recvSeqs := by
  have bound : after.nextExpectedSeq ≤ tracker.nextExpectedSeq + run := by
    rw [advanced.same]
    exact Nat.mod_le _ _
  have passed := advanced.passed (seq - tracker.nextExpectedSeq) (by omega)
  rwa [Nat.add_sub_cancel' beyond] at passed

/-- Moving the cursor over received sequences keeps the guard. -/
theorem Guards.advanced (guards : Guards owed received tracker) (advanced : tracker.Advanced after run)
    : Guards owed received after where
  behind := by
    intro seq due below
    have missing : after.missingSeqs = tracker.missingSeqs := by rw [advanced.same]
    rw [missing]
    rcases Nat.lt_or_ge seq tracker.nextExpectedSeq with passed | beyond
    · exact guards.behind seq due passed
    · exact .inl (guards.ahead seq (advanced.passes beyond below))
  ahead := fun seq member => guards.ahead seq ((advanced.kept seq).mp member).1

theorem Guards.mono {fewer more : Nat → Prop} (guards : Guards owed received tracker)
    (owes : ∀ seq, fewer seq → owed seq) (receives : ∀ seq, received seq → more seq)
    : Guards fewer more tracker where
  behind := fun seq due below => (guards.behind seq (owes seq due) below).imp_left (receives seq)
  ahead := fun seq member => receives seq (guards.ahead seq member)

/-- An arrival keeps the guard, unless it starts the cursor beyond something owed. -/
theorem trackSequence_guards (steady : tracker.Steady) (small : seq < 2 ^ 32)
    (guards : Guards owed received tracker) (arrived : seq ≠ 0 → received seq)
    (first : tracker.seqInitialized = false → seq ≠ 0 → ∀ earlier < seq, ¬owed earlier)
    : Guards owed received (trackSequence tracker seq now) := by
  rcases trackSequence_cases tracker seq now with
    ⟨-, eq⟩ | ⟨uninitialized, numbered, eq⟩ | ⟨-, numbered, beyond, eq⟩ | ⟨-, numbered, -, eq⟩
      <;> rw [eq]
  · exact guards
  · refine ⟨?_, guards.ahead⟩
    intro earlier due below
    have bound : earlier < seq + 1 := Nat.lt_of_lt_of_le below (Nat.mod_le _ _)
    rcases Nat.lt_succ_iff_lt_or_eq.mp bound with before | rfl
    · exact absurd due (first uninitialized numbered earlier before)
    · exact .inl (arrived numbered)
  · obtain ⟨run, advanced⟩ := advance_advanced (@noted_ahead _ _ now steady.ahead beyond small)
    suffices kept : Guards owed received (noted tracker seq now) from kept.advanced advanced
    constructor
    · intro earlier due below
      refine (guards.behind earlier due below).imp_right ?_
      exact fun member => mem_noteMissing.mpr (.inl member)
    · intro other member
      rcases mem_noted.mp member with rfl | before
      · exact arrived numbered
      · exact guards.ahead other before
  · have ahead : (filled tracker seq).Ahead := ⟨steady.ahead.cursor, steady.ahead.received⟩
    obtain ⟨run, advanced⟩ := advance_advanced ahead
    suffices kept : Guards owed received (filled tracker seq) from kept.advanced advanced
    refine ⟨?_, guards.ahead⟩
    intro earlier due below
    rcases guards.behind earlier due below with known | member
    · exact .inl known
    · rw [filled, Std.TreeMap.mem_erase, ne_eq, Nat.compare_eq_eq]
      by_cases same : seq = earlier
      · exact .inl (same ▸ arrived numbered)
      · exact .inr ⟨same, member⟩

/-- A bound of the numbers in use bounds the cursor and everything that is tracked. -/
structure Below (bound : Nat) (tracker : SequenceTracker) : Prop where
  cursor : tracker.nextExpectedSeq ≤ bound
  received : ∀ seq ∈ tracker.recvSeqs, seq < bound
  gaps : ∀ gap ∈ tracker.missingSeqs, gap < bound

theorem Below.advanced {bound : Nat} (below : Below bound tracker)
    (advanced : tracker.Advanced after run)
    : Below bound after where
  cursor := by
    by_contra beyond
    have passed := advanced.passes below.cursor (Nat.not_le.mp beyond)
    exact Nat.lt_irrefl _ (below.received bound passed)
  received := fun seq member => below.received seq ((advanced.kept seq).mp member).1
  gaps := by
    rw [advanced.same]
    exact below.gaps

theorem trackSequence_below {bound : Nat} (steady : tracker.Steady) (small : seq < 2 ^ 32)
    (below : Below bound tracker) (less : seq < bound)
    : Below bound (trackSequence tracker seq now) := by
  rcases trackSequence_cases tracker seq now with
    ⟨-, eq⟩ | ⟨-, -, eq⟩ | ⟨-, -, beyond, eq⟩ | ⟨-, -, -, eq⟩ <;> rw [eq]
  · exact below
  · exact ⟨Nat.le_trans (Nat.mod_le _ _) less, below.received, below.gaps⟩
  · obtain ⟨run, advanced⟩ := advance_advanced (@noted_ahead _ _ now steady.ahead beyond small)
    suffices kept : Below bound (noted tracker seq now) from kept.advanced advanced
    refine ⟨below.cursor, ?_, ?_⟩
    · intro other member
      rcases mem_noted.mp member with rfl | before
      · exact less
      · exact below.received other before
    · intro gap member
      rcases mem_noteMissing.mp member with before | ⟨⟨-, under⟩, -⟩
      · exact below.gaps gap before
      · exact Nat.lt_trans under less
  · have ahead : (filled tracker seq).Ahead := ⟨steady.ahead.cursor, steady.ahead.received⟩
    obtain ⟨run, advanced⟩ := advance_advanced ahead
    suffices kept : Below bound (filled tracker seq) from kept.advanced advanced
    exact ⟨below.cursor, below.received,
      fun gap member => below.gaps gap (Std.TreeMap.mem_of_mem_erase member)⟩

end SequenceTracker

namespace Report

variable {tracker : SequenceTracker} {giveUp threshold : Int} {now : TimePoint} {gap seq : Nat}
  {entries : List (Nat × TimePoint)} {lost : List Nat}

theorem skipGap_passes (steady : tracker.Steady) (small : gap + 1 < 2 ^ 32)
    (beyond : tracker.nextExpectedSeq ≤ seq) (below : seq < (skipGap tracker gap).nextExpectedSeq)
    : seq = gap ∨ seq ∈ tracker.recvSeqs := by
  rw [skipGap] at below
  split at below
  · rename_i stands
    obtain ⟨-, rfl⟩ := stands
    obtain ⟨next, eq, cursor, received, ahead⟩ := exists_stepped steady small
    obtain ⟨run, advanced⟩ := advance_advanced ahead
    rw [← eq] at below
    rcases Nat.eq_or_lt_of_le beyond with same | past
    · exact .inl same.symm
    · rw [← received]
      exact .inr (advanced.passes (by omega) below)
  · exact absurd below (Nat.not_lt.mpr beyond)

/-- A scan passes listed gaps and received sequences, by induction on the entries. -/
theorem foldl_passes (steady : tracker.Steady) (small : ∀ entry ∈ entries, entry.1 + 1 < 2 ^ 32)
    (beyond : tracker.nextExpectedSeq ≤ seq)
    (below : seq
      < (entries.foldl (scanGap true giveUp threshold now) (tracker, lost)).1.nextExpectedSeq)
    : seq ∈ tracker.recvSeqs ∨ ∃ entry ∈ entries, entry.1 = seq ∧ Listed giveUp threshold now entry := by
  induction entries generalizing tracker lost with
  | nil => exact absurd below (Nat.not_lt.mpr beyond)
  | cons entry rest ih =>
      obtain ⟨gap, since⟩ := entry
      have smallFirst := small _ List.mem_cons_self
      have smallRest := fun entry member => small entry (List.mem_cons_of_mem (gap, since) member)
      have step := @scanGap_scans tracker true giveUp threshold now lost gap since steady smallFirst
      have later
          (beyond
            : (scanGap true giveUp threshold now (tracker, lost) (gap, since)).1.nextExpectedSeq ≤ seq)
          : seq ∈ tracker.recvSeqs
            ∨ ∃ entry ∈ (gap, since) :: rest, entry.1 = seq ∧ Listed giveUp threshold now entry := by
        rcases @ih (scanGap true giveUp threshold now (tracker, lost) (gap, since)).1
          (scanGap true giveUp threshold now (tracker, lost) (gap, since)).2 step.steady smallRest
          beyond below with received | ⟨entry, member, same, listed⟩
        · exact .inl (step.moves.fewer seq received)
        · exact .inr ⟨entry, List.mem_cons_of_mem _ member, same, listed⟩
      rcases scanGap_cases true giveUp threshold now tracker lost gap since with
        ⟨impossible, -⟩ | ⟨-, -, eq⟩ | ⟨-, recent, old, eq⟩ | ⟨-, -, -, eq⟩
      · cases impossible
      · exact later (by rw [eq]; exact beyond)
      · rcases Nat.lt_or_ge seq (skipGap tracker gap).nextExpectedSeq with first | after
        · rcases skipGap_passes steady smallFirst beyond first with rfl | received
          · exact .inr ⟨_, List.mem_cons_self, rfl, recent, old⟩
          · exact .inl received
        · exact later (by rw [eq]; exact after)
      · exact later (by rw [eq]; exact beyond)

variable {peer : Peer} {reportInterval : Int} {owed received : Nat → Prop}

theorem scan_below {bound : Nat} (steady : peer.tracker.Steady)
    (negotiated : (peer.retransmit && peer.peerRetransmit) = true) (below : Below bound peer.tracker)
    : Below bound (scan peer reportInterval now).1 := by
  obtain ⟨scans, -⟩ := scan_scans steady reportInterval now
  refine ⟨?_, ?_, ?_⟩
  · by_contra beyond
    have passed := Nat.not_le.mp beyond
    rw [scan_eq, scanned, negotiated] at passed
    rcases foldl_passes steady (toList_small steady) below.cursor passed with
      received | ⟨⟨gap, since⟩, member, rfl, -⟩
    · exact Nat.lt_irrefl _ (below.received _ received)
    · have noted := Std.TreeMap.mem_iff_isSome_getElem?.mpr
        (Option.isSome_iff_exists.mpr ⟨since, mem_toList_iff.mp member⟩)
      exact Nat.lt_irrefl _ (below.gaps _ noted)
  · exact fun seq member => below.received seq (scans.moves.fewer seq member)
  · exact fun gap member => below.gaps gap (scans.fewer gap member)

/-- A listed entry of the table is among the lost sequences. -/
theorem mem_lostOf_of_listed {since : TimePoint}
    (negotiated : (peer.retransmit && peer.peerRetransmit) = true)
    (noted : peer.tracker.missingSeqs[gap]? = some since)
    (listed : Listed (giveUpUs reportInterval) (lossThreshold peer.senderRttUs) now (gap, since))
    : gap ∈ lostOf peer reportInterval now := by
  rw [lostOf, if_pos negotiated]
  refine List.mem_map.mpr ⟨(gap, since), List.mem_filter.mpr ⟨mem_toList_iff.mpr noted, ?_⟩, rfl⟩
  exact decide_eq_true listed

theorem mem_scan_missing (steady : peer.tracker.Steady)
    (few : peer.tracker.missingSeqs.size ≤ kMaxMissing)
    (member : gap ∈ (scanned peer reportInterval now).1.missingSeqs)
    : gap ∈ (scan peer reportInterval now).1.missingSeqs := by
  obtain ⟨scans, -⟩ := scanned_scans steady reportInterval now
  rw [scan_eq]
  refine @capMissing_keeps gap _ _ 0 peer.tracker.missingSeqs.keys ?_ ?_ member (Nat.zero_le _)
  · rwa [Std.TreeMap.length_keys]
  · exact fun key present _ => Std.TreeMap.mem_keys.mpr (scans.fewer key present)

/-- A report keeps the guard and lists what is owed behind the cursor it leaves, where it does not cut
the table and what is owed behind the cursor it finds is still listed.
-/
theorem scan_guards (steady : peer.tracker.Steady)
    (negotiated : (peer.retransmit && peer.peerRetransmit) = true)
    (few : peer.tracker.missingSeqs.size ≤ kMaxMissing)
    (guards : Guards owed received peer.tracker)
    (due : ∀ gap since, peer.tracker.missingSeqs[gap]? = some since
      → gap < peer.tracker.nextExpectedSeq
      → owed gap
      → Listed (giveUpUs reportInterval) (lossThreshold peer.senderRttUs) now (gap, since))
    : Guards owed received (scan peer reportInterval now).1
      ∧ ∀ seq, owed seq → seq < (scan peer reportInterval now).1.nextExpectedSeq
        → received seq ∨ seq ∈ lostOf peer reportInterval now := by
  obtain ⟨scans, -⟩ := scanned_scans steady reportInterval now
  have listed : ∀ seq, owed seq → seq < (scan peer reportInterval now).1.nextExpectedSeq
      → received seq
        ∨ ∃ since, peer.tracker.missingSeqs[seq]? = some since
          ∧ Listed (giveUpUs reportInterval) (lossThreshold peer.senderRttUs) now (seq, since) := by
    intro seq owes below
    rcases Nat.lt_or_ge seq peer.tracker.nextExpectedSeq with passed | beyond
    · refine (guards.behind seq owes passed).imp_right ?_
      intro member
      obtain ⟨since, noted⟩ := Option.isSome_iff_exists.mp (Std.TreeMap.mem_iff_isSome_getElem?.mp member)
      exact ⟨since, noted, due seq since noted passed owes⟩
    · rw [scan_eq, scanned, negotiated] at below
      rcases foldl_passes steady (toList_small steady) beyond below with
        tracked | ⟨⟨gap, since⟩, member, rfl, listed⟩
      · exact .inl (guards.ahead seq tracked)
      · exact .inr ⟨since, mem_toList_iff.mp member, listed⟩
  refine ⟨⟨?_, ?_⟩, ?_⟩
  · intro seq owes below
    refine (listed seq owes below).imp_right ?_
    rintro ⟨since, noted, recent, -⟩
    exact mem_scan_missing steady few ((scanned_kept steady negotiated noted).mpr recent)
  · intro seq member
    rw [scan_eq] at member
    exact guards.ahead seq (scans.moves.fewer seq member)
  · intro seq owes below
    refine (listed seq owes below).imp_right ?_
    rintro ⟨since, noted, isListed⟩
    exact mem_lostOf_of_listed negotiated noted isListed

end Report

end Creek.Tight
