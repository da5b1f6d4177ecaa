import Creek.Tight.LossTable
import Creek.Proofs.Tight.HandlerFrames

/-! What the tracking of one arrival and the scan of one report do to the cursor, to the sequences
received ahead of it and to the table of missing ones.
-/

namespace Creek.Tight

namespace SequenceTracker

/-- The cursor is a 32-bit sequence, and so is everything received at or beyond it. -/
structure Ahead (tracker : SequenceTracker) : Prop where
  cursor : tracker.nextExpectedSeq < 2 ^ 32
  received : ∀ seq ∈ tracker.recvSeqs, tracker.nextExpectedSeq ≤ seq ∧ seq < 2 ^ 32

/-- The cursor moves over a run of received sequences, up to one that has not been received. -/
structure Advanced (tracker after : SequenceTracker) (run : Nat) : Prop where
  same : after =
    {
      tracker with
      recvSeqs := after.recvSeqs
      nextExpectedSeq := u32 (tracker.nextExpectedSeq + run)
    }
  passed : ∀ offset < run, tracker.nextExpectedSeq + offset ∈ tracker.recvSeqs
  kept : ∀ seq, seq ∈ after.recvSeqs ↔
    seq ∈ tracker.recvSeqs ∧ tracker.nextExpectedSeq + run ≤ seq
  stops : after.nextExpectedSeq ∉ after.recvSeqs

end SequenceTracker

open SequenceTracker

theorem u32_of_lt {value : Nat} (small : value < 2 ^ 32) : u32 value = value := Nat.mod_eq_of_lt small

theorem u32_lt (value : Nat) : u32 value < 2 ^ 32 := Nat.mod_lt _ (by decide)

namespace Reassembler

/-- Enough passes move the cursor over the whole run.
Witness: induction on the passes; a cursor that wraps leaves nothing received behind.
-/
theorem advanceLoop_advanced {fuel : Nat} (tracker : SequenceTracker) (ahead : tracker.Ahead)
    (enough : tracker.recvSeqs.size ≤ fuel)
    : ∃ run, tracker.Advanced (advanceLoop fuel tracker) run := by
  induction fuel generalizing tracker with
  | zero =>
      have empty : tracker.recvSeqs.isEmpty := by
        rw [Std.TreeSet.isEmpty_eq_size_eq_zero]
        simpa using enough
      have none_ := Std.TreeSet.isEmpty_iff_forall_not_mem.mp empty
      refine ⟨0, ⟨?_, nofun, ?_, none_ _⟩⟩
      · rw [advanceLoop, Nat.add_zero, u32_of_lt ahead.cursor]
      · exact fun seq => ⟨fun member => absurd member (none_ seq), And.left⟩
  | succ fuel ih =>
      by_cases expected : tracker.nextExpectedSeq ∈ tracker.recvSeqs
      · obtain ⟨next, eq⟩ : ∃ next : SequenceTracker, next =
            {
              tracker with
              recvSeqs := tracker.recvSeqs.erase tracker.nextExpectedSeq
              nextExpectedSeq := u32 (tracker.nextExpectedSeq + 1)
            } := ⟨_, rfl⟩
        have erased (seq : Nat) : seq ∈ next.recvSeqs ↔
            seq ∈ tracker.recvSeqs ∧ tracker.nextExpectedSeq + 1 ≤ seq := by
          rw [eq, Std.TreeSet.mem_erase, ne_eq, Nat.compare_eq_eq]
          constructor
          · rintro ⟨other, member⟩
            have bound := (ahead.received seq member).1
            exact ⟨member, by omega⟩
          · rintro ⟨member, bound⟩
            exact ⟨by omega, member⟩
        have aheadNext : next.Ahead := by
          constructor
          · rw [eq]
            exact u32_lt _
          · intro seq member
            obtain ⟨before, bound⟩ := (erased seq).mp member
            have small := (ahead.received seq before).2
            rw [eq, u32_of_lt (by omega)]
            exact ⟨bound, small⟩
        obtain ⟨run, moved⟩ := ih next aheadNext (by
          rw [eq]
          show (tracker.recvSeqs.erase tracker.nextExpectedSeq).size ≤ fuel
          rw [Std.TreeSet.size_erase, if_pos (Std.TreeSet.mem_iff_contains.mp expected)]
          omega)
        have loop : advanceLoop (fuel + 1) tracker = advanceLoop fuel next := by
          rw [advanceLoop, if_pos (Std.TreeSet.mem_iff_contains.mp expected), eq]
        -- a cursor at the last sequence wraps to zero, with nothing left to move over
        have whole : tracker.nextExpectedSeq + 1 < 2 ^ 32
            ∨ tracker.nextExpectedSeq + 1 = 2 ^ 32 ∧ run = 0 := by
          rcases Nat.lt_or_ge (tracker.nextExpectedSeq + 1) (2 ^ 32) with small | large
          · exact .inl small
          · have last := ahead.cursor
            refine .inr ⟨by omega, ?_⟩
            rcases Nat.eq_zero_or_pos run with zero | positive
            · exact zero
            · obtain ⟨member, bound⟩ := (erased _).mp (moved.passed 0 positive)
              have small := (ahead.received _ member).2
              omega
        have start : next.nextExpectedSeq = u32 (tracker.nextExpectedSeq + 1) := by rw [eq]
        rw [loop]
        refine ⟨run + 1, ?_, ?_, ?_, moved.stops⟩
        · have target : u32 (next.nextExpectedSeq + run) =
              u32 (tracker.nextExpectedSeq + (run + 1)) := by
            rw [start]
            rcases whole with small | ⟨last, rfl⟩
            · rw [u32_of_lt small, Nat.add_assoc, Nat.add_comm 1 run]
            · rw [Nat.add_zero, Nat.zero_add, last]
              rfl
          rw [moved.same, target, eq]
        · intro offset bound
          rcases offset with - | offset
          · exact expected
          · have small : tracker.nextExpectedSeq + 1 < 2 ^ 32 := by
              rcases whole with small | ⟨-, rfl⟩
              · exact small
              · omega
            have later := ((erased _).mp (moved.passed offset (by omega))).1
            rw [start, u32_of_lt small] at later
            rwa [Nat.add_assoc, Nat.add_comm 1 offset] at later
        · intro seq
          rw [moved.kept seq, erased seq, start, and_assoc]
          refine and_congr_right fun member => ?_
          rcases whole with small | ⟨last, rfl⟩
          · rw [u32_of_lt small]
            omega
          · have bound := (ahead.received seq member).2
            omega
      · have loop : advanceLoop (fuel + 1) tracker = tracker := by
          rw [advanceLoop, if_neg (by rwa [← Std.TreeSet.mem_iff_contains])]
        rw [loop]
        refine ⟨0, ?_, nofun, ?_, expected⟩
        · rw [Nat.add_zero, u32_of_lt ahead.cursor]
        · exact fun seq => ⟨fun member => ⟨member, (ahead.received seq member).1⟩, And.left⟩

theorem advance_advanced {tracker : SequenceTracker} (ahead : tracker.Ahead)
    : ∃ run, tracker.Advanced (advance tracker) run :=
  advanceLoop_advanced tracker ahead (Nat.le_refl _)

end Reassembler

-- The invariants of a tracker

namespace SequenceTracker

variable {tracker after last : SequenceTracker}

/-- A tracker between two calls: the cursor stands at a sequence that has not been received, and
nothing is tracked before the first arrival.
-/
structure Steady (tracker : SequenceTracker) : Prop where
  ahead : tracker.Ahead
  stopped : tracker.nextExpectedSeq ∉ tracker.recvSeqs
  gaps : ∀ gap ∈ tracker.missingSeqs, gap + 1 < 2 ^ 32
  idle : tracker.seqInitialized = false
    → (∀ gap, gap ∉ tracker.missingSeqs) ∧ ∀ seq, seq ∉ tracker.recvSeqs

theorem steady_new : ({} : SequenceTracker).Steady where
  ahead := ⟨by decide, fun seq member => absurd member Std.TreeSet.not_mem_emptyc⟩
  stopped := Std.TreeSet.not_mem_emptyc
  gaps := fun gap member => absurd member Std.TreeMap.not_mem_emptyc
  idle := fun _ => ⟨fun _ => Std.TreeMap.not_mem_emptyc, fun _ => Std.TreeSet.not_mem_emptyc⟩

/-- The cursor moves on, past received sequences and gaps. It wraps only behind the very last
sequence, with nothing left.
-/
structure Moves (tracker after : SequenceTracker) : Prop where
  initialized : after.seqInitialized = tracker.seqInitialized
  fewer : ∀ seq ∈ after.recvSeqs, seq ∈ tracker.recvSeqs
  onward :
    tracker.nextExpectedSeq ≤ after.nextExpectedSeq
      ∧ (∀ seq ∈ tracker.recvSeqs, seq ∈ after.recvSeqs ∨ seq < after.nextExpectedSeq)
    ∨ 2 ^ 32 - 1 ∈ tracker.recvSeqs ∧ ∀ seq, seq ∉ after.recvSeqs

theorem Moves.refl (tracker : SequenceTracker) : Moves tracker tracker :=
  ⟨rfl, fun _ => id, .inl ⟨Nat.le_refl _, fun _ => .inl⟩⟩

theorem Moves.trans (first : Moves tracker after) (second : Moves after last)
    : Moves tracker last where
  initialized := second.initialized.trans first.initialized
  fewer := fun seq member => first.fewer seq (second.fewer seq member)
  onward := by
    rcases first.onward with ⟨forward, kept⟩ | ⟨end_, gone⟩
    · rcases second.onward with ⟨further, keptLater⟩ | ⟨end_, gone⟩
      · refine .inl ⟨Nat.le_trans forward further, fun seq member => ?_⟩
        rcases kept seq member with still | passed
        · exact keptLater seq still
        · exact .inr (Nat.lt_of_lt_of_le passed further)
      · exact .inr ⟨first.fewer _ end_, gone⟩
    · exact .inr ⟨end_, fun seq member => gone seq (second.fewer seq member)⟩

theorem Moves.of_same (initialized : after.seqInitialized = tracker.seqInitialized)
    (received : after.recvSeqs = tracker.recvSeqs)
    (cursor : after.nextExpectedSeq = tracker.nextExpectedSeq)
    : Moves tracker after where
  initialized := initialized
  fewer := fun seq member => by rwa [received] at member
  onward := .inl ⟨Nat.le_of_eq cursor.symm, fun seq member => .inl (by rwa [received])⟩

theorem Advanced.moves {run : Nat} (ahead : tracker.Ahead) (advanced : tracker.Advanced after run)
    : Moves tracker after where
  initialized := by rw [advanced.same]
  fewer := fun seq member => ((advanced.kept seq).mp member).1
  onward := by
    have cursor : after.nextExpectedSeq = u32 (tracker.nextExpectedSeq + run) := by
      rw [advanced.same]
    rcases Nat.lt_or_ge (tracker.nextExpectedSeq + run) (2 ^ 32) with small | large
    · rw [u32_of_lt small] at cursor
      refine .inl ⟨by omega, fun seq member => ?_⟩
      rcases Nat.lt_or_ge seq (tracker.nextExpectedSeq + run) with passed | beyond
      · exact .inr (by omega)
      · exact .inl ((advanced.kept seq).mpr ⟨member, beyond⟩)
    · have start := ahead.cursor
      have last := advanced.passed (run - 1) (by omega)
      have bound := (ahead.received _ last).2
      refine .inr ⟨?_, fun seq member => ?_⟩
      · rwa [show tracker.nextExpectedSeq + (run - 1) = 2 ^ 32 - 1 by omega] at last
      · obtain ⟨member, beyond⟩ := (advanced.kept seq).mp member
        have small := (ahead.received seq member).2
        omega

theorem Advanced.steady {run : Nat} (ahead : tracker.Ahead) (advanced : tracker.Advanced after run)
    (gaps : ∀ gap ∈ tracker.missingSeqs, gap + 1 < 2 ^ 32)
    (initialized : tracker.seqInitialized = true)
    : after.Steady := by
  have cursor : after.nextExpectedSeq = u32 (tracker.nextExpectedSeq + run) := by
    rw [advanced.same]
  constructor
  · refine ⟨by rw [cursor]; exact u32_lt _, fun seq member => ?_⟩
    obtain ⟨member, beyond⟩ := (advanced.kept seq).mp member
    have small := (ahead.received seq member).2
    rw [cursor, u32_of_lt (by omega)]
    exact ⟨beyond, small⟩
  · exact advanced.stops
  · rw [advanced.same]
    exact gaps
  · intro idle
    rw [advanced.same] at idle
    cases initialized.symm.trans idle

end SequenceTracker

-- The tracking of one arrival

namespace Reassembler

variable {tracker : SequenceTracker} {seq : Nat} {now : TimePoint}

/-- The gaps an arrival opens: not received, not noted yet, between the cursor and the arrival. -/
def newGaps (tracker : SequenceTracker) (seq : Nat) : List Nat :=
  (List.range' tracker.nextExpectedSeq (seq - tracker.nextExpectedSeq)).filter fun gap =>
    !tracker.recvSeqs.contains gap && !tracker.missingSeqs.contains gap

theorem mem_foldl_note (gaps : List Nat) (missing : Std.TreeMap Nat TimePoint) {gap : Nat}
    : gap ∈ gaps.foldl
          (fun missing gap =>
            if tracker.recvSeqs.contains gap then missing else missing.insertIfNew gap now)
          missing
      ↔ gap ∈ missing ∨ gap ∈ gaps ∧ gap ∉ tracker.recvSeqs := by
  induction gaps generalizing missing with
  | nil => simp
  | cons first rest ih =>
      rw [List.foldl_cons, ih, List.mem_cons]
      by_cases received : tracker.recvSeqs.contains first = true
      · rw [if_pos received]
        have member := Std.TreeSet.mem_iff_contains.mpr received
        constructor
        · rintro (noted | ⟨later, unreceived⟩)
          · exact .inl noted
          · exact .inr ⟨.inr later, unreceived⟩
        · rintro (noted | ⟨rfl | later, unreceived⟩)
          · exact .inl noted
          · exact absurd member unreceived
          · exact .inr ⟨later, unreceived⟩
      · rw [if_neg received, Std.TreeMap.mem_insertIfNew, Nat.compare_eq_eq]
        have unreceived : first ∉ tracker.recvSeqs := by rwa [Std.TreeSet.mem_iff_contains]
        constructor
        · rintro ((rfl | noted) | ⟨later, absent⟩)
          · exact .inr ⟨.inl rfl, unreceived⟩
          · exact .inl noted
          · exact .inr ⟨.inr later, absent⟩
        · rintro (noted | ⟨rfl | later, absent⟩)
          · exact .inl (.inr noted)
          · exact .inl (.inl rfl)
          · exact .inr ⟨later, absent⟩

theorem mem_noteMissing {gap : Nat}
    : gap ∈ noteMissing tracker seq now
      ↔ gap ∈ tracker.missingSeqs
        ∨ (tracker.nextExpectedSeq ≤ gap ∧ gap < seq) ∧ gap ∉ tracker.recvSeqs := by
  rw [noteMissing, mem_foldl_note, List.mem_range'_1]
  refine or_congr_right (and_congr_left fun _ => ?_)
  omega

/-- Noting distinct gaps adds one entry for each that is new. -/
theorem size_foldl_note (gaps : List Nat) (missing : Std.TreeMap Nat TimePoint)
    (distinct : gaps.Nodup)
    : (gaps.foldl
          (fun missing gap =>
            if tracker.recvSeqs.contains gap then missing else missing.insertIfNew gap now)
          missing).size
      = missing.size
        + (gaps.filter fun gap =>
            !tracker.recvSeqs.contains gap && !missing.contains gap).length := by
  induction gaps generalizing missing with
  | nil => rfl
  | cons first rest ih =>
      obtain ⟨fresh, distinctRest⟩ := List.nodup_cons.mp distinct
      rw [List.foldl_cons, ih _ distinctRest, List.filter_cons]
      by_cases received : tracker.recvSeqs.contains first = true
      · rw [if_pos received, received]
        simp
      · have same : (rest.filter fun gap =>
              !tracker.recvSeqs.contains gap
                && !(missing.insertIfNew first now).contains gap) =
            rest.filter fun gap =>
              !tracker.recvSeqs.contains gap && !missing.contains gap := by
          refine List.filter_congr fun gap member => ?_
          have other : compare first gap ≠ .eq := by
            rw [ne_eq, Nat.compare_eq_eq]
            rintro rfl
            exact fresh member
          rw [Std.TreeMap.contains_insertIfNew, beq_false_of_ne other, Bool.false_or]
        rw [if_neg received, same, Std.TreeMap.size_insertIfNew]
        by_cases noted : missing.contains first = true
        · rw [if_pos (Std.TreeMap.mem_iff_contains.mpr noted), noted]
          simp
        · rw [if_neg (by rwa [Std.TreeMap.mem_iff_contains])]
          simp only [received, noted, Bool.not_false, Bool.and_self, if_true, List.length_cons]
          omega

theorem size_noteMissing
    : (noteMissing tracker seq now).size =
      tracker.missingSeqs.size + (newGaps tracker seq).length :=
  size_foldl_note _ _ (List.nodup_range' ..)

/-- The tracker once an arrival ahead of the cursor is noted, before the cursor moves. -/
def noted (tracker : SequenceTracker) (seq : Nat) (now : TimePoint) : SequenceTracker :=
  {
    tracker with
    missingSeqs := noteMissing tracker seq now
    recvSeqs := tracker.recvSeqs.insert seq
  }

/-- The tracker once an arrival behind the cursor is noted. -/
def filled (tracker : SequenceTracker) (seq : Nat) : SequenceTracker :=
  { tracker with missingSeqs := tracker.missingSeqs.erase seq }

theorem mem_noted {received : Nat}
    : received ∈ (noted tracker seq now).recvSeqs ↔ received = seq ∨ received ∈ tracker.recvSeqs := by
  rw [noted, Std.TreeSet.mem_insert, Nat.compare_eq_eq, eq_comm]

theorem noted_ahead (ahead : tracker.Ahead) (beyond : tracker.nextExpectedSeq ≤ seq)
    (small : seq < 2 ^ 32)
    : (noted tracker seq now).Ahead where
  cursor := ahead.cursor
  received := by
    intro received member
    rcases mem_noted.mp member with rfl | member
    · exact ⟨beyond, small⟩
    · exact ahead.received received member

/-- What the tracking of an arrival leads to: nothing for an unnumbered packet, the start of the
cursor, gaps noted up to a packet ahead, a gap filled by a packet behind.
-/
theorem trackSequence_cases (tracker : SequenceTracker) (seq : Nat) (now : TimePoint)
    : seq = 0 ∧ trackSequence tracker seq now = tracker
      ∨ tracker.seqInitialized = false ∧ seq ≠ 0
        ∧ trackSequence tracker seq now =
          { tracker with nextExpectedSeq := u32 (seq + 1), seqInitialized := true }
      ∨ tracker.seqInitialized = true ∧ seq ≠ 0 ∧ tracker.nextExpectedSeq ≤ seq
        ∧ trackSequence tracker seq now = advance (noted tracker seq now)
      ∨ tracker.seqInitialized = true ∧ seq ≠ 0 ∧ seq < tracker.nextExpectedSeq
        ∧ trackSequence tracker seq now = advance (filled tracker seq) := by
  rw [trackSequence]
  by_cases unnumbered : seq = 0
  · exact .inl ⟨unnumbered, if_pos unnumbered⟩
  rw [if_neg unnumbered]
  by_cases initialized : tracker.seqInitialized = true
  · rw [if_neg (not_not_intro initialized)]
    rcases Nat.lt_or_ge seq tracker.nextExpectedSeq with behind | beyond
    · exact .inr (.inr (.inr ⟨initialized, unnumbered, behind, if_neg (Nat.not_le.mpr behind)⟩))
    · exact .inr (.inr (.inl ⟨initialized, unnumbered, beyond, if_pos beyond⟩))
  · rw [if_pos initialized]
    exact .inr (.inl ⟨by simpa using initialized, unnumbered, rfl⟩)

theorem trackSequence_steady (steady : tracker.Steady) (small : seq < 2 ^ 32)
    : (trackSequence tracker seq now).Steady := by
  rcases trackSequence_cases tracker seq now with
    ⟨-, eq⟩ | ⟨uninitialized, -, eq⟩ | ⟨initialized, -, beyond, eq⟩ | ⟨initialized, -, -, eq⟩
  · rw [eq]
    exact steady
  · rw [eq]
    obtain ⟨nothing, none_⟩ := steady.idle uninitialized
    exact ⟨⟨u32_lt _, fun received member => absurd member (none_ _)⟩, none_ _,
      fun gap member => absurd member (nothing gap), nofun⟩
  · rw [eq]
    have ahead : (noted tracker seq now).Ahead := noted_ahead steady.ahead beyond small
    obtain ⟨run, advanced⟩ := advance_advanced ahead
    refine advanced.steady ahead ?_ initialized
    intro gap member
    rcases mem_noteMissing.mp member with before | ⟨⟨-, below⟩, -⟩
    · exact steady.gaps gap before
    · omega
  · rw [eq]
    have ahead : (filled tracker seq).Ahead := ⟨steady.ahead.cursor, steady.ahead.received⟩
    obtain ⟨run, advanced⟩ := advance_advanced ahead
    refine advanced.steady ahead ?_ initialized
    exact fun gap member => steady.gaps gap (Std.TreeMap.mem_of_mem_erase member)

@[simp] theorem advance_missing (tracker : SequenceTracker)
    : (advance tracker).missingSeqs = tracker.missingSeqs := by
  have loop (fuel : Nat) (tracker : SequenceTracker)
      : (advanceLoop fuel tracker).missingSeqs = tracker.missingSeqs := by
    induction fuel generalizing tracker with
    | zero => rfl
    | succ fuel ih =>
        rw [advanceLoop]
        split
        · rw [ih]
        · rfl
  exact loop _ tracker

end Reassembler

-- The scan of one report

namespace Report

variable {tracker : SequenceTracker} {negotiated : Bool} {giveUp threshold : Int} {now : TimePoint}

/-- What skipping a gap does: the cursor moves past the gap, if it stands there. -/
structure Skips (tracker after : SequenceTracker) (gap : Nat) : Prop where
  steady : after.Steady
  moves : Moves tracker after
  missing : after.missingSeqs = tracker.missingSeqs
  passes : tracker.seqInitialized = true → gap = tracker.nextExpectedSeq
    → gap < after.nextExpectedSeq ∨ ∀ seq, seq ∉ after.recvSeqs
  stays : gap ≠ tracker.nextExpectedSeq → after = tracker

/-- The cursor steps past the gap it stands at. -/
theorem exists_stepped (steady : tracker.Steady) (small : tracker.nextExpectedSeq + 1 < 2 ^ 32)
    : ∃ next : SequenceTracker,
      next = { tracker with nextExpectedSeq := u32 (tracker.nextExpectedSeq + 1) }
      ∧ next.nextExpectedSeq = tracker.nextExpectedSeq + 1 ∧ next.recvSeqs = tracker.recvSeqs
      ∧ next.Ahead := by
  have cursor : u32 (tracker.nextExpectedSeq + 1) = tracker.nextExpectedSeq + 1 := u32_of_lt small
  refine ⟨_, rfl, cursor, rfl, cursor.symm ▸ small, fun seq member => ?_⟩
  obtain ⟨bound, top⟩ := steady.ahead.received seq member
  have other : seq ≠ tracker.nextExpectedSeq := fun same => steady.stopped (same ▸ member)
  exact ⟨by change u32 (tracker.nextExpectedSeq + 1) ≤ seq; omega, top⟩

theorem skipGap_skips {gap : Nat} (steady : tracker.Steady) (small : gap + 1 < 2 ^ 32)
    : Skips tracker (skipGap tracker gap) gap := by
  rw [skipGap]
  split
  · rename_i stands
    obtain ⟨initialized, rfl⟩ := stands
    obtain ⟨next, eq, cursor, received, ahead⟩ := exists_stepped steady small
    have initializedNext : next.seqInitialized = true := by rw [eq]; exact initialized
    obtain ⟨run, advanced⟩ := Reassembler.advance_advanced ahead
    have moves := advanced.moves ahead
    rw [← eq]
    refine ⟨advanced.steady ahead (by rw [eq]; exact steady.gaps) initializedNext, ?_, ?_, ?_,
      fun other => absurd rfl other⟩
    · refine Moves.trans ?_ moves
      refine ⟨by rw [eq], fun seq member => by rwa [received] at member, .inl ⟨by omega, ?_⟩⟩
      exact fun seq member => .inl (by rwa [received])
    · rw [Reassembler.advance_missing, eq]
    · intro _ _
      rcases moves.onward with ⟨forward, -⟩ | ⟨-, gone⟩
      · exact .inl (by omega)
      · exact .inr gone
  · rename_i elsewhere
    exact ⟨steady, .refl tracker, rfl, fun initialized same => absurd ⟨initialized, same⟩ elsewhere,
      fun _ => rfl⟩

/-- A tracker without one entry of its missing table. -/
def forgotten (tracker : SequenceTracker) (gap : Nat) : SequenceTracker :=
  { tracker with missingSeqs := tracker.missingSeqs.erase gap }

theorem mem_forgotten {gap other : Nat}
    : other ∈ (forgotten tracker gap).missingSeqs ↔ other ≠ gap ∧ other ∈ tracker.missingSeqs := by
  rw [forgotten, Std.TreeMap.mem_erase, ne_eq, Nat.compare_eq_eq, ne_eq, eq_comm]

theorem forgotten_steady (steady : tracker.Steady) (gap : Nat) : (forgotten tracker gap).Steady where
  ahead := ⟨steady.ahead.cursor, steady.ahead.received⟩
  stopped := steady.stopped
  gaps := fun other member => steady.gaps other (mem_forgotten.mp member).2
  idle := fun idle =>
    ⟨fun other member => (steady.idle idle).1 other (mem_forgotten.mp member).2,
      (steady.idle idle).2⟩

/-- What becomes of one entry: skipped and forgotten, given up, skipped and listed, or left. -/
theorem scanGap_cases (negotiated : Bool) (giveUp threshold : Int) (now : TimePoint)
    (tracker : SequenceTracker) (lost : List Nat) (gap : Nat) (since : TimePoint)
    : negotiated = false
        ∧ scanGap negotiated giveUp threshold now (tracker, lost) (gap, since) =
          (forgotten (skipGap tracker gap) gap, lost)
      ∨ negotiated = true ∧ microseconds (now - since) > giveUp
        ∧ scanGap negotiated giveUp threshold now (tracker, lost) (gap, since) =
          (forgotten tracker gap, lost)
      ∨ negotiated = true ∧ microseconds (now - since) ≤ giveUp
        ∧ threshold < microseconds (now - since)
        ∧ scanGap negotiated giveUp threshold now (tracker, lost) (gap, since) =
          (skipGap tracker gap, lost ++ [gap])
      ∨ negotiated = true ∧ microseconds (now - since) ≤ giveUp
        ∧ microseconds (now - since) ≤ threshold
        ∧ scanGap negotiated giveUp threshold now (tracker, lost) (gap, since) =
          (tracker, lost) := by
  simp only [scanGap]
  by_cases retransmits : negotiated = true
  · rw [if_neg (not_not_intro retransmits)]
    by_cases old : microseconds (now - since) > giveUp
    · exact .inr (.inl ⟨retransmits, old, if_pos old⟩)
    · rw [if_neg old]
      by_cases due : microseconds (now - since) > threshold
      · exact .inr (.inr (.inl ⟨retransmits, Int.not_lt.mp old, due, if_pos due⟩))
      · exact .inr (.inr (.inr ⟨retransmits, Int.not_lt.mp old, Int.not_lt.mp due, if_neg due⟩))
  · exact .inl ⟨by simpa using retransmits, if_pos retransmits⟩

/-- What a scan does: the cursor moves on and entries are forgotten. -/
structure Scans (tracker after : SequenceTracker) : Prop where
  steady : after.Steady
  moves : Moves tracker after
  fewer : ∀ gap ∈ after.missingSeqs, gap ∈ tracker.missingSeqs

theorem Scans.refl (steady : tracker.Steady) : Scans tracker tracker :=
  ⟨steady, .refl tracker, fun _ => id⟩

theorem Scans.trans {after last : SequenceTracker} (first : Scans tracker after)
    (second : Scans after last)
    : Scans tracker last :=
  ⟨second.steady, first.moves.trans second.moves,
    fun gap member => first.fewer gap (second.fewer gap member)⟩

theorem Skips.scans {after : SequenceTracker} {gap : Nat} (skips : Skips tracker after gap)
    : Scans tracker after :=
  ⟨skips.steady, skips.moves, fun _ member => by rwa [skips.missing] at member⟩

theorem forgotten_scans (steady : tracker.Steady) (gap : Nat)
    : Scans tracker (forgotten tracker gap) :=
  ⟨forgotten_steady steady gap, .of_same rfl rfl rfl, fun _ member => (mem_forgotten.mp member).2⟩

theorem scanGap_scans {lost : List Nat} {gap : Nat} {since : TimePoint} (steady : tracker.Steady)
    (small : gap + 1 < 2 ^ 32)
    : Scans tracker (scanGap negotiated giveUp threshold now (tracker, lost) (gap, since)).1 := by
  have skips := skipGap_skips steady small
  rcases scanGap_cases negotiated giveUp threshold now tracker lost gap since with
    ⟨-, eq⟩ | ⟨-, -, eq⟩ | ⟨-, -, -, eq⟩ | ⟨-, -, -, eq⟩ <;> rw [eq]
  · exact skips.scans.trans (forgotten_scans skips.steady gap)
  · exact forgotten_scans steady gap
  · exact skips.scans
  · exact .refl steady

/-- The entries of a missing table; only entries of it are listed. -/
theorem foldl_scans {entries : List (Nat × TimePoint)} {lost : List Nat} (steady : tracker.Steady)
    (small : ∀ entry ∈ entries, entry.1 + 1 < 2 ^ 32)
    : Scans tracker
        (entries.foldl (scanGap negotiated giveUp threshold now) (tracker, lost)).1
      ∧ ∀ gap ∈ (entries.foldl (scanGap negotiated giveUp threshold now) (tracker, lost)).2,
        gap ∈ lost ∨ gap ∈ entries.map Prod.fst := by
  induction entries generalizing tracker lost with
  | nil => exact ⟨.refl steady, fun _ => .inl⟩
  | cons entry rest ih =>
      obtain ⟨gap, since⟩ := entry
      have first := @scanGap_scans tracker negotiated giveUp threshold now lost gap since steady
        (small _ List.mem_cons_self)
      have listed : ∀ other ∈
          (scanGap negotiated giveUp threshold now (tracker, lost) (gap, since)).2,
          other ∈ lost ∨ other = gap := by
        rcases scanGap_cases negotiated giveUp threshold now tracker lost gap since with
          ⟨-, eq⟩ | ⟨-, -, eq⟩ | ⟨-, -, -, eq⟩ | ⟨-, -, -, eq⟩ <;> rw [eq]
        · exact fun _ => .inl
        · exact fun _ => .inl
        · intro other member
          exact (List.mem_append.mp member).imp id List.mem_singleton.mp
        · exact fun _ => .inl
      obtain ⟨later, listedLater⟩ := @ih
        (scanGap negotiated giveUp threshold now (tracker, lost) (gap, since)).1
        (scanGap negotiated giveUp threshold now (tracker, lost) (gap, since)).2 first.steady
        fun entry member => small entry (List.mem_cons_of_mem _ member)
      rw [List.foldl_cons]
      refine ⟨first.trans later, fun other member => ?_⟩
      rcases listedLater other member with before | rest
      · rcases listed other before with earlier | rfl
        · exact .inl earlier
        · exact .inr List.mem_cons_self
      · exact .inr (List.mem_cons_of_mem _ rest)

theorem capMissing_subset {fuel : Nat} {missing : Std.TreeMap Nat TimePoint} {gap : Nat}
    (member : gap ∈ capMissing fuel missing)
    : gap ∈ missing := by
  induction fuel generalizing missing with
  | zero => exact member
  | succ fuel ih =>
      rw [capMissing] at member
      split at member
      · exact Std.TreeMap.mem_of_mem_erase (ih member)
      · exact member

/-- Enough passes drop the least entries until the table fits. -/
theorem capMissing_fits {fuel : Nat} {missing : Std.TreeMap Nat TimePoint}
    (enough : missing.size ≤ fuel)
    : (capMissing fuel missing).size ≤ kMaxMissing := by
  induction fuel generalizing missing with
  | zero => exact Nat.le_trans enough (Nat.zero_le _)
  | succ fuel ih =>
      rw [capMissing]
      split
      · rename_i exceeds
        have present : missing.minKeyD 0 ∈ missing := by
          refine Std.TreeMap.minKeyD_mem ?_
          rw [Std.TreeMap.isEmpty_eq_size_eq_zero, beq_eq_false_iff_ne]
          omega
        refine ih ?_
        rw [Std.TreeMap.size_erase, if_pos (Std.TreeMap.mem_iff_contains.mp present)]
        omega
      · rename_i within
        exact Nat.not_lt.mp within

/-- The tracker before the missing table is cut. -/
def scanned (peer : Peer) (reportInterval : Int) (now : TimePoint) : SequenceTracker × List Nat :=
  peer.tracker.missingSeqs.toList.foldl
    (scanGap (peer.retransmit && peer.peerRetransmit) (giveUpUs reportInterval)
      (lossThreshold peer.senderRttUs) now)
    (peer.tracker, [])

theorem scan_eq (peer : Peer) (reportInterval : Int) (now : TimePoint)
    : scan peer reportInterval now =
      (
        {
          (scanned peer reportInterval now).1 with
          missingSeqs :=
            capMissing (scanned peer reportInterval now).1.missingSeqs.size
              (scanned peer reportInterval now).1.missingSeqs
        },
        (scanned peer reportInterval now).2
      ) := rfl

theorem scanned_scans {peer : Peer} (steady : peer.tracker.Steady) (reportInterval : Int)
    (now : TimePoint)
    : Scans peer.tracker (scanned peer reportInterval now).1
      ∧ ∀ gap ∈ (scanned peer reportInterval now).2, gap ∈ peer.tracker.missingSeqs := by
  have keys {entry : Nat × TimePoint} (member : entry ∈ peer.tracker.missingSeqs.toList)
      : entry.1 ∈ peer.tracker.missingSeqs := by
    rw [← Std.TreeMap.mem_keys, ← Std.TreeMap.map_fst_toList_eq_keys]
    exact List.mem_map_of_mem member
  obtain ⟨scans, listed⟩ := @foldl_scans peer.tracker (peer.retransmit && peer.peerRetransmit)
    (giveUpUs reportInterval) (lossThreshold peer.senderRttUs) now
    peer.tracker.missingSeqs.toList [] steady fun entry member => steady.gaps _ (keys member)
  refine ⟨scans, fun gap member => ?_⟩
  rcases listed gap member with none_ | found
  · cases none_
  · rwa [Std.TreeMap.map_fst_toList_eq_keys, Std.TreeMap.mem_keys] at found

/-- A report moves the cursor on, forgets entries and lists entries only. -/
theorem scan_scans {peer : Peer} (steady : peer.tracker.Steady) (reportInterval : Int)
    (now : TimePoint)
    : Scans peer.tracker (scan peer reportInterval now).1
      ∧ ∀ gap ∈ (scan peer reportInterval now).2, gap ∈ peer.tracker.missingSeqs := by
  obtain ⟨scans, listed⟩ := scanned_scans steady reportInterval now
  rw [scan_eq]
  refine ⟨⟨⟨?_, scans.steady.stopped, ?_, ?_⟩, ?_, ?_⟩, listed⟩
  · exact ⟨scans.steady.ahead.cursor, scans.steady.ahead.received⟩
  · exact fun gap member => scans.steady.gaps gap (capMissing_subset member)
  · intro idle
    obtain ⟨nothing, none_⟩ := scans.steady.idle idle
    exact ⟨fun gap member => nothing gap (capMissing_subset member), none_⟩
  · exact scans.moves.trans (.of_same rfl rfl rfl)
  · exact fun gap member => scans.fewer gap (capMissing_subset member)

end Report

end Creek.Tight
