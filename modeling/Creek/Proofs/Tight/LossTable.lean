import Creek.Proofs.Tight.GapTracking

/-! The loss table over whole runs. A received packet stays listed when it fills a gap the cursor has
not passed yet, and one packet far ahead opens more gaps than a report would leave.
-/

namespace Creek.Tight

open Library Link Reassembler SequenceTracker

variable {numerics : Numerics} {start last peer after : Peer} {event : LossEvent}
  {outputs : List Nat} {history : List LossStage}

-- What one event does to the tracker

namespace LossTable

/-- The tracker after one event, and what a report puts out. -/
theorem step_tracker (taken : step numerics peer event = .ok (after, outputs))
    : match event with
      | .data header _ context =>
          after.tracker = trackSequence peer.tracker header.sequence.toNat context.now
            ∧ outputs = []
      | .report reportInterval now =>
          after.tracker = (Report.scan peer reportInterval now).1
            ∧ outputs = listed peer reportInterval now
      | .tune .. => after.tracker = peer.tracker ∧ outputs = [] := by
  cases event with
  | data header payload context =>
      rw [step] at taken
      rcases handled : handleData numerics peer header payload context with fault | ⟨next, delivered⟩
      · rw [handled] at taken
        cases taken
      · rw [handled] at taken
        cases taken
        obtain ⟨late, collection, rfl⟩ := reassemblerHandleData_peer handled
        exact ⟨rfl, rfl⟩
  | report reportInterval now =>
      cases taken
      exact ⟨rfl, rfl⟩
  | tune retransmit peerRetransmit senderRttUs =>
      cases taken
      exact ⟨rfl, rfl⟩

theorem step_steady (steady : peer.tracker.Steady)
    (taken : step numerics peer event = .ok (after, outputs))
    : after.tracker.Steady := by
  have moved := step_tracker taken
  cases event with
  | data header payload context =>
      rw [moved.1]
      exact trackSequence_steady steady header.sequence.toNat_lt
  | report reportInterval now =>
      rw [moved.1]
      exact (Report.scan_scans steady reportInterval now).1.steady
  | tune retransmit peerRetransmit senderRttUs => rwa [moved.1]

/-- The tracker is steady in every run, by induction on its steps. -/
theorem run_steady {allowed : List LossStage → Peer → LossEvent → Prop} (fresh : start.tracker = {})
    (run : Run (step numerics) allowed start history last)
    : last.tracker.Steady :=
  run.invariant (fun _ peer => peer.tracker.Steady) (by rw [fresh]; exact steady_new)
    fun _ _ _ _ _ _ steady _ taken => step_steady steady taken

theorem step_outputs (steady : peer.tracker.Steady)
    (taken : step numerics peer event = .ok (after, outputs)) {seq : Nat}
    (member : seq ∈ outputs)
    : seq ∈ peer.tracker.missingSeqs := by
  have moved := step_tracker taken
  cases event with
  | data header payload context =>
      rw [moved.2] at member
      cases member
  | report reportInterval now =>
      rw [moved.2] at member
      exact (Report.scan_scans steady reportInterval now).2 seq (List.mem_of_mem_take member)
  | tune retransmit peerRetransmit senderRttUs =>
      rw [moved.2] at member
      cases member

end LossTable

-- The size of the table

/-- A packet ahead of the cursor opens more gaps than fit with those the table has. -/
def Overflows (stage : LossStage) : Prop :=
  ∃ seq, stage.event.number = some seq
    ∧ stage.before.tracker.seqInitialized = true
    ∧ stage.before.tracker.nextExpectedSeq ≤ seq
    ∧ Report.kMaxMissing
      < stage.before.tracker.missingSeqs.size + (newGaps stage.before.tracker seq).length

/-- The table of a peer is within the cap of the report builder. -/
def WithinCap (peer : Peer) : Prop := peer.tracker.missingSeqs.size ≤ Report.kMaxMissing

namespace LossTable

/-- A table within the cap stays within it exactly when no packet overflows it. -/
theorem step_withinCap_iff (within : WithinCap peer)
    (taken : step numerics peer event = .ok (after, outputs))
    : WithinCap after ↔ ¬Overflows { before := peer, event := event, outputs := outputs } := by
  have moved := step_tracker taken
  cases event with
  | data header payload context =>
      have number : (LossEvent.data header payload context).number =
          if header.sequence.toNat = 0 then none else some header.sequence.toNat := rfl
      rw [WithinCap, moved.1]
      rcases trackSequence_cases peer.tracker header.sequence.toNat context.now with
        ⟨unnumbered, eq⟩ | ⟨uninitialized, -, eq⟩ | ⟨initialized, numbered, beyond, eq⟩
          | ⟨-, numbered, behind, eq⟩
      · rw [eq]
        refine iff_of_true within ?_
        rintro ⟨seq, same, -⟩
        rw [number, if_pos unnumbered] at same
        cases same
      · rw [eq]
        refine iff_of_true within ?_
        rintro ⟨seq, -, initialized, -⟩
        cases uninitialized.symm.trans initialized
      · rw [if_neg numbered] at number
        rw [eq, advance_missing, noted, size_noteMissing]
        constructor
        · rintro fits ⟨seq, same, -, -, exceeds⟩
          obtain rfl := Option.some.inj (number.symm.trans same)
          exact Nat.not_lt.mpr fits exceeds
        · intro none_
          refine Nat.not_lt.mp fun exceeds => none_ ?_
          exact ⟨_, number, initialized, beyond, exceeds⟩
      · rw [if_neg numbered] at number
        rw [eq, advance_missing, filled]
        refine iff_of_true (Nat.le_trans Std.TreeMap.size_erase_le within) ?_
        rintro ⟨seq, same, -, beyond, -⟩
        obtain rfl := Option.some.inj (number.symm.trans same)
        exact Nat.not_lt.mpr beyond behind
  | report reportInterval now =>
      rw [WithinCap, moved.1, Report.scan_eq]
      refine iff_of_true (Report.capMissing_fits (Nat.le_refl _)) ?_
      rintro ⟨seq, same, -⟩
      cases same
  | tune retransmit peerRetransmit senderRttUs =>
      rw [WithinCap, moved.1]
      refine iff_of_true within ?_
      rintro ⟨seq, same, -⟩
      cases same

/-- In every run the table stays within the cap exactly as long as no packet overflows it. -/
theorem bounded_iff (fresh : start.tracker = {})
    (run : Run (step numerics) (fun _ _ _ => True) start history last)
    : Throughout (fun _ peer => WithinCap peer) history last
      ↔ ∀ stage ∈ history, ¬Overflows stage := by
  refine run.throughout_iff ?_ fun _ _ _ _ _ _ within _ taken => step_withinCap_iff within taken
  rw [WithinCap, fresh]
  decide

/-- A data packet that is a message of its own. -/
def arrival (sequence : UInt32) (now : TimePoint) : LossEvent :=
  .data
    {
      type := PacketType.data.code
      flags := 1
      sequence := sequence
      messageId := sequence
      fragmentCount := 2
      reserved := 5
    }
    [0, 0, 0, 1, 7]
    { now := now, arrivalMs := 0, rttUs := 0, maxMessageBytes := 1000 }

/-- Packets 1 and 4 arrive, and a report is built 51 ms later. -/
def gapReported : List LossEvent := [arrival 1 0, arrival 4 0, .report 1000000000 51000000]

/-- A check that implies `NoWrap`. -/
def isSmall : LossEvent → Bool
  | .data header _ _ => decide (header.sequence.toNat + 1 < 2 ^ 32)
  | _ => true

theorem gapReported_run
    : ∃ history last, Run (step default) (fun _ _ _ => True) {} history last
      ∧ history.map Stage.outputs = [[], [], [2, 3]]
      ∧ audit (fun _ _ event => isSmall event) [] history = true := by
  have shown : shows (step default) {} gapReported (fun history =>
      decide (history.map Stage.outputs = [[], [], [2, 3]])
        && audit (fun _ _ event => isSmall event) [] history) = true := by
    decide +kernel
  obtain ⟨history, last, run, passes⟩ := Run.of_shows shown
  rw [Bool.and_eq_true, decide_eq_true_eq] at passes
  exact ⟨history, last, run, passes⟩

theorem bounded_iff_gapReported
    : ∃ history last, history.map Stage.outputs = [[], [], [2, 3]]
      ∧ (Throughout (fun _ peer => WithinCap peer) history last
        ↔ ∀ stage ∈ history, ¬Overflows stage) := by
  obtain ⟨history, last, run, listed, -⟩ := gapReported_run
  exact ⟨history, last, listed, bounded_iff rfl run⟩

/-- Packets 1 and 5000 open 4998 gaps. -/
theorem flooded
    : ∃ history last, Run (step default) (fun _ _ _ => True) {} history last
      ∧ ¬Throughout (fun _ peer => WithinCap peer) history last := by
  obtain ⟨before, after, history, outputs, run, tracker, taken⟩
      : ∃ before after history outputs,
        Run (step default) (fun _ _ _ => True) {} history before
        ∧ before.tracker = { nextExpectedSeq := 2, seqInitialized := true }
        ∧ step default before (arrival 5000 0) = .ok (after, outputs) :=
    ⟨_, _, _, _, .next .start trivial (rfl : step default {} (arrival 1 0) = .ok (_, _)),
      rfl, rfl⟩
  refine ⟨_, _, .next run trivial taken, fun within => ?_⟩
  have fits : WithinCap before := by
    rw [WithinCap, tracker]
    decide
  refine (step_withinCap_iff fits taken).mp within.2 ⟨5000, rfl, ?_, ?_, ?_⟩ <;> rw [tracker]
  · exact (by decide : 2 ≤ 5000)
  · have all : newGaps { nextExpectedSeq := 2, seqInitialized := true } 5000 =
        List.range' 2 4998 :=
      List.filter_eq_self.mpr fun _ _ => rfl
    rw [all, List.length_range']
    decide

end LossTable

-- Received packets in the table

/-- No packet carries the last sequence, behind which the cursor would wrap. -/
def NoWrap (_ : List LossStage) (_ : Peer) : LossEvent → Prop
  | .data header _ _ => header.sequence.toNat + 1 < 2 ^ 32
  | _ => True

/-- No received packet is in the table. -/
def Unlisted (history : List LossStage) (peer : Peer) : Prop :=
  ∀ seq ∈ receivedIn history, seq ∉ peer.tracker.missingSeqs

/-- A packet arrives for a gap in the table while the cursor still stands at it or before it. -/
def Fills (stage : LossStage) : Prop :=
  ∃ seq, stage.event.number = some seq
    ∧ stage.before.tracker.nextExpectedSeq ≤ seq
    ∧ seq ∈ stage.before.tracker.missingSeqs

theorem mem_receivedIn_append {stage : LossStage} {seq : Nat}
    : seq ∈ receivedIn (history ++ [stage])
      ↔ seq ∈ receivedIn history ∨ stage.event.number = some seq := by
  rw [receivedIn, List.filterMap_append, List.mem_append, ← receivedIn]
  refine or_congr_right ?_
  rw [List.mem_filterMap]
  constructor
  · rintro ⟨other, member, number⟩
    rwa [List.mem_singleton.mp member] at number
  · exact fun number => ⟨stage, List.mem_singleton.mpr rfl, number⟩

/-- Everything received is behind the cursor or tracked ahead of it. -/
structure Accounted (history : List LossStage) (tracker : SequenceTracker) : Prop where
  bounded : ∀ seq ∈ tracker.recvSeqs, seq + 1 < 2 ^ 32
  idle : tracker.seqInitialized = false → receivedIn history = []
  tracked : ∀ seq ∈ receivedIn history, seq < tracker.nextExpectedSeq ∨ seq ∈ tracker.recvSeqs

theorem Accounted.moves {tracker next : SequenceTracker} (accounted : Accounted history tracker)
    (moves : Moves tracker next)
    : Accounted history next where
  bounded := fun seq member => accounted.bounded seq (moves.fewer seq member)
  idle := fun idle => accounted.idle (moves.initialized.symm.trans idle)
  tracked := by
    rcases moves.onward with ⟨forward, kept⟩ | ⟨end_, -⟩
    · intro seq member
      rcases accounted.tracked seq member with behind | ahead
      · exact .inl (Nat.lt_of_lt_of_le behind forward)
      · exact (kept seq ahead).symm
    · have bound := accounted.bounded _ end_
      omega

/-- An event without a number adds nothing to what has been received. -/
theorem Accounted.unnumbered {tracker : SequenceTracker} {stage : LossStage}
    (accounted : Accounted history tracker) (none_ : stage.event.number = none)
    : Accounted (history ++ [stage]) tracker := by
  have nothing : [stage].filterMap (fun stage => stage.event.number) = [] :=
    List.filterMap_cons_none none_
  have same : receivedIn (history ++ [stage]) = receivedIn history := by
    rw [receivedIn, List.filterMap_append, nothing, List.append_nil, ← receivedIn]
  exact ⟨accounted.bounded, fun idle => same.trans (accounted.idle idle),
    fun seq member => accounted.tracked seq (same ▸ member)⟩

namespace LossTable

theorem step_accounted (steady : peer.tracker.Steady)
    (accounted : Accounted history peer.tracker) (small : NoWrap history peer event)
    (taken : step numerics peer event = .ok (after, outputs))
    : Accounted (history ++ [{ before := peer, event := event, outputs := outputs }])
        after.tracker := by
  have moved := step_tracker taken
  cases event with
  | data header payload context =>
      have number : (LossEvent.data header payload context).number =
          if header.sequence.toNat = 0 then none else some header.sequence.toNat := rfl
      have received (numbered : header.sequence.toNat ≠ 0) {seq : Nat} :
          seq ∈ receivedIn (history
              ++ [{ before := peer, event := .data header payload context, outputs := outputs }])
            ↔ seq ∈ receivedIn history ∨ seq = header.sequence.toNat := by
        rw [mem_receivedIn_append, number, if_neg numbered, Option.some.injEq, eq_comm (b := seq)]
      rw [moved.1]
      rcases trackSequence_cases peer.tracker header.sequence.toNat context.now with
        ⟨unnumbered, eq⟩ | ⟨uninitialized, numbered, eq⟩ | ⟨initialized, numbered, beyond, eq⟩
          | ⟨initialized, numbered, behind, eq⟩ <;> rw [eq]
      · exact accounted.unnumbered (by rw [number, if_pos unnumbered])
      · refine ⟨accounted.bounded, nofun, fun seq member => .inl ?_⟩
        rcases (received numbered).mp member with earlier | rfl
        · rw [accounted.idle uninitialized] at earlier
          cases earlier
        · show header.sequence.toNat < u32 (header.sequence.toNat + 1)
          rw [u32_of_lt small]
          exact Nat.lt_succ_self _
      · have ahead := @noted_ahead _ _ context.now steady.ahead beyond header.sequence.toNat_lt
        obtain ⟨run, advanced⟩ := advance_advanced ahead
        refine Accounted.moves ⟨?_, ?_, ?_⟩ (advanced.moves ahead)
        · intro seq member
          rcases mem_noted.mp member with rfl | member
          · exact small
          · exact accounted.bounded seq member
        · exact fun idle => nomatch initialized.symm.trans idle
        · intro seq member
          rcases (received numbered).mp member with earlier | rfl
          · exact (accounted.tracked seq earlier).imp_right fun kept => mem_noted.mpr (.inr kept)
          · exact .inr (mem_noted.mpr (.inl rfl))
      · have ahead : (filled peer.tracker header.sequence.toNat).Ahead :=
          ⟨steady.ahead.cursor, steady.ahead.received⟩
        obtain ⟨run, advanced⟩ := advance_advanced ahead
        suffices filled_ : Accounted (history
            ++ [{ before := peer, event := .data header payload context, outputs := outputs }])
            (filled peer.tracker header.sequence.toNat) from filled_.moves (advanced.moves ahead)
        refine ⟨accounted.bounded, ?_, ?_⟩
        · exact fun idle => nomatch initialized.symm.trans idle
        · intro seq member
          rcases (received numbered).mp member with earlier | rfl
          · exact accounted.tracked seq earlier
          · exact .inl behind
  | report reportInterval now =>
      rw [moved.1]
      exact (accounted.moves (Report.scan_scans steady reportInterval now).1.moves).unnumbered rfl
  | tune retransmit peerRetransmit senderRttUs =>
      rw [moved.1]
      exact accounted.unnumbered rfl

/-- Every run keeps account of what it has received, by induction on its steps. -/
theorem run_accounted (fresh : start.tracker = {})
    (run : Run (step numerics) NoWrap start history last)
    : Accounted history last.tracker := by
  refine run.invariant (fun history peer => Accounted history peer.tracker) ?_
    fun _ _ _ _ _ run accounted small taken =>
      step_accounted (run_steady fresh run) accounted small taken
  rw [fresh]
  exact ⟨fun _ member => absurd member Std.TreeSet.not_mem_emptyc, fun _ => rfl, nofun⟩

/-- A table without received packets stays so exactly when no packet fills a gap ahead of the cursor.
-/
theorem step_unlisted_iff (accounted : Accounted history peer.tracker)
    (unlisted : Unlisted history peer) (steady : peer.tracker.Steady)
    (taken : step numerics peer event = .ok (after, outputs))
    : Unlisted (history ++ [{ before := peer, event := event, outputs := outputs }]) after
      ↔ ¬Fills { before := peer, event := event, outputs := outputs } := by
  have moved := step_tracker taken
  have unnumbered (none_ : event.number = none)
      (fewer : ∀ gap ∈ after.tracker.missingSeqs, gap ∈ peer.tracker.missingSeqs)
      : Unlisted (history ++ [{ before := peer, event := event, outputs := outputs }]) after
        ↔ ¬Fills { before := peer, event := event, outputs := outputs } := by
    refine iff_of_true ?_ ?_
    · intro seq member noted
      rcases mem_receivedIn_append.mp member with earlier | number
      · exact unlisted seq earlier (fewer seq noted)
      · cases none_.symm.trans number
    · rintro ⟨seq, number, -⟩
      cases none_.symm.trans number
  cases event with
  | data header payload context =>
      have number : (LossEvent.data header payload context).number =
          if header.sequence.toNat = 0 then none else some header.sequence.toNat := rfl
      have tracked := moved.1
      rcases trackSequence_cases peer.tracker header.sequence.toNat context.now with
        ⟨zero, eq⟩ | ⟨uninitialized, numbered, eq⟩ | ⟨initialized, numbered, beyond, eq⟩
          | ⟨initialized, numbered, behind, eq⟩ <;> rw [eq] at tracked
      · exact unnumbered (by rw [number, if_pos zero]) fun gap member => by rwa [tracked] at member
      · have nothing := (steady.idle uninitialized).1
        refine iff_of_true ?_ ?_
        · intro seq _ noted
          rw [tracked] at noted
          exact nothing seq noted
        · rintro ⟨seq, -, -, noted⟩
          exact nothing seq noted
      · rw [if_neg numbered] at number
        have missing : after.tracker.missingSeqs =
            noteMissing peer.tracker header.sequence.toNat context.now := by
          rw [tracked, advance_missing, noted]
        constructor
        · rintro sound ⟨seq, same, -, noted⟩
          refine sound seq (mem_receivedIn_append.mpr (.inr same)) ?_
          rw [missing]
          exact mem_noteMissing.mpr (.inl noted)
        · intro none_ seq member noted
          rw [missing] at noted
          rcases mem_receivedIn_append.mp member with earlier | same
          · rcases mem_noteMissing.mp noted with before | ⟨⟨low, -⟩, absent⟩
            · exact unlisted seq earlier before
            · rcases accounted.tracked seq earlier with passed | kept
              · exact Nat.not_lt.mpr low passed
              · exact absent kept
          · obtain rfl := Option.some.inj (number.symm.trans same)
            rcases mem_noteMissing.mp noted with before | ⟨⟨-, high⟩, -⟩
            · exact none_ ⟨_, number, beyond, before⟩
            · exact Nat.lt_irrefl _ high
      · rw [if_neg numbered] at number
        have missing : after.tracker.missingSeqs =
            peer.tracker.missingSeqs.erase header.sequence.toNat := by
          rw [tracked, advance_missing, filled]
        refine iff_of_true ?_ ?_
        · intro seq member noted
          rw [missing, Std.TreeMap.mem_erase, ne_eq, Nat.compare_eq_eq] at noted
          rcases mem_receivedIn_append.mp member with earlier | same
          · exact unlisted seq earlier noted.2
          · exact noted.1 (Option.some.inj (number.symm.trans same))
        · rintro ⟨seq, same, beyond, -⟩
          obtain rfl := Option.some.inj (number.symm.trans same)
          exact Nat.not_lt.mpr beyond behind
  | report reportInterval now =>
      refine unnumbered rfl fun gap member => ?_
      rw [moved.1] at member
      exact (Report.scan_scans steady reportInterval now).1.fewer gap member
  | tune retransmit peerRetransmit senderRttUs =>
      exact unnumbered rfl fun gap member => by rwa [moved.1] at member

/-- Until a packet fills a gap ahead of the cursor, and only until then, no received packet is in the
table and no report lists one.
-/
theorem sound_iff (fresh : start.tracker = {})
    (run : Run (step numerics) NoWrap start history last)
    : (Throughout Unlisted history last
        ∧ ∀ front stage back, history = front ++ stage :: back
          → ∀ seq ∈ stage.outputs, seq ∉ receivedIn front)
      ↔ ∀ stage ∈ history, ¬Fills stage := by
  have throughout_ : Throughout Unlisted history last ↔ ∀ stage ∈ history, ¬Fills stage := by
    refine run.throughout_iff (fun seq none_ => nomatch none_) ?_
    intro _ _ _ _ _ run unlisted _ taken
    exact step_unlisted_iff (run_accounted fresh run) unlisted (run_steady fresh run) taken
  rw [← throughout_]
  refine and_iff_left_of_imp fun unlisted => ?_
  intro front stage back split seq member received
  obtain ⟨earlier, -, after, taken⟩ := run.at_stage split
  exact unlisted.1 front stage back split seq received
    (step_outputs (run_steady fresh earlier) taken member)

theorem noWrap_arrival {sequence : UInt32} {now : TimePoint} (small : sequence.toNat + 1 < 2 ^ 32)
    : NoWrap history peer (arrival sequence now) := small

theorem sound_iff_gapReported
    : ∃ history last, history.map Stage.outputs = [[], [], [2, 3]]
      ∧ ((Throughout Unlisted history last
          ∧ ∀ front stage back, history = front ++ stage :: back
            → ∀ seq ∈ stage.outputs, seq ∉ receivedIn front)
        ↔ ∀ stage ∈ history, ¬Fills stage) := by
  obtain ⟨history, last, run, listed, small⟩ := gapReported_run
  refine ⟨history, last, listed, sound_iff rfl (run.of_audit (fun _ _ event checked => ?_) small)⟩
  cases event with
  | data header _ _ =>
      have small : header.sequence.toNat + 1 < 2 ^ 32 := of_decide_eq_true checked
      exact small
  | report _ _ => trivial
  | tune _ _ _ => trivial

/-- Packet 3 arrives after packet 4; a report built 50 ms later still lists it as lost. -/
theorem received_listed
    : ∃ history last, Run (step default) NoWrap {} history last
      ∧ ¬(Throughout Unlisted history last
        ∧ ∀ front stage back, history = front ++ stage :: back
          → ∀ seq ∈ stage.outputs, seq ∉ receivedIn front) := by
  refine ⟨_, _,
    .next
      (.next
        (.next (.next .start (noWrap_arrival (by decide)) (rfl : step default _ (arrival 1 0) = _))
          (noWrap_arrival (by decide)) (rfl : step default _ (arrival 4 0) = _))
        (noWrap_arrival (by decide)) (rfl : step default _ (arrival 3 1000000) = _))
      (by exact trivial) (rfl : step default _ (.report 1000000000 51000000) = _),
    fun sound => ?_⟩
  exact sound.2 _ _ [] rfl 3 (by decide +kernel) (by decide +kernel)

end LossTable

end Creek.Tight
