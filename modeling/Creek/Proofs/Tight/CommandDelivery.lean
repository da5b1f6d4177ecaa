import Creek.Proofs.Tight.CommandOrder
import Creek.Tight.CommandRun

/-! What the command channel delivers between two resets, whatever arrives: every command at most once,
in the order of the numbers, each as it was received.
-/

namespace Creek.Tight

open Library

namespace CommandChannel

variable {channel after : CommandState} {out : List Bytes} {result : CommandState × List Bytes}
  {history : List CommandStage} {call : CommandCall} {outputs : List (Nat × Bytes)}

-- One call

/-- Draining numbers what it adds from the expected number on. -/
theorem numbered_of_drained {run : Nat} (drained : Drained channel out result run)
    (room : out.length ≤ channel.nextExpected)
    : numbered result =
      numbered (channel, out)
        ++ (List.range run).map fun offset =>
            (channel.nextExpected + offset,
              (channel.held[channel.nextExpected + offset]?).getD []) := by
  have cursor : result.1.nextExpected = channel.nextExpected + run := by rw [drained.channel_eq]
  have length : result.2.length = out.length + run := by
    rw [drained.out_eq, List.length_append, List.length_map, List.length_range]
  have first : result.1.nextExpected - result.2.length = channel.nextExpected - out.length := by
    omega
  have second : channel.nextExpected - out.length + 1 * out.length = channel.nextExpected := by omega
  have split : List.range' (channel.nextExpected - out.length) (out.length + run) =
      List.range' (channel.nextExpected - out.length) out.length
        ++ List.range' channel.nextExpected run := by
    rw [← List.range'_append, second]
  rw [numbered, first, length, split, drained.out_eq, List.zip_append (List.length_range' ..),
    @List.range'_eq_map_range channel.nextExpected, List.zip_map']
  rfl

/-- The held commands are received and numbered from some point on. -/
def HeldFrom (known : Nat × Bytes → Prop) (start : Nat) (channel : CommandState) : Prop :=
  ∀ number payload, channel.held[number]? = some payload
    → start ≤ number ∧ number + 1 < 2 ^ 32 ∧ known (number, payload)

theorem HeldFrom.smallKeys {known : Nat × Bytes → Prop} {start : Nat}
    (holds : HeldFrom known start channel)
    : SmallKeys channel := by
  intro number member
  obtain ⟨payload, present⟩ :=
    Option.isSome_iff_exists.mp (Std.TreeMap.mem_iff_isSome_getElem?.mp member)
  exact (holds number payload present).2.1

/-- Received commands with increasing numbers from `start` on and before `stop`. -/
structure Ordered (known : Nat × Bytes → Prop) (start stop : Nat) (outputs : List (Nat × Bytes))
    : Prop where
  onward : start ≤ stop
  increasing : (outputs.map Prod.fst).Pairwise (· < ·)
  range : ∀ delivered ∈ outputs, start ≤ delivered.1 ∧ delivered.1 < stop
  received : ∀ delivered ∈ outputs, known delivered

theorem Ordered.nil {known : Nat × Bytes → Prop} {start stop : Nat} (onward : start ≤ stop)
    : Ordered known start stop [] :=
  ⟨onward, .nil, fun _ => nofun, fun _ => nofun⟩

/-- What is delivered from where the earlier commands end stays in order behind them. -/
theorem Ordered.append {known : Nat × Bytes → Prop} {start middle stop : Nat}
    {front back : List (Nat × Bytes)} (first : Ordered known start middle front)
    (second : Ordered known middle stop back)
    : Ordered known start stop (front ++ back) where
  onward := Nat.le_trans first.onward second.onward
  increasing := by
    rw [List.map_append, List.pairwise_append]
    refine ⟨first.increasing, second.increasing, fun left inFront right inBack => ?_⟩
    obtain ⟨earlier, member, rfl⟩ := List.mem_map.mp inFront
    obtain ⟨later, member', rfl⟩ := List.mem_map.mp inBack
    exact Nat.lt_of_lt_of_le (first.range earlier member).2 (second.range later member').1
  range := by
    intro delivered member
    rcases List.mem_append.mp member with member | member
    · obtain ⟨low, high⟩ := first.range delivered member
      exact ⟨low, Nat.lt_of_lt_of_le high second.onward⟩
    · obtain ⟨low, high⟩ := second.range delivered member
      exact ⟨Nat.le_trans first.onward low, high⟩
  received := by
    intro delivered member
    rcases List.mem_append.mp member with member | member
    · exact first.received delivered member
    · exact second.received delivered member

/-- What one call makes of a channel that expects `start`. -/
structure Delivers (known : Nat × Bytes → Prop) (start : Nat) (after : CommandState)
    (outputs : List (Nat × Bytes))
    : Prop where
  ordered : Ordered known start after.nextExpected outputs
  held : HeldFrom known (after.nextExpected + 1) after

/-- Draining delivers held commands in order, and leaves those behind the first one that is missing. -/
theorem delivers_of_drained {known : Nat × Bytes → Prop} {start run : Nat}
    (room : out.length ≤ channel.nextExpected)
    (earlier : Ordered known start channel.nextExpected (numbered (channel, out)))
    (holds : HeldFrom known channel.nextExpected channel)
    (drained : Drained channel out result run)
    : Delivers known start result.1 (numbered result) := by
  have cursor : result.1.nextExpected = channel.nextExpected + run := by rw [drained.channel_eq]
  constructor
  · rw [numbered_of_drained drained room, cursor]
    refine earlier.append ⟨Nat.le_add_right _ _, ?_, ?_, ?_⟩
    · rw [List.map_map, List.pairwise_map]
      exact List.pairwise_lt_range.imp fun less => Nat.add_lt_add_left less _
    · intro delivered member
      obtain ⟨offset, inRange, rfl⟩ := List.mem_map.mp member
      exact ⟨Nat.le_add_right _ _, Nat.add_lt_add_left (List.mem_range.mp inRange) _⟩
    · intro delivered member
      obtain ⟨offset, inRange, rfl⟩ := List.mem_map.mp member
      obtain ⟨payload, present⟩ := Option.isSome_iff_exists.mp
        (Std.TreeMap.mem_iff_isSome_getElem?.mp
          (drained.drained offset (List.mem_range.mp inRange)))
      rw [present]
      exact (holds _ _ present).2.2
  · intro number payload present
    rw [drained.held] at present
    split at present
    · cases present
    · rename_i outside
      obtain ⟨low, small, received⟩ := holds number payload present
      have other : number ≠ channel.nextExpected + run := by
        rintro rfl
        cases drained.stops.symm.trans present
      rw [cursor]
      exact ⟨by omega, small, received⟩

/-- The expiry check delivers in order, whether or not the gap is passed over. -/
theorem expireLocked_delivers {known : Nat × Bytes → Prop} (rttUs : Nat) (now : TimePoint)
    (holds : HeldFrom known (channel.nextExpected + 1) channel)
    : Delivers known channel.nextExpected (expireLocked channel rttUs now []).1
        (numbered (expireLocked channel rttUs now [])) := by
  by_cases overdue : channel.held.isEmpty = false ∧ ¬now - channel.gapSince < wait rttUs
  · obtain ⟨least, run, result, member, minimal, drained, since, eq⟩ :=
      expireLocked_skips [] holds.smallKeys overdue.1 overdue.2
    have above : channel.nextExpected ≤ least := by
      obtain ⟨payload, present⟩ :=
        Option.isSome_iff_exists.mp (Std.TreeMap.mem_iff_isSome_getElem?.mp member)
      exact Nat.le_of_succ_le (holds least payload present).1
    have fromLeast : HeldFrom known least { channel with nextExpected := least } := by
      intro number payload present
      refine ⟨minimal number ?_, (holds number payload present).2⟩
      rw [Std.TreeMap.mem_iff_isSome_getElem?, present]
      rfl
    obtain ⟨ordered, held⟩ :=
      delivers_of_drained (Nat.zero_le _) (.nil above) fromLeast drained
    rw [eq]
    exact ⟨ordered, held⟩
  · rw [expireLocked_waits channel rttUs now [] fun holds => by
      by_contra late
      exact overdue ⟨holds, late⟩]
    exact ⟨.nil (Nat.le_refl _), holds⟩

theorem numbered_singleton {number : Nat} {payload : Bytes}
    (expected : channel.nextExpected = number + 1)
    : numbered (channel, [payload]) = [(number, payload)] := by
  show (List.range' (channel.nextExpected - 1) 1).zip [payload] = _
  rw [expected, Nat.add_sub_cancel]
  rfl

/-- A numbered command is delivered in order, with those it makes ready, or held, or dropped. -/
theorem handle_delivers {known : Nat × Bytes → Prop} {header : PacketHeader} {payload : Bytes}
    (rttUs : Nat) (now : TimePoint) (positive : 0 < header.sequence.toNat)
    (small : header.sequence.toNat + 1 < 2 ^ 32) (arrived : known (header.sequence.toNat, payload))
    (holds : HeldFrom known ((started channel header.sequence.toNat).nextExpected + 1)
      (started channel header.sequence.toNat))
    : Delivers known (started channel header.sequence.toNat).nextExpected
        (handle channel header payload rttUs now).1
        (numbered (handle channel header payload rttUs now)) := by
  rcases Nat.lt_trichotomy header.sequence.toNat
      (started channel header.sequence.toNat).nextExpected with late | expected | ahead
  · rw [handle_late payload rttUs now rfl positive late]
    exact ⟨.nil (Nat.le_refl _), holds⟩
  · have noWrap : u32 ((started channel header.sequence.toNat).nextExpected + 1) =
        (started channel header.sequence.toNat).nextExpected + 1 :=
      Nat.mod_eq_of_lt (by omega)
    rw [handle_expected rfl positive expected, noWrap]
    obtain ⟨run, drained⟩ :=
      drainLoop_drained
        {
          started channel header.sequence.toNat with
          nextExpected := (started channel header.sequence.toNat).nextExpected + 1
        }
        [payload] (Nat.le_refl _) holds.smallKeys
    refine delivers_of_drained (Nat.le_add_left 1 _) ?_ holds drained
    rw [numbered_singleton (congrArg (· + 1) expected.symm)]
    refine ⟨Nat.le_succ _, List.pairwise_singleton _ _, ?_, ?_⟩
    · intro delivered member
      rw [List.mem_singleton.mp member]
      exact ⟨Nat.le_of_eq expected.symm, Nat.lt_succ_of_le (Nat.le_of_eq expected)⟩
    · intro delivered member
      rwa [List.mem_singleton.mp member]
  · rw [handle_ahead payload rttUs now rfl ahead]
    have holding_ : HeldFrom known ((started channel header.sequence.toNat).nextExpected + 1)
        (holding (started channel header.sequence.toNat) header.sequence.toNat payload now) := by
      intro number held present
      rw [getElem?_holding] at present
      split at present
      · rename_i added
        cases present
        rw [← added.1]
        exact ⟨ahead, small, arrived⟩
      · exact holds number held present
    exact expireLocked_delivers rttUs now holding_

-- Whole runs

/-- No command carries the last sequence number. -/
def NoWrap (_ : List CommandStage) (_ : CommandState) (call : CommandCall) : Prop :=
  ∀ packet, call.packet = some packet → packet.1 + 1 < 2 ^ 32

/-- The packet was handed in by some call of the run. -/
def Received (history : List CommandStage) (packet : Nat × Bytes) : Prop :=
  ∃ stage ∈ history, stage.event.packet = some packet

theorem Received.append {packet : Nat × Bytes} {stage : CommandStage}
    (received : Received history packet)
    : Received (history ++ [stage]) packet := by
  obtain ⟨earlier, member, same⟩ := received
  exact ⟨earlier, List.mem_append_left _ member, same⟩

/-- A channel that has delivered in order what it does not hold any more. -/
structure Delivered (history : List CommandStage) (channel : CommandState) : Prop where
  ordered : Ordered (Received history) 0 channel.nextExpected (emitted history)
  held : HeldFrom (Received history) (channel.nextExpected + 1) channel
  idle : channel.initialized = false
    → emitted history = [] ∧ ∀ number, number ∉ channel.held

theorem delivered_reset (channel : CommandState) : Delivered [] (reset channel) where
  ordered := .nil (Nat.zero_le _)
  held := fun number payload present => by
    rw [reset, Std.TreeMap.getElem?_emptyc] at present
    cases present
  idle := fun _ => ⟨rfl, fun _ => Std.TreeMap.not_mem_emptyc⟩

/-- What a call delivers on a channel in order leaves the channel in order. -/
theorem Delivered.append {stage : CommandStage} {base : Nat} (delivered : Delivered history channel)
    (base_ : emitted history = [] ∨ channel.nextExpected ≤ base)
    (delivers : Delivers (Received (history ++ [stage])) base after stage.outputs)
    (initialized : after.initialized = false
      → stage.outputs = [] ∧ emitted history = [] ∧ ∀ number, number ∉ after.held)
    : Delivered (history ++ [stage]) after where
  ordered := by
    rw [emitted_append, emitted_singleton]
    have earlier : Ordered (Received (history ++ [stage])) 0 base (emitted history) := by
      rcases base_ with none_ | above
      · rw [none_]
        exact .nil (Nat.zero_le _)
      · obtain ⟨onward, increasing, range, received⟩ := delivered.ordered
        exact ⟨Nat.zero_le _, increasing,
          fun entry member =>
            ⟨Nat.zero_le _, Nat.lt_of_lt_of_le (range entry member).2 above⟩,
          fun entry member => (received entry member).append⟩
    exact earlier.append delivers.ordered
  held := delivers.held
  idle := by
    intro idle
    obtain ⟨none_, nothing, empty⟩ := initialized idle
    rw [emitted_append, emitted_singleton, none_, nothing]
    exact ⟨rfl, empty⟩

/-- Draining neither starts a channel nor draws a number. -/
theorem drainLocked_frame (channel : CommandState) (out : List Bytes)
    : (drainLocked channel out).1.initialized = channel.initialized
      ∧ (drainLocked channel out).1.seqOut = channel.seqOut := by
  have loop (fuel : Nat) (channel : CommandState) (out : List Bytes)
      : (drainLoop fuel channel out).1.initialized = channel.initialized
        ∧ (drainLoop fuel channel out).1.seqOut = channel.seqOut := by
    induction fuel generalizing channel out with
    | zero => exact ⟨rfl, rfl⟩
    | succ fuel ih =>
        rw [drainLoop]
        split
        · exact ⟨rfl, rfl⟩
        · exact ih _ _
  exact loop _ channel out

theorem expireLocked_frame (channel : CommandState) (rttUs : Nat) (now : TimePoint)
    (out : List Bytes)
    : (expireLocked channel rttUs now out).1.initialized = channel.initialized
      ∧ (expireLocked channel rttUs now out).1.seqOut = channel.seqOut := by
  simp only [expireLocked]
  split
  · exact ⟨rfl, rfl⟩
  · split
    · exact ⟨rfl, rfl⟩
    · split
      · exact drainLocked_frame _ _
      · exact drainLocked_frame _ _

theorem handle_initialized (header : PacketHeader) (payload : Bytes) (rttUs : Nat)
    (now : TimePoint) (positive : 0 < header.sequence.toNat)
    : (handle channel header payload rttUs now).1.initialized = true := by
  have started_ : (started channel header.sequence.toNat).initialized = true := by
    rw [started]
    split
    · assumption
    · rfl
  rcases Nat.lt_trichotomy header.sequence.toNat
      (started channel header.sequence.toNat).nextExpected with late | expected | ahead
  · rw [handle_late payload rttUs now rfl positive late, started_]
  · rw [handle_expected rfl positive expected, (drainLocked_frame _ _).1, started_]
  · rw [handle_ahead payload rttUs now rfl ahead, (expireLocked_frame _ _ _ _).1]
    exact started_

theorem Delivered.held_append (delivered : Delivered history channel) (stage : CommandStage)
    : HeldFrom (Received (history ++ [stage])) (channel.nextExpected + 1) channel :=
  fun number payload present =>
    (delivered.held number payload present).imp_right fun rest => rest.imp_right (·.append)

theorem handle_delivered {stage : CommandStage} {header : PacketHeader} {payload : Bytes}
    {rttUs : Nat} {now : TimePoint} (delivered : Delivered history channel)
    (event : stage.event = .handle header payload rttUs now)
    (small : header.sequence.toNat + 1 < 2 ^ 32)
    (outputs : stage.outputs = numbered (handle channel header payload rttUs now))
    : Delivered (history ++ [stage]) (handle channel header payload rttUs now).1 := by
  rcases Nat.eq_zero_or_pos header.sequence.toNat with zero | positive
  · have dropped : handle channel header payload rttUs now = (channel, []) := by
      rw [handle, if_pos zero]
    rw [dropped] at outputs ⊢
    have nothing : stage.outputs = [] := outputs
    refine delivered.append (.inr (Nat.le_refl _)) ⟨?_, delivered.held_append stage⟩ fun idle => ?_
    · rw [nothing]
      exact .nil (Nat.le_refl _)
    · exact ⟨nothing, delivered.idle idle⟩
  · have arrived : Received (history ++ [stage]) (header.sequence.toNat, payload) :=
      ⟨stage, List.mem_append_right _ List.mem_cons_self, by rw [event]; rfl⟩
    have started_ : HeldFrom (Received (history ++ [stage]))
        ((started channel header.sequence.toNat).nextExpected + 1)
        (started channel header.sequence.toNat) := by
      rw [started]
      split
      · exact delivered.held_append stage
      · rename_i idle
        intro number payload present
        refine absurd ?_ ((delivered.idle (by simpa using idle)).2 number)
        rw [Std.TreeMap.mem_iff_isSome_getElem?]
        exact Option.isSome_of_eq_some present
    have delivers := handle_delivers rttUs now positive small arrived started_
    rw [← outputs] at delivers
    refine delivered.append ?_ delivers fun idle => ?_
    · rcases initialized : channel.initialized with _ | _
      · exact .inl (delivered.idle initialized).1
      · rw [started, if_pos initialized]
        exact .inr (Nat.le_refl _)
    · rw [handle_initialized header payload rttUs now positive] at idle
      cases idle

theorem flushExpired_delivered {stage : CommandStage} {rttUs : Nat} {now : TimePoint}
    (delivered : Delivered history channel)
    (outputs : stage.outputs = numbered (flushExpired channel rttUs now))
    : Delivered (history ++ [stage]) (flushExpired channel rttUs now).1 := by
  have delivers := expireLocked_delivers rttUs now (delivered.held_append stage)
  rw [← flushExpired, ← outputs] at delivers
  refine delivered.append (.inr (Nat.le_refl _)) delivers fun idle => ?_
  rw [flushExpired, (expireLocked_frame _ _ _ _).1] at idle
  obtain ⟨none_, empty⟩ := delivered.idle idle
  have waits := expireLocked_waits channel rttUs now [] fun holds => by
    obtain ⟨number, member⟩ := Std.TreeMap.isEmpty_eq_false_iff_exists_mem.mp holds
    exact absurd member (empty number)
  rw [flushExpired, waits] at outputs ⊢
  exact ⟨outputs, none_, empty⟩

theorem step_delivered (delivered : Delivered history channel) (small : NoWrap history channel call)
    (taken : step channel call = .ok (after, outputs))
    : Delivered (history ++ [{ before := channel, event := call, outputs := outputs }]) after := by
  cases call with
  | handle header payload rttUs now =>
      cases taken
      exact handle_delivered delivered rfl (small _ rfl) rfl
  | flushExpired rttUs now =>
      cases taken
      exact flushExpired_delivered delivered rfl

/-- Between two resets the delivered numbers increase, every delivered payload was received under its
number, and what is held is numbered beyond the expected command.
-/
theorem run_delivers {start : CommandState}
    (run : Run step NoWrap (reset start) history channel)
    : ((emitted history).map Prod.fst).Pairwise (· < ·)
      ∧ (∀ packet ∈ emitted history, Received history packet)
      ∧ ∀ number ∈ channel.held, channel.nextExpected < number := by
  have delivered := run.invariant Delivered (delivered_reset start)
    fun _ _ _ _ _ _ delivered small taken => step_delivered delivered small taken
  refine ⟨delivered.ordered.increasing, delivered.ordered.received, fun number member => ?_⟩
  obtain ⟨payload, present⟩ :=
    Option.isSome_iff_exists.mp (Std.TreeMap.mem_iff_isSome_getElem?.mp member)
  exact (delivered.held number payload present).1

theorem noWrap_handle {sequence : UInt32} {payload : Bytes} {rttUs : Nat} {now : TimePoint}
    (small : sequence.toNat + 1 < 2 ^ 32)
    : NoWrap history channel (.handle { sequence := sequence } payload rttUs now) := by
  rintro packet same
  cases same
  exact small

/-- Command 3 arrives before command 2. -/
theorem run_delivers_reordered
    : ∃ (history : List CommandStage) (channel : CommandState),
      emitted history = [(1, [1]), (2, [2]), (3, [3])]
      ∧ ((emitted history).map Prod.fst).Pairwise (· < ·)
      ∧ (∀ packet ∈ emitted history, Received history packet)
      ∧ ∀ number ∈ channel.held, channel.nextExpected < number := by
  refine ⟨_, _, ?_, @run_delivers _ _ {}
    (.next
      (.next
        (.next .start (noWrap_handle (by decide))
          (rfl : step _ (.handle { sequence := 1 } [1] 10000 0) = _))
        (noWrap_handle (by decide)) (rfl : step _ (.handle { sequence := 3 } [3] 10000 1) = _))
      (noWrap_handle (by decide)) (rfl : step _ (.handle { sequence := 2 } [2] 10000 2) = _))⟩
  decide +kernel

end CommandChannel

end Creek.Tight
