import Creek.Library.Frontier
import Creek.Tight.Command

/-! Delivery order of the command channel.
A channel that starts with command 1 and never gives a gap up delivers the received prefix of
the session; once it has passed a command over, it stays one delivery short.
-/

namespace Creek.Tight

open Library

-- Draining

/-- The effect of draining a run of consecutively numbered held commands. -/
structure Drained (channel : CommandState) (out : List Bytes)
    (result : CommandState × List Bytes) (run : Nat)
    : Prop where
  channel_eq : result.1 =
    { channel with held := result.1.held, nextExpected := channel.nextExpected + run }
  held : ∀ number,
    result.1.held[number]?
    = if channel.nextExpected ≤ number ∧ number < channel.nextExpected + run then none
      else channel.held[number]?
  stops : channel.held[channel.nextExpected + run]? = none
  drained : ∀ offset < run, channel.nextExpected + offset ∈ channel.held
  out_eq : result.2 =
    out ++ (List.range run).map fun offset =>
      (channel.held[channel.nextExpected + offset]?).getD []

/-- Sequence numbers that do not wrap. -/
def SmallKeys (channel : CommandState) : Prop := ∀ number ∈ channel.held, number + 1 < 2 ^ 32

/-- Enough passes drain the whole run behind the expected command.
Witness: induction on the passes; each removes the expected command.
-/
theorem CommandChannel.drainLoop_drained {fuel : Nat} (channel : CommandState)
    (out : List Bytes) (enough : channel.held.size ≤ fuel) (small : SmallKeys channel)
    : ∃ run, Drained channel out (drainLoop fuel channel out) run := by
  induction fuel generalizing channel out with
  | zero =>
      have empty : channel.held.isEmpty := by
        rw [Std.TreeMap.isEmpty_eq_size_eq_zero]
        simpa using enough
      have absent (number : Nat) : channel.held[number]? = none := by
        have missing := Std.TreeMap.isEmpty_iff_forall_not_mem.mp empty number
        rwa [Std.TreeMap.mem_iff_isSome_getElem?, Option.not_isSome_iff_eq_none] at missing
      exact ⟨0, rfl, fun number => by simp [drainLoop, absent], absent _,
        by simp, by simp [drainLoop]⟩
  | succ fuel ih =>
      rw [drainLoop]
      cases expected : channel.held[channel.nextExpected]? with
      | none =>
          exact ⟨0, rfl, fun number => (if_neg (by omega)).symm, by simpa using expected, by simp,
            by simp⟩
      | some payload =>
          have member : channel.nextExpected ∈ channel.held := by
            rw [Std.TreeMap.mem_iff_isSome_getElem?, expected]
            rfl
          have noWrap : u32 (channel.nextExpected + 1) = channel.nextExpected + 1 :=
            Nat.mod_eq_of_lt (small _ member)
          have erased (number : Nat)
              : (channel.held.erase channel.nextExpected)[number]?
                = if channel.nextExpected = number then none else channel.held[number]? := by
            simp [Std.TreeMap.getElem?_erase]
          obtain ⟨run, tail⟩ := ih
            {
              channel with
              held := channel.held.erase channel.nextExpected
              nextExpected := u32 (channel.nextExpected + 1)
            }
            (out ++ [payload])
            (by
              rw [Std.TreeMap.size_erase, if_pos (Std.TreeMap.mem_iff_contains.mp member)]
              omega)
            (fun number inErased => small number (Std.TreeMap.mem_of_mem_erase inErased))
          obtain ⟨same, held, stops, drained, delivered⟩ := tail
          simp only [noWrap, erased] at same held stops drained delivered ⊢
          refine ⟨run + 1, ?_, fun number => ?_, ?_, fun offset bound => ?_, ?_⟩
          · rw [same]
            simp only [Nat.add_assoc, Nat.add_comm 1 run]
          · rw [held number]
            grind
          · grind
          · cases offset with
            | zero => exact member
            | succ offset =>
                have later := drained offset (by omega)
                have inHeld := Std.TreeMap.mem_of_mem_erase later
                rwa [Nat.add_assoc, Nat.add_comm 1 offset] at inHeld
          · have later (offset : Nat)
                : (if channel.nextExpected = channel.nextExpected + 1 + offset then none
                    else channel.held[channel.nextExpected + 1 + offset]?)
                  = channel.held[channel.nextExpected + (offset + 1)]? := by
              rw [if_neg (by omega), Nat.add_assoc, Nat.add_comm 1]
            rw [delivered, List.range_succ_eq_map, List.map_cons, List.map_map, List.append_assoc]
            simp only [later, Nat.add_zero, expected, Option.getD_some, List.singleton_append,
              Function.comp_def, Nat.succ_eq_add_one]

-- Handling a command by its number

namespace CommandChannel

/-- The channel after its first command has set the expected number. -/
def started (channel : CommandState) (number : Nat) : CommandState :=
  if channel.initialized then channel
  else { channel with nextExpected := number, initialized := true }

/-- A channel with one more command held, as a gap is detected. -/
def holding (channel : CommandState) (number : Nat) (payload : Bytes) (now : TimePoint)
    : CommandState :=
  {
    channel with
    gapSince := if channel.held.isEmpty then now else channel.gapSince
    held := channel.held.insertIfNew number payload
  }

variable {channel : CommandState} {header : PacketHeader} {payload : Bytes} {number rttUs : Nat}
  {now : TimePoint} {out : List Bytes}

private theorem handle_eq (numbered : header.sequence.toNat = number) (positive : 0 < number)
    : handle channel header payload rttUs now
      = if number < (started channel number).nextExpected then (started channel number, [])
        else if number = (started channel number).nextExpected then
          drainLocked
            {
              started channel number with
              nextExpected := u32 ((started channel number).nextExpected + 1)
            }
            [payload]
        else
          expireLocked (holding (started channel number) number payload now) rttUs now [] := by
  simp only [handle, numbered, Nat.ne_of_gt positive, if_false]
  rfl

theorem handle_late (payload : Bytes) (rttUs : Nat) (now : TimePoint)
    (numbered : header.sequence.toNat = number) (positive : 0 < number)
    (late : number < (started channel number).nextExpected)
    : handle channel header payload rttUs now = (started channel number, []) := by
  rw [handle_eq numbered positive, if_pos late]

theorem handle_expected (numbered : header.sequence.toNat = number) (positive : 0 < number)
    (expected : number = (started channel number).nextExpected)
    : handle channel header payload rttUs now
      = drainLocked
          {
            started channel number with
            nextExpected := u32 ((started channel number).nextExpected + 1)
          }
          [payload] := by
  rw [handle_eq numbered positive, if_neg (by omega), if_pos expected]

theorem handle_ahead (payload : Bytes) (rttUs : Nat) (now : TimePoint)
    (numbered : header.sequence.toNat = number)
    (ahead : (started channel number).nextExpected < number)
    : handle channel header payload rttUs now
      = expireLocked (holding (started channel number) number payload now) rttUs now [] := by
  rw [handle_eq numbered (by omega), if_neg (by omega), if_neg (by omega)]

/-- Holding a command adds it unless that number is held already. -/
theorem getElem?_holding (other : Nat)
    : (holding channel number payload now).held[other]?
      = if number = other ∧ channel.held[number]? = none then some payload
        else channel.held[other]? := by
  have absent : number ∉ channel.held ↔ channel.held[number]? = none := by
    rw [Std.TreeMap.mem_iff_isSome_getElem?, Option.not_isSome_iff_eq_none]
  simp only [holding, Std.TreeMap.getElem?_insertIfNew, compare_eq_iff_eq, absent]

theorem wait_pos (rttUs : Nat) : 0 < wait rttUs := by
  unfold wait kMaxWaitRtt
  split <;> omega

theorem expireLocked_waits (channel : CommandState) (rttUs : Nat) (now : TimePoint)
    (out : List Bytes)
    (inTime : channel.held.isEmpty = false → now - channel.gapSince < wait rttUs)
    : expireLocked channel rttUs now out = (channel, out) := by
  unfold expireLocked
  cases empty : channel.held.isEmpty with
  | true => simp
  | false => simp [inTime empty]

/-- An overdue gap is passed over: draining starts at the least held command. -/
theorem expireLocked_skips (out : List Bytes) (small : SmallKeys channel)
    (holds : channel.held.isEmpty = false) (overdue : ¬now - channel.gapSince < wait rttUs)
    : ∃ least run result,
        least ∈ channel.held ∧ (∀ number ∈ channel.held, least ≤ number)
        ∧ Drained { channel with nextExpected := least } out result run
        ∧ ∃ since,
            expireLocked channel rttUs now out
            = ({ result.1 with gapSince := since }, result.2) := by
  obtain ⟨run, drained⟩ :=
    drainLoop_drained { channel with nextExpected := channel.held.minKeyD 0 } out
      (Nat.le_refl channel.held.size) small
  refine ⟨channel.held.minKeyD 0, run, _, Std.TreeMap.minKeyD_mem holds, ?_, drained, ?_⟩
  · intro number member
    exact Nat.isLE_compare.mp (Std.TreeMap.minKeyD_le_of_mem member)
  · rw [expireLocked, if_neg (by simp [holds]), if_neg overdue]
    by_cases empty :
        (drainLocked { channel with nextExpected := channel.held.minKeyD 0 } out).1.held.isEmpty
    · exact ⟨_, if_pos empty⟩
    · exact ⟨now, if_neg empty⟩

end CommandChannel

-- Sessions and arrival schedules

/-- The commands of one session, which `send_command` numbers 1, 2, … without wrap-around. -/
structure CommandSession where
  commands : List (PacketHeader × Bytes)
  numbered : ∀ (i : Nat) (inRange : i < commands.length),
    commands[i].1.sequence.toNat = i + 1
  bounded : commands.length + 1 < 2 ^ 32

/-- What happens at the receiving channel: a numbered command arrives, or the reactor runs
its periodic expiry check.
-/
inductive ChannelEvent where
  | command (number : Nat)
  | flush
  deriving DecidableEq, Repr

/-- Events in the order they happen, each with its time. -/
abbrev Schedule := List (TimePoint × ChannelEvent)

namespace CommandSession

/-- The packet of a command number. -/
def packet (session : CommandSession) (number : Nat) : PacketHeader × Bytes :=
  session.commands.getD (number - 1) ({}, [])

def payloads (session : CommandSession) : List Bytes := session.commands.map Prod.snd

/-- One event at the channel; the delivered payloads accumulate. -/
def step (session : CommandSession) (rttUs : Nat) (state : CommandState × List Bytes)
    (event : TimePoint × ChannelEvent)
    : CommandState × List Bytes :=
  let result :=
    match event.2 with
    | .command number =>
        CommandChannel.handle state.1 (session.packet number).1 (session.packet number).2 rttUs
          event.1
    | .flush => CommandChannel.flushExpired state.1 rttUs event.1
  (result.1, state.2 ++ result.2)

/-- What the channel delivers over a schedule, from a freshly reset state on. -/
def delivered (session : CommandSession) (rttUs : Nat) (schedule : Schedule) : List Bytes :=
  (schedule.foldl (session.step rttUs) (CommandChannel.reset {}, [])).2

/-- The event concerns a command of the session. -/
def Knows (session : CommandSession) (event : ChannelEvent) : Prop :=
  ∀ number, event = .command number → 1 ≤ number ∧ number ≤ session.commands.length

/-- Every command of the session arrives, possibly more than once, and nothing else does. -/
structure Complete (session : CommandSession) (schedule : Schedule) : Prop where
  known : ∀ event ∈ schedule, session.Knows event.2
  arrives : ∀ number, 1 ≤ number → number ≤ session.commands.length
    → ∃ time, (time, ChannelEvent.command number) ∈ schedule

end CommandSession

/-- How far a schedule has got: the numbers that have arrived, and when the gap that is open
now was opened.
-/
structure Progress where
  arrived : List Nat := []
  gapSince : TimePoint := 0

namespace Progress

/-- The first number that has not arrived. -/
def next (progress : Progress) : Nat := frontier 1 progress.arrived

/-- Some command has arrived ahead of a missing one. -/
def GapOpen (progress : Progress) : Prop := ∃ number ∈ progress.arrived, progress.next < number

instance (progress : Progress) : Decidable progress.GapOpen :=
  inferInstanceAs (Decidable (∃ number ∈ progress.arrived, progress.next < number))

/-- Arrivals accumulate; a gap that opens starts its period. -/
def step (progress : Progress) (event : TimePoint × ChannelEvent) : Progress :=
  match event.2 with
  | .flush => progress
  | .command number =>
      {
        arrived := number :: progress.arrived
        gapSince := if progress.GapOpen then progress.gapSince else event.1
      }

/-- The event finds the channel able to wait: the first command is number 1, and no expiry
check or arrival ahead of a gap happens once the wait of the open gap period is over.
-/
def Patient (progress : Progress) (rttUs : Nat) (event : TimePoint × ChannelEvent) : Prop :=
  match event.2 with
  | .flush =>
      progress.GapOpen → event.1 - progress.gapSince < CommandChannel.wait rttUs
  | .command number =>
      (progress.arrived = [] → number = 1)
      ∧ (progress.next < number → progress.GapOpen
        → event.1 - progress.gapSince < CommandChannel.wait rttUs)

/-- Every event of a schedule is patient where it happens. -/
def AllPatient (progress : Progress) (rttUs : Nat) : Schedule → Prop
  | [] => True
  | event :: rest => progress.Patient rttUs event ∧ (progress.step event).AllPatient rttUs rest

/-- An arrival that is not the missing command leaves the received prefix. -/
theorem step_next {progress : Progress} {number : Nat} (time : TimePoint)
    (other : number ≠ progress.next)
    : (progress.step (time, .command number)).next = progress.next :=
  frontier_cons_of_ne other

end Progress

namespace CommandSession

variable {session : CommandSession} {progress : Progress} {channel : CommandState}
  {out : List Bytes} {rttUs : Nat} {event : TimePoint × ChannelEvent}

theorem numbered_packet {number : Nat} (known : session.Knows (.command number))
    : (session.packet number).1.sequence.toNat = number := by
  obtain ⟨low, high⟩ := known number rfl
  have inRange : number - 1 < session.commands.length := by omega
  have numbered := session.numbered (number - 1) inRange
  rw [packet, List.getD_eq_getElem?_getD, List.getElem?_eq_getElem inRange, Option.getD_some,
    numbered]
  omega

theorem length_payloads : session.payloads.length = session.commands.length :=
  List.length_map _

/-- A prefix of the payloads extended by the packets that follow it. -/
theorem take_payloads_append (count run : Nat) (bound : count + run ≤ session.commands.length)
    : session.payloads.take count
        ++ (List.range run).map (fun offset => (session.packet (count + 1 + offset)).2)
      = session.payloads.take (count + run) := by
  rw [List.take_add]
  congr 1
  apply List.ext_getElem
  · rw [List.length_map, List.length_range, List.length_take, List.length_drop, length_payloads]
    omega
  · intro i inLeft inRight
    rw [List.length_map, List.length_range] at inLeft
    have inRange : count + i < session.commands.length := by omega
    simp [payloads, packet, inRange]

/-- The channel has delivered the received prefix of the session and holds the rest. -/
structure InOrder (session : CommandSession) (progress : Progress) (channel : CommandState)
    (out : List Bytes)
    : Prop where
  initialized : channel.initialized = !progress.arrived.isEmpty
  expected : progress.arrived ≠ [] → channel.nextExpected = progress.next
  held : ∀ number,
    channel.held[number]?
    = if number ∈ progress.arrived ∧ progress.next < number then some (session.packet number).2
      else none
  since : progress.GapOpen → channel.gapSince = progress.gapSince
  known : ∀ number ∈ progress.arrived, 1 ≤ number ∧ number ≤ session.commands.length
  delivered : out = session.payloads.take (progress.next - 1)

/-- Some command has been passed over: more numbers are behind than were delivered. -/
structure Skipped (session : CommandSession) (channel : CommandState) (out : List Bytes)
    : Prop where
  initialized : channel.initialized = true
  behind : out.length + 2 ≤ channel.nextExpected
  bound : channel.nextExpected ≤ session.commands.length + 1
  ahead : ∀ number ∈ channel.held,
    channel.nextExpected < number ∧ number ≤ session.commands.length

namespace InOrder

theorem mem_held (inOrder : session.InOrder progress channel out) {number : Nat}
    : number ∈ channel.held ↔ number ∈ progress.arrived ∧ progress.next < number := by
  rw [Std.TreeMap.mem_iff_isSome_getElem?, inOrder.held]
  split <;> simp_all

theorem isEmpty_held (inOrder : session.InOrder progress channel out)
    : channel.held.isEmpty = false ↔ progress.GapOpen := by
  rw [Std.TreeMap.isEmpty_eq_false_iff_exists_mem]
  simp only [inOrder.mem_held]
  rfl

theorem smallKeys (inOrder : session.InOrder progress channel out) : SmallKeys channel := by
  intro number member
  have bound := (inOrder.known number (inOrder.mem_held.mp member).1).2
  have limit := session.bounded
  omega

theorem next_le (inOrder : session.InOrder progress channel out)
    : progress.next ≤ session.commands.length + 1 := by
  by_contra beyond
  have member : session.commands.length + 1 ∈ progress.arrived :=
    mem_of_lt_frontier (show 1 ≤ _ by omega) (Nat.lt_of_not_le beyond)
  have bound := (inOrder.known _ member).2
  omega

theorem length_out (inOrder : session.InOrder progress channel out)
    : out.length + 1 = progress.next := by
  have low : 1 ≤ progress.next := start_le_frontier
  have high := inOrder.next_le
  rw [inOrder.delivered, List.length_take, length_payloads]
  omega

/-- Once the first command has set it, the channel expects the first missing number. -/
theorem started_nextExpected (inOrder : session.InOrder progress channel out) {number : Nat}
    (first : progress.arrived = [] → number = 1)
    : (CommandChannel.started channel number).nextExpected = progress.next := by
  rw [CommandChannel.started, inOrder.initialized]
  by_cases empty : progress.arrived = []
  · simp [empty, Progress.next, first empty]
  · simp [empty, inOrder.expected empty]

/-- A channel in order stays in order over a command that has arrived before. -/
theorem after_late (inOrder : session.InOrder progress channel out) {number : Nat} {time : TimePoint}
    (known : session.Knows (.command number)) (late : number < progress.next)
    : session.InOrder (progress.step (time, .command number)) channel out := by
  have member : number ∈ progress.arrived := mem_of_lt_frontier (known number rfl).1 late
  have nonempty : progress.arrived ≠ [] := List.ne_nil_of_mem member
  have next := Progress.step_next time (Nat.ne_of_lt late)
  have arrived (other : Nat)
      : other ∈ (progress.step (time, .command number)).arrived ↔ other ∈ progress.arrived := by
    simp only [Progress.step, List.mem_cons]
    exact or_iff_right_of_imp fun same => same ▸ member
  have gap : (progress.step (time, .command number)).GapOpen ↔ progress.GapOpen := by
    simp only [Progress.GapOpen, next, arrived]
  refine ⟨?_, fun _ => ?_, fun other => ?_, fun isOpen => ?_, fun other inArrived => ?_, ?_⟩
  · rw [inOrder.initialized]
    simp [Progress.step, nonempty]
  · rw [next, inOrder.expected nonempty]
  · rw [inOrder.held other]
    simp only [arrived, next]
  · have isOpen := gap.mp isOpen
    simp only [Progress.step, isOpen, if_true, inOrder.since isOpen]
  · exact inOrder.known other ((arrived other).mp inArrived)
  · rw [next, inOrder.delivered]

/-- A channel in order stays in order when a command ahead of a gap is put on hold. -/
theorem after_holding (inOrder : session.InOrder progress channel out) {number : Nat}
    (time : TimePoint) (known : session.Knows (.command number)) (ahead : progress.next < number)
    (first : progress.arrived = [] → number = 1)
    : session.InOrder (progress.step (time, .command number))
        (CommandChannel.holding (CommandChannel.started channel number) number
          (session.packet number).2 time)
        out := by
  have nonempty : progress.arrived ≠ [] := by
    intro empty
    have low : 1 ≤ progress.next := start_le_frontier
    have one := first empty
    omega
  have started : CommandChannel.started channel number = channel := by
    rw [CommandChannel.started, inOrder.initialized]
    simp [nonempty]
  have next := Progress.step_next time (Nat.ne_of_gt ahead)
  rw [started]
  refine ⟨?_, fun _ => ?_, fun other => ?_, fun _ => ?_, fun other inArrived => ?_, ?_⟩
  · simp only [CommandChannel.holding, inOrder.initialized]
    simp [Progress.step, nonempty]
  · rw [next]
    exact inOrder.expected nonempty
  · rw [CommandChannel.getElem?_holding, next, inOrder.held, inOrder.held]
    by_cases same : number = other
    · subst same
      simp [Progress.step, ahead]
    · simp [Progress.step, same, Ne.symm same]
  · simp only [CommandChannel.holding, Progress.step]
    by_cases isOpen : progress.GapOpen
    · simp [isOpen, inOrder.isEmpty_held.mpr isOpen, inOrder.since isOpen]
    · have empty : channel.held.isEmpty = true := by
        rw [← Bool.not_eq_false]
        exact fun nonempty => isOpen (inOrder.isEmpty_held.mp nonempty)
      simp [isOpen, empty]
  · rcases List.mem_cons.mp inArrived with rfl | before
    · exact known _ rfl
    · exact inOrder.known other before
  · rw [next, inOrder.delivered]

/-- The missing command is delivered together with the run held behind it. -/
theorem after_expected (inOrder : session.InOrder progress channel out) {number : Nat}
    {time : TimePoint} (known : session.Knows (.command number)) (missing : number = progress.next)
    (first : progress.arrived = [] → number = 1)
    : let result := CommandChannel.handle channel (session.packet number).1
        (session.packet number).2 rttUs time
      session.InOrder (progress.step (time, .command number)) result.1 (out ++ result.2) := by
  intro result
  have startedNext := inOrder.started_nextExpected first
  have range := known number rfl
  have limit := session.bounded
  have sameHeld : (CommandChannel.started channel number).held = channel.held := by
    unfold CommandChannel.started
    split <;> rfl
  have noWrap : u32 (progress.next + 1) = progress.next + 1 := Nat.mod_eq_of_lt (by omega)
  have handled : result = CommandChannel.drainLocked
      { CommandChannel.started channel number with nextExpected := progress.next + 1 }
      [(session.packet number).2] := by
    simp only [result]
    rw [CommandChannel.handle_expected (numbered_packet known) range.1
      (missing.trans startedNext.symm), startedNext, noWrap]
  obtain ⟨run, drained⟩ := CommandChannel.drainLoop_drained
    { CommandChannel.started channel number with nextExpected := progress.next + 1 }
    [(session.packet number).2] (Nat.le_refl _)
    (fun other member => inOrder.smallKeys other (sameHeld ▸ member))
  rw [← CommandChannel.drainLocked, ← handled] at drained
  obtain ⟨same, held, stops, members, delivered⟩ := drained
  simp only [sameHeld] at held stops members delivered
  have behind (offset : Nat) (inRun : offset < run)
      : progress.next + 1 + offset ∈ progress.arrived :=
    (inOrder.mem_held.mp (members offset inRun)).1
  have absent : progress.next + 1 + run ∉ progress.arrived := by
    intro member
    rw [inOrder.held, if_pos ⟨member, by omega⟩] at stops
    cases stops
  have next : (progress.step (time, .command number)).next = progress.next + 1 + run := by
    simp only [Progress.step, Progress.next, missing]
    exact frontier_cons_frontier behind absent
  have bound : progress.next + run ≤ session.commands.length := by
    cases run with
    | zero => omega
    | succ run => have last := (inOrder.known _ (behind run (by omega))).2; omega
  have low : 1 ≤ progress.next := start_le_frontier
  refine ⟨?_, fun _ => ?_, fun other => ?_, fun isOpen => ?_, fun other inArrived => ?_, ?_⟩
  · have initialized : (CommandChannel.started channel number).initialized = true := by
      unfold CommandChannel.started
      split
      · assumption
      · rfl
    rw [same]
    simp only [initialized, Progress.step, List.isEmpty_cons, Bool.not_false]
  · rw [same, next]
  · rw [held other, inOrder.held other, next]
    simp only [Progress.step, List.mem_cons]
    grind
  · have before : progress.GapOpen := by
      obtain ⟨other, member, beyond⟩ := isOpen
      rw [next] at beyond
      rcases List.mem_cons.mp member with rfl | earlier
      · omega
      · exact ⟨other, earlier, by omega⟩
    have kept : (CommandChannel.started channel number).gapSince = channel.gapSince := by
      unfold CommandChannel.started
      split <;> rfl
    rw [same]
    simp only [kept, Progress.step, before, if_true, inOrder.since before]
  · rcases List.mem_cons.mp inArrived with rfl | earlier
    · exact range
    · exact inOrder.known other earlier
  · have run_payloads : (List.range run).map (fun offset =>
          (channel.held[progress.next + 1 + offset]?).getD [])
        = (List.range run).map fun offset => (session.packet (progress.next + 1 + offset)).2 := by
      apply List.map_congr_left
      intro offset inRun
      rw [inOrder.held, if_pos ⟨behind offset (List.mem_range.mp inRun), by omega⟩,
        Option.getD_some]
    have prefix_append := session.take_payloads_append (progress.next - 1)
      (run + 1) (by omega)
    have first_index : progress.next - 1 + 1 = progress.next := by omega
    rw [List.range_succ_eq_map, List.map_cons, List.map_map, first_index] at prefix_append
    rw [delivered, inOrder.delivered, next, run_payloads, missing,
      show progress.next + 1 + run - 1 = progress.next - 1 + (run + 1) by omega, ← prefix_append]
    simp only [List.singleton_append, Function.comp_def, Nat.succ_eq_add_one, Nat.add_assoc,
      Nat.add_comm 1]

theorem step (inOrder : session.InOrder progress channel out)
    (known : session.Knows event.2) (patient : progress.Patient rttUs event)
    : session.InOrder (progress.step event) (session.step rttUs (channel, out) event).1
        (session.step rttUs (channel, out) event).2 := by
  obtain ⟨time, kind⟩ := event
  cases kind with
  | flush =>
      have waits : CommandChannel.flushExpired channel rttUs time = (channel, []) := by
        apply CommandChannel.expireLocked_waits
        intro holds
        have isOpen := inOrder.isEmpty_held.mp holds
        rw [inOrder.since isOpen]
        exact patient isOpen
      simpa only [CommandSession.step, waits, List.append_nil, Progress.step] using inOrder
  | command number =>
      obtain ⟨first, inTime⟩ := patient
      have startedNext := inOrder.started_nextExpected first
      rcases Nat.lt_trichotomy number progress.next with late | missing | ahead
      · have nonempty : progress.arrived ≠ [] :=
          List.ne_nil_of_mem (mem_of_lt_frontier (known number rfl).1 late)
        have handled := CommandChannel.handle_late (session.packet number).2 rttUs time
          (numbered_packet known) (known number rfl).1 (startedNext.symm ▸ late)
        have started : CommandChannel.started channel number = channel := by
          rw [CommandChannel.started, inOrder.initialized]
          simp [nonempty]
        simpa only [CommandSession.step, handled, started, List.append_nil]
          using inOrder.after_late known late
      · exact inOrder.after_expected known missing first
      · have handled := CommandChannel.handle_ahead (session.packet number).2 rttUs time
          (numbered_packet known) (startedNext.symm ▸ ahead)
        have held := inOrder.after_holding time known ahead first
        have waits := CommandChannel.expireLocked_waits
          (CommandChannel.holding (CommandChannel.started channel number) number
            (session.packet number).2 time)
          rttUs time []
          (by
            intro holds
            have positive := CommandChannel.wait_pos rttUs
            rw [held.since (held.isEmpty_held.mp holds)]
            simp only [Progress.step]
            split
            · exact inTime ahead ‹_›
            · simpa using positive)
        simpa only [CommandSession.step, handled, waits, List.append_nil] using held

end InOrder

namespace Skipped

/-- Draining from an expected number that is already behind stays behind. -/
theorem of_drained {start : CommandState} {before : List Bytes}
    {result : CommandState × List Bytes} {run : Nat}
    (drained : Drained start before result run) (initialized : start.initialized = true)
    (behind : out.length + before.length + 2 ≤ start.nextExpected)
    (bound : start.nextExpected ≤ session.commands.length + 1)
    (ahead : ∀ number ∈ start.held,
      start.nextExpected ≤ number ∧ number ≤ session.commands.length)
    : session.Skipped result.1 (out ++ result.2) := by
  obtain ⟨same, held, stops, members, delivered⟩ := drained
  have nextExpected : result.1.nextExpected = start.nextExpected + run := by rw [same]
  refine ⟨?_, ?_, ?_, fun number member => ?_⟩
  · rw [same]
    exact initialized
  · rw [nextExpected, delivered, List.length_append, List.length_append, List.length_map,
      List.length_range]
    omega
  · rw [nextExpected]
    cases run with
    | zero => omega
    | succ run => have last := (ahead _ (members run (by omega))).2; omega
  · rw [Std.TreeMap.mem_iff_isSome_getElem?, held number] at member
    split at member
    · cases member
    · have range := ahead number (Std.TreeMap.mem_iff_isSome_getElem?.mpr member)
      have apart : number ≠ start.nextExpected + run := by
        rintro rfl
        rw [stops] at member
        cases member
      rw [nextExpected]
      omega

/-- Passing over the gap in front of a held command leaves a delivery short. -/
theorem of_expired (out : List Bytes) {held : CommandState} {time : TimePoint}
    (initialized : held.initialized = true)
    (holds : held.held.isEmpty = false)
    (overdue : ¬time - held.gapSince < CommandChannel.wait rttUs)
    (behind : ∀ number ∈ held.held,
      out.length + 2 ≤ number ∧ number ≤ session.commands.length)
    : session.Skipped (CommandChannel.expireLocked held rttUs time []).1
        (out ++ (CommandChannel.expireLocked held rttUs time []).2) := by
  have limit := session.bounded
  have small : SmallKeys held := fun number member => by
    have bound := (behind number member).2
    omega
  obtain ⟨least, run, result, member, minimal, drained, since, expired⟩ :=
    CommandChannel.expireLocked_skips [] small holds overdue
  have range := behind least member
  have skipped : session.Skipped result.1 (out ++ result.2) :=
    of_drained drained initialized (by simpa using range.1)
      (Nat.le_succ_of_le range.2)
      fun number inHeld => ⟨minimal number inHeld, (behind number inHeld).2⟩
  rw [expired]
  exact ⟨skipped.initialized, skipped.behind, skipped.bound, skipped.ahead⟩

/-- A channel that has passed a command over never catches up. -/
theorem step (skipped : session.Skipped channel out) (known : session.Knows event.2)
    : session.Skipped (session.step rttUs (channel, out) event).1
        (session.step rttUs (channel, out) event).2 := by
  obtain ⟨time, kind⟩ := event
  have overtaken {held : CommandState} (initialized : held.initialized = true)
      (next : held.nextExpected = channel.nextExpected)
      (ahead : ∀ number ∈ held.held,
        channel.nextExpected < number ∧ number ≤ session.commands.length)
      : session.Skipped (CommandChannel.expireLocked held rttUs time []).1
          (out ++ (CommandChannel.expireLocked held rttUs time []).2) := by
    by_cases inTime : held.held.isEmpty = false → time - held.gapSince < CommandChannel.wait rttUs
    · rw [CommandChannel.expireLocked_waits _ _ _ _ inTime, List.append_nil]
      exact ⟨initialized, next ▸ skipped.behind, next ▸ skipped.bound, next ▸ ahead⟩
    · obtain ⟨holds, overdue⟩ := Classical.not_imp.mp inTime
      have behind := skipped.behind
      exact of_expired _ initialized holds overdue fun number member => by
        have range := ahead number member
        omega
  cases kind with
  | flush => exact overtaken skipped.initialized rfl skipped.ahead
  | command number =>
      have started : CommandChannel.started channel number = channel := by
        rw [CommandChannel.started, if_pos skipped.initialized]
      have range := known number rfl
      have numbered := numbered_packet known
      simp only [CommandSession.step]
      rcases Nat.lt_trichotomy number channel.nextExpected with late | same | ahead
      · rw [CommandChannel.handle_late _ _ _ numbered range.1 (started.symm ▸ late), started,
          List.append_nil]
        exact skipped
      · have limit := session.bounded
        have noWrap : u32 (channel.nextExpected + 1) = channel.nextExpected + 1 :=
          Nat.mod_eq_of_lt (by omega)
        rw [CommandChannel.handle_expected numbered range.1 (started.symm ▸ same), started, noWrap]
        obtain ⟨run, drained⟩ := CommandChannel.drainLoop_drained
          { channel with nextExpected := channel.nextExpected + 1 }
          [(session.packet number).2] (Nat.le_refl _)
          (fun other member => by have bound := (skipped.ahead other member).2; omega)
        have behind := skipped.behind
        exact of_drained drained skipped.initialized
          (by simp only [List.length_singleton]; omega) (by simp only; omega)
          fun other member => skipped.ahead other member
      · rw [CommandChannel.handle_ahead _ _ _ numbered (started.symm ▸ ahead), started]
        refine overtaken skipped.initialized rfl fun other member => ?_
        rw [Std.TreeMap.mem_iff_isSome_getElem?, CommandChannel.getElem?_holding] at member
        split at member
        · rename_i inserted
          rw [← inserted.1]
          exact ⟨ahead, range.2⟩
        · exact skipped.ahead other (Std.TreeMap.mem_iff_isSome_getElem?.mpr member)

/-- An impatient event makes a channel in order pass a command over. -/
theorem of_impatient (inOrder : session.InOrder progress channel out)
    (known : session.Knows event.2) (impatient : ¬progress.Patient rttUs event)
    : session.Skipped (session.step rttUs (channel, out) event).1
        (session.step rttUs (channel, out) event).2 := by
  obtain ⟨time, kind⟩ := event
  have length := inOrder.length_out
  cases kind with
  | flush =>
      obtain ⟨isOpen, overdue⟩ := Classical.not_imp.mp impatient
      have nonempty : progress.arrived ≠ [] := by
        obtain ⟨number, member, -⟩ := isOpen
        exact List.ne_nil_of_mem member
      refine of_expired out (by simp [inOrder.initialized, nonempty])
        (inOrder.isEmpty_held.mpr isOpen) (inOrder.since isOpen ▸ overdue) fun number member => ?_
      obtain ⟨arrived, ahead⟩ := inOrder.mem_held.mp member
      have range := inOrder.known number arrived
      omega
  | command number =>
      have range := known number rfl
      have numbered := numbered_packet known
      by_cases first : progress.arrived = [] → number = 1
      · have startedNext := inOrder.started_nextExpected first
        obtain ⟨ahead, late⟩ := Classical.not_imp.mp fun inTime => impatient ⟨first, inTime⟩
        obtain ⟨isOpen, overdue⟩ := Classical.not_imp.mp late
        have held := inOrder.after_holding time known ahead first
        have stillOpen : (progress.step (time, .command number)).GapOpen :=
          ⟨number, List.mem_cons_self, by
            rw [Progress.step_next _ (Nat.ne_of_gt ahead)]
            exact ahead⟩
        simp only [CommandSession.step]
        rw [CommandChannel.handle_ahead _ _ _ numbered (startedNext.symm ▸ ahead)]
        refine of_expired out (by simp [held.initialized, Progress.step])
          (held.isEmpty_held.mpr stillOpen) ?_ fun other member => ?_
        · rw [held.since stillOpen]
          simpa only [Progress.step, isOpen, if_true] using overdue
        · obtain ⟨arrived, beyond⟩ := held.mem_held.mp member
          rw [Progress.step_next _ (Nat.ne_of_gt ahead)] at beyond
          have bounds := held.known other arrived
          omega
      · obtain ⟨empty, other⟩ := Classical.not_imp.mp first
        have uninitialized : channel.initialized = false := by simp [inOrder.initialized, empty]
        have started : CommandChannel.started channel number
            = { channel with nextExpected := number, initialized := true } := by
          simp [CommandChannel.started, uninitialized]
        have limit := session.bounded
        have noWrap : u32 (number + 1) = number + 1 := Nat.mod_eq_of_lt (by omega)
        have none_held (other : Nat) : other ∉ channel.held := by
          rw [inOrder.mem_held, empty]
          simp
        have next : progress.next = 1 := by simp [Progress.next, empty]
        simp only [CommandSession.step]
        rw [CommandChannel.handle_expected numbered range.1 (by rw [started]), started, noWrap]
        obtain ⟨run, drained⟩ := CommandChannel.drainLoop_drained
          { channel with nextExpected := number + 1, initialized := true }
          [(session.packet number).2] (Nat.le_refl _)
          (fun other member => absurd member (none_held other))
        exact of_drained drained rfl (by simp only [List.length_singleton]; omega)
          (by simp only; omega) fun other member => absurd member (none_held other)

end Skipped

/-- A fresh channel is in order before anything has arrived. -/
theorem inOrder_reset (session : CommandSession) : session.InOrder {} (CommandChannel.reset {}) [] :=
  ⟨rfl, fun nonempty => absurd rfl nonempty, fun number => by simp [CommandChannel.reset],
    fun ⟨_, member, _⟩ => absurd member List.not_mem_nil,
    fun _ member => absurd member List.not_mem_nil,
    by simp [Progress.next]⟩

theorem InOrder.run {schedule : Schedule} (inOrder : session.InOrder progress channel out)
    (known : ∀ event ∈ schedule, session.Knows event.2)
    (patient : progress.AllPatient rttUs schedule)
    : session.InOrder (schedule.foldl Progress.step progress)
        (schedule.foldl (session.step rttUs) (channel, out)).1
        (schedule.foldl (session.step rttUs) (channel, out)).2 := by
  induction schedule generalizing progress channel out with
  | nil => exact inOrder
  | cons event rest ih =>
      have here := known event List.mem_cons_self
      exact ih (inOrder.step here patient.1)
        (fun other member => known other (List.mem_cons_of_mem _ member)) patient.2

theorem Skipped.run {schedule : Schedule} (skipped : session.Skipped channel out)
    (known : ∀ event ∈ schedule, session.Knows event.2)
    : session.Skipped (schedule.foldl (session.step rttUs) (channel, out)).1
        (schedule.foldl (session.step rttUs) (channel, out)).2 := by
  induction schedule generalizing channel out with
  | nil => exact skipped
  | cons event rest ih =>
      exact ih (skipped.step (known event List.mem_cons_self))
        fun other member => known other (List.mem_cons_of_mem _ member)

/-- One impatient event somewhere makes the channel end up short. -/
theorem InOrder.run_impatient {schedule : Schedule}
    (inOrder : session.InOrder progress channel out)
    (known : ∀ event ∈ schedule, session.Knows event.2)
    (impatient : ¬progress.AllPatient rttUs schedule)
    : session.Skipped (schedule.foldl (session.step rttUs) (channel, out)).1
        (schedule.foldl (session.step rttUs) (channel, out)).2 := by
  induction schedule generalizing progress channel out with
  | nil => exact absurd trivial impatient
  | cons event rest ih =>
      have here := known event List.mem_cons_self
      have later : ∀ other ∈ rest, session.Knows other.2 :=
        fun other member => known other (List.mem_cons_of_mem _ member)
      by_cases patient : progress.Patient rttUs event
      · exact ih (inOrder.step here patient) later fun all => impatient ⟨patient, all⟩
      · exact (Skipped.of_impatient inOrder here patient).run later

/-- Over a schedule the arrived numbers are those of its command events. -/
theorem mem_arrived_foldl {schedule : Schedule} {number : Nat}
    : number ∈ (schedule.foldl Progress.step progress).arrived
      ↔ number ∈ progress.arrived ∨ ∃ time, (time, ChannelEvent.command number) ∈ schedule := by
  induction schedule generalizing progress with
  | nil => simp
  | cons event rest ih =>
      obtain ⟨time, kind⟩ := event
      rw [List.foldl_cons, ih]
      cases kind with
      | flush => simp [Progress.step]
      | command arrived =>
          simp only [Progress.step, List.mem_cons, Prod.mk.injEq, ChannelEvent.command.injEq]
          grind

/-- A complete session is delivered, in order and each command once, exactly when the channel
never has to give a gap up: command 1 arrives first, and within every gap period no expiry
check and no arrival ahead of the gap comes after three round trips.
-/
theorem delivered_iff_allPatient (session : CommandSession) (rttUs : Nat) (schedule : Schedule)
    (complete : session.Complete schedule)
    : session.delivered rttUs schedule = session.payloads
      ↔ ({} : Progress).AllPatient rttUs schedule := by
  constructor
  · intro whole
    by_contra impatient
    have skipped := (inOrder_reset session).run_impatient complete.known impatient
    have behind := skipped.behind
    have bound := skipped.bound
    have length := congrArg List.length whole
    rw [delivered, length_payloads] at length
    omega
  · intro patient
    have inOrder := (inOrder_reset session).run complete.known patient
    have last : (schedule.foldl Progress.step {}).next = session.commands.length + 1 := by
      apply frontier_of_complete (by omega)
      · intro number low high
        exact mem_arrived_foldl.mpr (Or.inr (complete.arrives number low high))
      · exact fun number member => (inOrder.known number member).2
    rw [delivered, inOrder.delivered, last, Nat.add_sub_cancel, ← length_payloads,
      List.take_length]

/-- Two commands, each with its number as payload. -/
def twoCommands : CommandSession where
  commands := [({ sequence := 1 }, [1]), ({ sequence := 2 }, [2])]
  numbered i inRange := by
    match i with
    | 0 => rfl
    | 1 => rfl
  bounded := by decide

theorem delivered_iff_allPatient_inOrder
    : twoCommands.delivered 0 [(0, .command 1), (4, .command 2), (5, .flush)]
        = twoCommands.payloads
      ↔ ({} : Progress).AllPatient 0 [(0, .command 1), (4, .command 2), (5, .flush)] :=
  delivered_iff_allPatient twoCommands 0 [(0, .command 1), (4, .command 2), (5, .flush)]
    {
      known := by
        intro event member number same
        simp only [List.mem_cons, List.not_mem_nil, or_false] at member
        rcases member with rfl | rfl | rfl <;> cases same <;> decide
      arrives := by
        intro number low high
        have cases : number = 1 ∨ number = 2 := by
          have bound : number ≤ 2 := high
          omega
        rcases cases with rfl | rfl
        · exact ⟨0, by simp⟩
        · exact ⟨4, by simp⟩
    }

/-- When a command first arrives. -/
def firstArrival (schedule : Schedule) (number : Nat) : Option TimePoint :=
  (schedule.find? fun event => event.2 = .command number).map Prod.fst

/-- Each command arrives less than the wait after the first arrival of any later one. -/
def Timely (rttUs : Nat) (schedule : Schedule) : Prop :=
  ∀ earlier later time time', earlier < later → firstArrival schedule earlier = some time
    → firstArrival schedule later = some time' → time < time' + CommandChannel.wait rttUs

/-- Timely arrival is not enough: command 2 overtakes command 1, sets the expected number, and
command 1 is dropped when it arrives at the same instant.
-/
theorem overtaken_delivered_ne
    : twoCommands.Complete [(0, .command 2), (0, .command 1)]
      ∧ Timely 10000 [(0, .command 2), (0, .command 1)]
      ∧ twoCommands.delivered 10000 [(0, .command 2), (0, .command 1)]
        ≠ twoCommands.payloads := by
  refine ⟨⟨?_, ?_⟩, ?_, by decide +kernel⟩
  · intro event member number same
    simp only [List.mem_cons, List.not_mem_nil, or_false] at member
    rcases member with rfl | rfl <;> cases same <;> decide
  · intro number low high
    have cases : number = 1 ∨ number = 2 := by
      have bound : number ≤ 2 := high
      omega
    rcases cases with rfl | rfl <;> exact ⟨0, by simp⟩
  · intro earlier later time time' _ first second
    have zero {number : Nat} {at_ : TimePoint}
        (arrival : firstArrival [(0, .command 2), (0, .command 1)] number = some at_)
        : at_ = 0 := by
      obtain ⟨event, found, rfl⟩ := Option.map_eq_some_iff.mp arrival
      have member := List.mem_of_find?_eq_some found
      simp only [List.mem_cons, List.not_mem_nil, or_false] at member
      rcases member with rfl | rfl <;> rfl
    rw [zero first, zero second]
    exact (Int.zero_add _).symm ▸ CommandChannel.wait_pos _

end CommandSession

end Creek.Tight
