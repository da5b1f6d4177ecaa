import Creek.Framework.Cycle

/-! What becomes of a key that is marked changed. The heartbeat clears the marks and the evolver takes
them, so only those made in between reach the components, and only when nothing thrown ends the cycle
before the last component is called.
-/

namespace Creek.Framework

open Library
open Tight (Bytes)

variable {μ : Type}

-- The steps

/-- The ways a step can be taken. -/
inductive Taken (framework : Framework μ)
    : FrameworkEvent μ → Framework μ → List (FrameworkOutput μ) → Prop
  | marking (key : Bytes) : Taken framework (.beginMark key) (framework.beginMark key) []
  | marked (key : Bytes) (marking : key ∈ framework.marking)
      : Taken framework (.markChanged key) (framework.markChanged key) []
  | corrupted (changedKeys : Std.TreeSet Bytes) (raced : framework.raced = true)
      : Taken framework (.corrupt changedKeys) { framework with changedKeys := changedKeys } []
  | sent (channel : Channel) (message : μ)
      : Taken framework (.send channel message)
          (framework.sendAll channel [{ origin := none, message := message }]) []
  | registered (channel : Channel) (idle : framework.phase = .idle)
      : Taken framework (.registerInputChannel channel) (framework.registerInputChannel channel) []
  | ticking (enabled : Bool) (idle : framework.phase = .idle)
      : Taken framework (.setGenerateTick enabled) { framework with generateTick := enabled } []
  | begun (tick : μ) (idle : framework.phase = .idle)
      : Taken framework (.beat tick) (framework.beat tick).1 [.batch (framework.beat tick).2]
  | processed (newMessages : List μ) (processing : framework.phase = .processing)
      : Taken framework (.processed newMessages) { framework with phase := .beaten newMessages } []
  | swapped (newMessages : List μ) (beaten : framework.phase = .beaten newMessages)
      : Taken framework .swapChangedKeys (framework.swapChangedKeys newMessages) []
  | evolved (newMessages more : List μ) (changedKeys : List Bytes) (component : Nat)
      (waiting : List Nat)
      (evolving : framework.phase = .evolving newMessages changedKeys (component :: waiting))
      : Taken framework (.evolved more)
          { framework with phase := .evolving (newMessages ++ more) changedKeys waiting }
          [.evolve component changedKeys]
  | processorThrew (newMessages : List μ) (processing : framework.phase = .processing)
      : Taken framework (.threw newMessages) { framework with phase := .idle } []
  | componentThrew (newMessages more : List μ) (changedKeys : List Bytes) (component : Nat)
      (waiting : List Nat)
      (evolving : framework.phase = .evolving newMessages changedKeys (component :: waiting))
      : Taken framework (.threw more) { framework with phase := .idle } [.evolve component changedKeys]
  | executed (newMessages : List μ) (changedKeys : List Bytes)
      (evolving : framework.phase = .evolving newMessages changedKeys [])
      : Taken framework .execute (framework.execute newMessages) []

theorem taken_of_step {framework after : Framework μ} {event : FrameworkEvent μ}
    {outputs : List (FrameworkOutput μ)} (stepped : framework.step event = .ok (after, outputs))
    : Taken framework event after outputs := by
  simp only [step] at stepped
  split at stepped
  case h_2 =>
    split at stepped <;> cases stepped
    exact .marked _ ‹_›
  case h_3 =>
    split at stepped <;> cases stepped
    exact .corrupted _ ‹_›
  all_goals cases stepped
  · exact .marking _
  · exact .sent _ _
  · exact .registered _ ‹_›
  · exact .ticking _ ‹_›
  · exact .begun _ ‹_›
  · exact .processed _ ‹_›
  · exact .swapped _ ‹_›
  · exact .evolved _ _ _ _ _ ‹_›
  · exact .processorThrew _ ‹_›
  · exact .componentThrew _ _ _ _ _ ‹_›
  · exact .executed _ _ ‹_›

-- Marks and notices

/-- Between the clearing by the heartbeat and the swap by the evolver. -/
def Phase.noticing : Phase μ → Bool
  | .processing => true
  | .beaten _ => true
  | _ => false

variable {framework after last : Framework μ} {event : FrameworkEvent μ}
  {outputs : List (FrameworkOutput μ)} {history : List (FrameworkStage μ)}
  {stage : FrameworkStage μ} {cycle component components : Nat} {key : Bytes}

/-- Some component is not called if the code that is running throws. -/
def Phase.owing : Phase μ → Bool
  | .processing => true
  | .evolving _ _ (_ :: waiting) => !waiting.isEmpty
  | _ => false

/-- The event begins an access to the changed keys while a mark is being made. -/
def Overlaps (framework : Framework μ) : FrameworkEvent μ → Prop
  | .beginMark _ => framework.marking ≠ []
  | .beat _ => framework.marking ≠ []
  | .swapChangedKeys => framework.marking ≠ []
  | _ => False

/-- The key is marked in the cycle before the evolver takes the marks. -/
def MarkedIn (history : List (FrameworkStage μ)) (cycle : Nat) (key : Bytes) : Prop :=
  ∃ stage ∈ history, stage.event = .markChanged key ∧ stage.before.cycle = cycle
    ∧ stage.before.phase.noticing = true

/-- The processor throws in the cycle, or a component does while others wait behind it. -/
def Cut (history : List (FrameworkStage μ)) (cycle : Nat) : Prop :=
  ∃ stage ∈ history, stage.before.cycle = cycle ∧ stage.before.phase.owing = true
    ∧ ∃ newMessages, stage.event = .threw newMessages

/-- The key is marked in time in the cycle, and nothing thrown cuts the cycle short. -/
def MarkedInTime (history : List (FrameworkStage μ)) (cycle : Nat) (key : Bytes) : Prop :=
  MarkedIn history cycle key ∧ ¬Cut history cycle

/-- A component is passed the key in the cycle. -/
def Passed (history : List (FrameworkStage μ)) (cycle component : Nat) (key : Bytes) : Prop :=
  ∃ stage ∈ history, stage.before.cycle = cycle
    ∧ ∃ keys, .evolve component keys ∈ stage.outputs ∧ key ∈ keys

/-- Every component is passed the key in the cycle. -/
def Notified (components : Nat) (history : List (FrameworkStage μ)) (cycle : Nat) (key : Bytes)
    : Prop :=
  ∀ component < components, Passed history cycle component key

/-- The cycle is over. -/
def Over (framework : Framework μ) (cycle : Nat) : Prop :=
  cycle < framework.cycle ∨ cycle = framework.cycle ∧ framework.phase = .idle

/-- Every key that is marked is passed to every component in the cycle under way or in the next one, once
that is over.
-/
def NoticesKept (history : List (FrameworkStage μ)) (last : Framework μ) : Prop :=
  ∀ stage ∈ history, ∀ key, stage.event = .markChanged key
    → Over last (stage.before.cycle + 1)
    → stage.before.phase ≠ .idle ∧ Notified last.components history stage.before.cycle key
      ∨ Notified last.components history (stage.before.cycle + 1) key

/-- Every key that is marked is also marked before the evolver takes the marks of the cycle under way or
of the next one, once that is over, and nothing thrown cuts that cycle short.
-/
def MarksRenewed (history : List (FrameworkStage μ)) (last : Framework μ) : Prop :=
  ∀ stage ∈ history, ∀ key, stage.event = .markChanged key
    → Over last (stage.before.cycle + 1)
    → stage.before.phase ≠ .idle ∧ MarkedInTime history stage.before.cycle key
      ∨ MarkedInTime history (stage.before.cycle + 1) key

theorem markedIn_append
    : MarkedIn (history ++ [stage]) cycle key
      ↔ MarkedIn history cycle key
        ∨ stage.event = .markChanged key ∧ stage.before.cycle = cycle
          ∧ stage.before.phase.noticing = true := by
  simp only [MarkedIn, List.mem_append, List.mem_singleton, or_and_right, exists_or, exists_eq_left]

theorem passed_append
    : Passed (history ++ [stage]) cycle component key
      ↔ Passed history cycle component key
        ∨ stage.before.cycle = cycle ∧ ∃ keys, .evolve component keys ∈ stage.outputs ∧ key ∈ keys := by
  simp only [Passed, List.mem_append, List.mem_singleton, or_and_right, exists_or, exists_eq_left]

theorem cut_append
    : Cut (history ++ [stage]) cycle
      ↔ Cut history cycle
        ∨ stage.before.cycle = cycle ∧ stage.before.phase.owing = true
          ∧ ∃ newMessages, stage.event = .threw newMessages := by
  simp only [Cut, List.mem_append, List.mem_singleton, or_and_right, exists_or, exists_eq_left]

theorem Notified.append (notified : Notified components history cycle key)
    : Notified components (history ++ [stage]) cycle key :=
  fun component bound => passed_append.mpr (.inl (notified component bound))

/-- What is known of the marks and the notices between any two steps. -/
structure Tracks (components : Nat) (history : List (FrameworkStage μ)) (framework : Framework μ)
    : Prop where
  same : framework.components = components
  unraced : framework.raced = false
  counted : ∀ stage ∈ history, stage.before.cycle ≤ framework.cycle
  unpassed : framework.phase.noticing = true
    → ∀ component key, ¬Passed history framework.cycle component key
  marked : framework.phase.noticing = true
    → ∀ key, key ∈ framework.changedKeys ↔ MarkedIn history framework.cycle key
  evolving : ∀ newMessages keys waiting, framework.phase = .evolving newMessages keys waiting
    → (∀ key, key ∈ keys ↔ MarkedIn history framework.cycle key)
      ∧ ∀ component < components, component ∈ waiting
        ∨ ∀ key ∈ keys, Passed history framework.cycle component key
  waiting : ∀ newMessages keys waiting, framework.phase = .evolving newMessages keys waiting
    → waiting.Nodup
      ∧ ∀ component ∈ waiting, component < components
        ∧ ∀ key, ¬Passed history framework.cycle component key
  cut : 0 < components → ∀ cycle, Cut history cycle
    → Over framework cycle
      ∧ ∃ component < components, ∀ key, ¬Passed history cycle component key
  passed : ∀ cycle component key, Passed history cycle component key → MarkedIn history cycle key
  finished : ∀ cycle, Over framework cycle → ∀ key, MarkedInTime history cycle key
    → Notified components history cycle key

theorem Tracks.start : Tracks components ([] : List (FrameworkStage μ)) { components := components } where
  same := rfl
  unraced := rfl
  counted := fun _ => nofun
  unpassed := nofun
  marked := nofun
  evolving := fun _ _ _ => nofun
  waiting := fun _ _ _ => nofun
  cut := fun _ _ ⟨_, member, _⟩ => absurd member List.not_mem_nil
  passed := fun _ _ _ ⟨_, member, _⟩ => absurd member List.not_mem_nil
  finished := fun _ _ _ ⟨⟨_, member, _⟩, _⟩ => absurd member List.not_mem_nil

/-- A step that marks nothing, or marks too late, leaves the marks as they were. -/
theorem markedIn_append_of_unnoticed
    (unnoticed : stage.event ≠ .markChanged key ∨ stage.before.phase.noticing = false)
    : MarkedIn (history ++ [stage]) cycle key ↔ MarkedIn history cycle key := by
  rw [markedIn_append, or_iff_left]
  rintro ⟨marks, -, noticing⟩
  rcases unnoticed with other | late
  · exact other marks
  · cases noticing.symm.trans late

/-- A step that passes nothing leaves the notices as they were. -/
theorem passed_append_of_silent
    (silent : ∀ keys, .evolve component keys ∉ stage.outputs)
    : Passed (history ++ [stage]) cycle component key ↔ Passed history cycle component key := by
  rw [passed_append, or_iff_left]
  rintro ⟨-, keys, member, -⟩
  exact silent keys member

theorem cut_append_of_caught (caught : ∀ newMessages, stage.event ≠ .threw newMessages)
    : Cut (history ++ [stage]) cycle ↔ Cut history cycle := by
  rw [cut_append, or_iff_left]
  rintro ⟨-, -, newMessages, throws⟩
  exact caught newMessages throws

/-- What a step that marks nothing in time leaves marked in time was so before. -/
theorem MarkedInTime.of_append (marked : MarkedInTime (history ++ [stage]) cycle key)
    (unnoticed : stage.event ≠ .markChanged key ∨ stage.before.phase.noticing = false)
    : MarkedInTime history cycle key :=
  ⟨(markedIn_append_of_unnoticed unnoticed).mp marked.1, fun cut => marked.2 (cut_append.mpr (.inl cut))⟩

/-- The cycles of the steps so far have begun, also with one step more. -/
theorem counted_append
    (counted : ∀ earlier ∈ history, earlier.before.cycle ≤ framework.cycle)
    (before : stage.before = framework) (onward : framework.cycle ≤ after.cycle)
    : ∀ earlier ∈ history ++ [stage], earlier.before.cycle ≤ after.cycle := by
  intro earlier member
  rcases List.mem_append.mp member with member | member
  · exact Nat.le_trans (counted earlier member) onward
  · rw [List.mem_singleton.mp member, before]
    exact onward

/-- A cycle that is over while another one is under way is an earlier one. -/
theorem Over.past (finished : Over framework cycle) (busy : framework.phase ≠ .idle)
    : cycle < framework.cycle :=
  finished.resolve_right fun now => busy now.2

theorem Tracks.unpassed_future (tracks : Tracks components history framework)
    (future : framework.cycle < cycle)
    : ¬Passed history cycle component key := by
  rintro ⟨passing, member, same, -⟩
  exact Nat.not_lt.mpr (tracks.counted passing member) (same ▸ future)

theorem Tracks.passed_append (tracks : Tracks components history framework)
    (silent : ∀ component keys, .evolve component keys ∉ stage.outputs)
    : ∀ cycle component key, Passed (history ++ [stage]) cycle component key
      → MarkedIn (history ++ [stage]) cycle key :=
  fun cycle component key passed =>
    markedIn_append.mpr
      (.inl (tracks.passed cycle component key
        ((passed_append_of_silent (silent component)).mp passed)))

theorem Tracks.passed_evolve (tracks : Tracks components history framework) {newMessages : List μ}
    {changedKeys : List Bytes} {waiting : List Nat} (before : stage.before = framework)
    (outputs : stage.outputs = [.evolve component changedKeys])
    (evolving : framework.phase = .evolving newMessages changedKeys waiting)
    : ∀ cycle other key, Passed (history ++ [stage]) cycle other key
      → MarkedIn (history ++ [stage]) cycle key := by
  intro cycle other key passed
  refine markedIn_append.mpr (.inl ?_)
  rcases Framework.passed_append.mp passed with earlier | ⟨same, keys, member, inKeys⟩
  · exact tracks.passed cycle other key earlier
  · rw [outputs] at member
    cases List.mem_singleton.mp member
    rw [← same, before]
    exact ((tracks.evolving _ _ _ evolving).1 key).mp inKeys

/-- A cycle cut short stays over, and a component stays without notice in it. -/
theorem Tracks.cut_append (tracks : Tracks components history framework)
    (caught : ∀ newMessages, stage.event ≠ .threw newMessages)
    (stays : ∀ cycle, Over framework cycle → Over after cycle)
    (passing : ∀ cycle component key, Over framework cycle
      → Passed (history ++ [stage]) cycle component key
      → Passed history cycle component key)
    (some_ : 0 < components)
    : ∀ cycle, Cut (history ++ [stage]) cycle
      → Over after cycle
        ∧ ∃ component < components, ∀ key, ¬Passed (history ++ [stage]) cycle component key := by
  intro cycle cut
  obtain ⟨finished, component, bound, never⟩ :=
    tracks.cut some_ cycle ((cut_append_of_caught caught).mp cut)
  exact ⟨stays cycle finished, component, bound, fun key passed =>
    never key (passing cycle component key finished passed)⟩

/-- In a busy framework only the cycle under way gets notices. -/
theorem passed_of_busy (before : stage.before = framework) (busy : framework.phase ≠ .idle)
    (finished : Over framework cycle) (passed : Passed (history ++ [stage]) cycle component key)
    : Passed history cycle component key := by
  rcases passed_append.mp passed with earlier | ⟨same, -⟩
  · exact earlier
  · rw [before] at same
    exact absurd same.symm (Nat.ne_of_lt (finished.past busy))

/-- A step inside a cycle that throws nothing leaves the cycles cut short as they were. -/
theorem Tracks.cut_within (tracks : Tracks components history framework)
    (before : stage.before = framework) (busy : framework.phase ≠ .idle)
    (caught : ∀ newMessages, stage.event ≠ .threw newMessages)
    (sameCycle : after.cycle = framework.cycle) (some_ : 0 < components)
    : ∀ cycle, Cut (history ++ [stage]) cycle
      → Over after cycle
        ∧ ∃ component < components, ∀ key, ¬Passed (history ++ [stage]) cycle component key :=
  tracks.cut_append caught (fun _ finished => .inl (sameCycle ▸ finished.past busy))
    (fun _ _ _ => passed_of_busy before busy) some_

/-- In the cycles before the one under way all that was marked in time stays notified. -/
theorem Tracks.finished_past (tracks : Tracks components history framework)
    (silent : ∀ key, stage.event ≠ .markChanged key) (past : cycle < framework.cycle)
    (marked : MarkedInTime (history ++ [stage]) cycle key)
    : Notified components (history ++ [stage]) cycle key :=
  (tracks.finished cycle (.inl past) key (marked.of_append (.inl (silent key)))).append

/-- A step that neither marks nor passes keys, throws nothing, nor begins or ends the noticing. -/
theorem Tracks.quiet (tracks : Tracks components history framework)
    (silent : ∀ key, stage.event ≠ .markChanged key)
    (caught : ∀ newMessages, stage.event ≠ .threw newMessages)
    (nothing : ∀ component keys, .evolve component keys ∉ stage.outputs)
    (before : stage.before = framework)
    (sameComponents : after.components = framework.components)
    (raced : after.raced = framework.raced) (keys : after.changedKeys = framework.changedKeys)
    (sameCycle : after.cycle = framework.cycle)
    (noticing : after.phase.noticing = framework.phase.noticing)
    (evolving : ∀ newMessages keys waiting, after.phase = .evolving newMessages keys waiting
      → framework.phase = .evolving newMessages keys waiting)
    (idle : after.phase = .idle ↔ framework.phase = .idle)
    : Tracks components (history ++ [stage]) after where
  same := sameComponents.trans tracks.same
  unraced := raced.trans tracks.unraced
  counted := counted_append tracks.counted before (Nat.le_of_eq sameCycle.symm)
  unpassed := by
    intro notices component key
    rw [passed_append_of_silent (nothing component), sameCycle]
    exact tracks.unpassed (noticing.symm.trans notices) component key
  marked := by
    intro notices key
    rw [markedIn_append_of_unnoticed (.inl (silent key)), keys, sameCycle]
    exact tracks.marked (noticing.symm.trans notices) key
  evolving := by
    intro newMessages keys waiting phase
    obtain ⟨marks, passes⟩ := tracks.evolving _ _ _ (evolving _ _ _ phase)
    rw [sameCycle]
    refine ⟨fun key => ?_, fun component bound => ?_⟩
    · rw [markedIn_append_of_unnoticed (.inl (silent key)), marks]
    · exact (passes component bound).imp_right fun all key member =>
        (passed_append_of_silent (nothing component)).mpr (all key member)
  waiting := by
    intro newMessages keys waiting phase
    obtain ⟨distinct, unpassed⟩ := tracks.waiting _ _ _ (evolving _ _ _ phase)
    rw [sameCycle]
    refine ⟨distinct, fun component waits => ⟨(unpassed component waits).1, fun key => ?_⟩⟩
    rw [passed_append_of_silent (nothing component)]
    exact (unpassed component waits).2 key
  cut := by
    refine tracks.cut_append caught (fun cycle finished => ?_) fun _ component _ _ =>
      (passed_append_of_silent (nothing component)).mp
    rwa [Over, sameCycle, idle]
  passed := tracks.passed_append nothing
  finished := by
    intro cycle finished key marked
    rw [Over, sameCycle, idle] at finished
    exact (tracks.finished cycle finished key (marked.of_append (.inl (silent key)))).append

theorem Tracks.mark (tracks : Tracks components history framework) (key : Bytes)
    (before : stage.before = framework) (event : stage.event = .markChanged key)
    (nothing : stage.outputs = [])
    : Tracks components (history ++ [stage]) (framework.markChanged key) := by
  have silent (component : Nat) (keys : List Bytes) : .evolve component keys ∉ stage.outputs := by
    rw [nothing]
    exact List.not_mem_nil
  have caught (newMessages : List μ) : stage.event ≠ .threw newMessages := by
    rw [event]
    nofun
  exact {
    same := tracks.same
    unraced := tracks.unraced
    counted := counted_append tracks.counted before (Nat.le_refl _)
    unpassed := fun notices component key => by
      rw [passed_append_of_silent (silent component)]
      exact tracks.unpassed notices component key
    marked := by
      intro notices other
      show other ∈ framework.changedKeys.insert key ↔ MarkedIn (history ++ [stage]) framework.cycle other
      rw [markedIn_append, event, before, Std.TreeSet.mem_insert, Std.LawfulEqCmp.compare_eq_iff_eq,
        ← tracks.marked notices other, or_comm]
      refine or_congr_right ⟨fun same => ⟨same ▸ rfl, rfl, notices⟩, fun marks => ?_⟩
      exact FrameworkEvent.markChanged.inj marks.1
    evolving := by
      intro newMessages keys waiting phase
      have late : stage.before.phase.noticing = false := by
        rw [before, show framework.phase = _ from phase]
        rfl
      obtain ⟨marks, passes⟩ := tracks.evolving _ _ _ phase
      refine ⟨fun key => ?_, fun component bound => ?_⟩
      · rw [markedIn_append_of_unnoticed (.inr late)]
        exact marks key
      · exact (passes component bound).imp_right fun all key member =>
          Framework.passed_append.mpr (.inl (all key member))
    waiting := by
      intro newMessages keys waiting phase
      obtain ⟨distinct, unpassed⟩ := tracks.waiting _ _ _ phase
      refine ⟨distinct, fun component waits => ⟨(unpassed component waits).1, fun key => ?_⟩⟩
      rw [passed_append_of_silent (silent component)]
      exact (unpassed component waits).2 key
    cut := tracks.cut_append caught (fun _ => id) fun _ component _ _ =>
      (passed_append_of_silent (silent component)).mp
    passed := tracks.passed_append silent
    finished := by
      intro cycle finished other marked
      rcases markedIn_append.mp marked.1 with earlier | ⟨-, same, notices⟩
      · exact (tracks.finished cycle finished other
          ⟨earlier, fun cut => marked.2 (Framework.cut_append.mpr (.inl cut))⟩).append
      · rw [before] at same notices
        rcases finished with past | ⟨-, idle⟩
        · exact absurd same.symm (Nat.ne_of_lt past)
        · rw [show framework.phase = _ from idle] at notices
          cases notices
  }

theorem Tracks.begun (tracks : Tracks components history framework) (tick : μ)
    (before : stage.before = framework) (event : stage.event = .beat tick)
    (nothing : ∀ component keys, .evolve component keys ∉ stage.outputs)
    (idle : framework.phase = .idle) (unmarked : framework.marking = [])
    : Tracks components (history ++ [stage]) (framework.beat tick).1 := by
  have earlier {cycle : Nat} (finished : Over (framework.beat tick).1 cycle) : Over framework cycle := by
    rcases finished with past | ⟨-, busy⟩
    · exact (Nat.lt_or_eq_of_le (Nat.le_of_lt_succ past)).imp_right fun same => ⟨same, idle⟩
    · cases busy
  have later {cycle : Nat} (finished : Over framework cycle) : Over (framework.beat tick).1 cycle :=
    .inl (finished.elim Nat.lt_succ_of_lt fun now => Nat.lt_succ_of_le (Nat.le_of_eq now.1))
  exact {
    same := tracks.same
    unraced := by
      show (framework.raced || !framework.marking.isEmpty) = false
      rw [tracks.unraced, unmarked]
      rfl
    counted := counted_append tracks.counted before (Nat.le_succ _)
    unpassed := fun _ component key => by
      rw [passed_append_of_silent (nothing component)]
      exact tracks.unpassed_future (Nat.lt_succ_self _)
    marked := by
      intro notices key
      rw [markedIn_append_of_unnoticed (.inl (by rw [event]; nofun))]
      refine iff_of_false Std.TreeSet.not_mem_emptyc ?_
      rintro ⟨marking, member, -, cycle, -⟩
      exact absurd cycle (Nat.ne_of_lt (Nat.lt_succ_of_le (tracks.counted marking member)))
    evolving := fun _ _ _ => nofun
    waiting := fun _ _ _ => nofun
    cut := tracks.cut_append (by rw [event]; nofun) (fun _ => later) fun _ component _ _ =>
      (passed_append_of_silent (nothing component)).mp
    passed := tracks.passed_append nothing
    finished := fun cycle finished key marked =>
      (tracks.finished cycle (earlier finished) key
        (marked.of_append (.inl (by rw [event]; nofun)))).append
  }

theorem Tracks.swapped (tracks : Tracks components history framework) (newMessages : List μ)
    (before : stage.before = framework) (event : stage.event = .swapChangedKeys)
    (nothing : ∀ component keys, .evolve component keys ∉ stage.outputs)
    (beaten : framework.phase = .beaten newMessages) (unmarked : framework.marking = [])
    : Tracks components (history ++ [stage]) (framework.swapChangedKeys newMessages) := by
  have busy : framework.phase ≠ .idle := by rw [beaten]; nofun
  have noticing : framework.phase.noticing = true := by rw [beaten]; rfl
  exact {
    same := tracks.same
    unraced := by
      show (framework.raced || !framework.marking.isEmpty) = false
      rw [tracks.unraced, unmarked]
      rfl
    counted := counted_append tracks.counted before (Nat.le_refl _)
    unpassed := nofun
    marked := nofun
    evolving := by
      intro messages keys waiting phase
      cases phase
      refine ⟨fun key => ?_, fun component bound => ?_⟩
      · rw [markedIn_append_of_unnoticed (.inl (by rw [event]; nofun)), Std.TreeSet.mem_toList]
        exact tracks.marked noticing key
      · split
        · rename_i empty
          refine .inr fun key member => ?_
          rw [List.isEmpty_iff.mp empty] at member
          cases member
        · rw [tracks.same]
          exact .inl (List.mem_range.mpr bound)
    waiting := by
      intro messages keys waiting phase
      cases phase
      split
      · exact ⟨.nil, fun _ => nofun⟩
      · refine ⟨List.nodup_range, fun component waits => ⟨?_, fun key => ?_⟩⟩
        · rw [← tracks.same]
          exact List.mem_range.mp waits
        · rw [passed_append_of_silent (nothing component)]
          exact tracks.unpassed noticing component key
    cut := tracks.cut_within before busy (by rw [event]; nofun) rfl
    passed := tracks.passed_append nothing
    finished := fun _ done _ => tracks.finished_past (by rw [event]; nofun) (done.past nofun)
  }

theorem Tracks.evolved (tracks : Tracks components history framework) (newMessages more : List μ)
    (changedKeys : List Bytes) (waiting : List Nat)
    (before : stage.before = framework) (event : stage.event = .evolved more)
    (outputs : stage.outputs = [.evolve component changedKeys])
    (evolving : framework.phase = .evolving newMessages changedKeys (component :: waiting))
    : Tracks components (history ++ [stage])
        { framework with phase := .evolving (newMessages ++ more) changedKeys waiting } := by
  have busy : framework.phase ≠ .idle := by rw [evolving]; nofun
  exact {
    same := tracks.same
    unraced := tracks.unraced
    counted := counted_append tracks.counted before (Nat.le_refl _)
    unpassed := nofun
    marked := nofun
    evolving := by
      intro messages keys later phase
      cases phase
      obtain ⟨marks, passes⟩ := tracks.evolving _ _ _ evolving
      refine ⟨fun key => ?_, fun other bound => ?_⟩
      · rw [markedIn_append_of_unnoticed (.inl (by rw [event]; nofun))]
        exact marks key
      · rcases passes other bound with still | done
        · rcases List.mem_cons.mp still with rfl | still
          · refine .inr fun key member =>
              Framework.passed_append.mpr (.inr ⟨by rw [before], _, ?_, member⟩)
            rw [outputs]
            exact List.mem_cons_self
          · exact .inl still
        · exact .inr fun key member => Framework.passed_append.mpr (.inl (done key member))
    waiting := by
      intro messages keys later phase
      cases phase
      obtain ⟨distinct, unpassed⟩ := tracks.waiting _ _ _ evolving
      refine ⟨distinct.of_cons, fun other waits => ?_⟩
      obtain ⟨bound, never⟩ := unpassed other (.tail _ waits)
      refine ⟨bound, fun key passed => ?_⟩
      rcases Framework.passed_append.mp passed with earlier | ⟨-, keys, member, -⟩
      · exact never key earlier
      · rw [outputs] at member
        cases List.mem_singleton.mp member
        exact (List.nodup_cons.mp distinct).1 waits
    cut := tracks.cut_within before busy (by rw [event]; nofun) rfl
    passed := tracks.passed_evolve before outputs evolving
    finished := fun _ done _ => tracks.finished_past (by rw [event]; nofun) (done.past nofun)
  }

/-- A step that ends the cycle, if what was marked in time in it is notified, and some component without
notice if it cuts the cycle short.
-/
theorem Tracks.ended (tracks : Tracks components history framework) (before : stage.before = framework)
    (busy : framework.phase ≠ .idle) (silent : ∀ key, stage.event ≠ .markChanged key)
    (sameComponents : after.components = framework.components)
    (raced : after.raced = framework.raced) (sameCycle : after.cycle = framework.cycle)
    (idle : after.phase = .idle)
    (passed : ∀ cycle component key, Passed (history ++ [stage]) cycle component key
      → MarkedIn (history ++ [stage]) cycle key)
    (cut : 0 < components → framework.phase.owing = true
      → ∀ newMessages, stage.event = .threw newMessages
      → ∃ component < components, ∀ key, ¬Passed (history ++ [stage]) framework.cycle component key)
    (finished : ∀ key, MarkedInTime (history ++ [stage]) framework.cycle key
      → Notified components (history ++ [stage]) framework.cycle key)
    : Tracks components (history ++ [stage]) after where
  same := sameComponents.trans tracks.same
  unraced := raced.trans tracks.unraced
  counted := counted_append tracks.counted before (Nat.le_of_eq sameCycle.symm)
  unpassed := by rw [idle]; nofun
  marked := by rw [idle]; nofun
  evolving := by rw [idle]; exact fun _ _ _ => nofun
  waiting := by rw [idle]; exact fun _ _ _ => nofun
  cut := by
    intro some_ cycle cuts
    rcases Framework.cut_append.mp cuts with earlier | ⟨same, owing, newMessages, throws⟩
    · obtain ⟨done, component, bound, never⟩ := tracks.cut some_ cycle earlier
      exact ⟨.inl (sameCycle ▸ done.past busy), component, bound, fun key passed =>
        never key (passed_of_busy before busy done passed)⟩
    · rw [before] at same owing
      rw [← same]
      exact ⟨.inr ⟨sameCycle.symm, idle⟩, cut some_ owing newMessages throws⟩
  passed := passed
  finished := by
    intro cycle done key marked
    rcases done with past | ⟨same, -⟩
    · exact tracks.finished_past silent (sameCycle ▸ past) marked
    · rw [same, sameCycle] at marked ⊢
      exact finished key marked

/-- The processor throws: the cycle is over and no component has been called. -/
theorem Tracks.processorThrew (tracks : Tracks components history framework) (newMessages : List μ)
    (before : stage.before = framework) (event : stage.event = .threw newMessages)
    (nothing : ∀ component keys, .evolve component keys ∉ stage.outputs)
    (processing : framework.phase = .processing)
    : Tracks components (history ++ [stage]) { framework with phase := .idle } := by
  have noticing : framework.phase.noticing = true := by rw [processing]; rfl
  refine tracks.ended before (by rw [processing]; nofun) (by rw [event]; nofun) rfl rfl rfl rfl
    (tracks.passed_append nothing) ?_ ?_
  · intro some_ _ _ _
    refine ⟨0, some_, fun key => ?_⟩
    rw [passed_append_of_silent (nothing 0)]
    exact tracks.unpassed noticing 0 key
  · intro key marked
    refine absurd (Framework.cut_append.mpr (.inr ⟨by rw [before], ?_, newMessages, event⟩)) marked.2
    rw [before, processing]
    rfl

/-- A component throws: it was passed the keys, and the ones behind it will not be. -/
theorem Tracks.componentThrew (tracks : Tracks components history framework) (newMessages more : List μ)
    (changedKeys : List Bytes) (waiting : List Nat)
    (before : stage.before = framework) (event : stage.event = .threw more)
    (outputs : stage.outputs = [.evolve component changedKeys])
    (evolving : framework.phase = .evolving newMessages changedKeys (component :: waiting))
    : Tracks components (history ++ [stage]) { framework with phase := .idle } := by
  obtain ⟨distinct, unpassed⟩ := tracks.waiting _ _ _ evolving
  refine tracks.ended before (by rw [evolving]; nofun) (by rw [event]; nofun) rfl rfl rfl rfl
    (tracks.passed_evolve before outputs evolving) ?_ ?_
  · intro _ owing _ _
    rw [evolving] at owing
    obtain ⟨next, rest, rfl⟩ := List.exists_cons_of_ne_nil (by simpa [Phase.owing] using owing)
    obtain ⟨bound, never⟩ := unpassed next (.tail _ (.head _))
    refine ⟨next, bound, fun key passed => ?_⟩
    rcases Framework.passed_append.mp passed with earlier | ⟨-, keys, member, -⟩
    · exact never key earlier
    · rw [outputs] at member
      cases List.mem_singleton.mp member
      exact (List.nodup_cons.mp distinct).1 (.head _)
  · intro key marked other bound
    have inTime : MarkedInTime history framework.cycle key :=
      marked.of_append (.inl (by rw [event]; nofun))
    obtain ⟨marks, passes⟩ := tracks.evolving _ _ _ evolving
    rcases passes other bound with still | done
    · rcases List.mem_cons.mp still with rfl | behind
      · refine Framework.passed_append.mpr
          (.inr ⟨by rw [before], changedKeys, ?_, (marks key).mpr inTime.1⟩)
        rw [outputs]
        exact List.mem_cons_self
      · refine absurd (Framework.cut_append.mpr (.inr ⟨by rw [before], ?_, more, event⟩)) marked.2
        rw [before, evolving]
        cases behind <;> rfl
    · exact Framework.passed_append.mpr (.inl (done key ((marks key).mpr inTime.1)))

theorem Tracks.executed (tracks : Tracks components history framework) (newMessages : List μ)
    (changedKeys : List Bytes) (before : stage.before = framework) (event : stage.event = .execute)
    (nothing : ∀ component keys, .evolve component keys ∉ stage.outputs)
    (evolving : framework.phase = .evolving newMessages changedKeys [])
    : Tracks components (history ++ [stage]) (framework.execute newMessages) := by
  refine tracks.ended before (by rw [evolving]; nofun) (by rw [event]; nofun) rfl rfl rfl rfl
    (tracks.passed_append nothing) (by rw [event]; exact fun _ _ _ => nofun) ?_
  intro key marked component bound
  have inTime : MarkedInTime history framework.cycle key :=
    marked.of_append (.inl (by rw [event]; nofun))
  obtain ⟨marks, passes⟩ := tracks.evolving _ _ _ evolving
  rcases passes component bound with still | done
  · cases still
  · exact Framework.passed_append.mpr (.inl (done key ((marks key).mpr inTime.1)))

/-- One step keeps track of the marks and the notices, unless it overlaps a mark being made. -/
theorem step_tracks (tracks : Tracks components history framework)
    (apart : ¬Overlaps framework event)
    (stepped : framework.step event = .ok (after, outputs))
    : Tracks components
        (history ++ [{ before := framework, event := event, outputs := outputs }]) after := by
  cases taken_of_step stepped with
  | marking key =>
      have unmarked : framework.marking = [] := not_not.mp apart
      refine tracks.quiet nofun nofun nofun rfl rfl ?_ rfl rfl rfl (fun _ _ _ => id) .rfl
      show (framework.raced || !framework.marking.isEmpty) = framework.raced
      rw [unmarked]
      exact Bool.or_false _
  | marked key marking => exact tracks.mark key rfl rfl rfl
  | corrupted changedKeys raced => cases tracks.unraced.symm.trans raced
  | sent channel message =>
      exact tracks.quiet nofun nofun nofun rfl rfl rfl rfl rfl rfl (fun _ _ _ => id) .rfl
  | registered channel idle =>
      exact tracks.quiet nofun nofun nofun rfl rfl rfl rfl rfl rfl (fun _ _ _ => id) .rfl
  | ticking enabled idle =>
      exact tracks.quiet nofun nofun nofun rfl rfl rfl rfl rfl rfl (fun _ _ _ => id) .rfl
  | begun tick idle => exact tracks.begun tick rfl rfl (by simp) idle (not_not.mp apart)
  | processed newMessages processing =>
      have busy : framework.phase ≠ .idle := by rw [processing]; nofun
      exact tracks.quiet nofun nofun nofun rfl rfl rfl rfl rfl (by rw [processing]; rfl)
        (fun _ _ _ => nofun) (iff_of_false nofun busy)
  | swapped newMessages beaten =>
      exact tracks.swapped newMessages rfl rfl nofun beaten (not_not.mp apart)
  | evolved newMessages more changedKeys component waiting evolving =>
      exact tracks.evolved newMessages more changedKeys waiting rfl rfl rfl evolving
  | processorThrew newMessages processing =>
      exact tracks.processorThrew newMessages rfl rfl nofun processing
  | componentThrew newMessages more changedKeys component waiting evolving =>
      exact tracks.componentThrew newMessages more changedKeys waiting rfl rfl rfl evolving
  | executed newMessages changedKeys evolving =>
      exact tracks.executed newMessages changedKeys rfl rfl nofun evolving

/-- In a cycle that is over exactly the keys marked before the evolver took the marks have reached the
components, unless something thrown has cut it short.
-/
theorem Tracks.notified_iff (tracks : Tracks components history last) (some_ : 0 < components)
    (finished : Over last cycle)
    : Notified components history cycle key ↔ MarkedInTime history cycle key := by
  refine ⟨fun notified => ⟨tracks.passed cycle 0 key (notified 0 some_), fun cut => ?_⟩,
    tracks.finished cycle finished key⟩
  obtain ⟨-, component, bound, never⟩ := tracks.cut some_ cycle cut
  exact never key (notified component bound)

instance (framework : Framework μ) (event : FrameworkEvent μ) : Decidable (Overlaps framework event) :=
  match event with
  | .beginMark _ | .beat _ | .swapChangedKeys => inferInstanceAs (Decidable (framework.marking ≠ []))
  | .markChanged _ | .corrupt _ | .send _ _ | .registerInputChannel _ | .setGenerateTick _
  | .processed _ | .evolved _ | .threw _ | .execute => inferInstanceAs (Decidable False)

/-- A run none of whose steps overlaps a mark being made is a run in which none may. -/
theorem apart_of_audit {start : Framework μ}
    (run : Run step (fun _ _ _ => True) start history last)
    (apart : audit (fun _ framework event => decide ¬Overlaps framework event) [] history = true)
    : Run step (fun _ framework event => ¬Overlaps framework event) start history last :=
  run.of_audit (fun _ _ _ => of_decide_eq_true) apart

/-- Two components; the processor marks a key, the first component marks another one and the second
throws, so the first cycle ends early. The second cycle goes by with the other key marked once more.
-/
def lateMark : List (FrameworkEvent Unit) :=
  [.beat (), .beginMark [1], .markChanged [1], .processed [], .swapChangedKeys, .beginMark [2],
    .markChanged [2], .evolved [], .threw [], .beat (), .beginMark [2], .markChanged [2], .processed [],
    .swapChangedKeys, .evolved [], .evolved [], .execute]

/-- Whether a step passes a key to a component. -/
def passes (key : Bytes) (stage : FrameworkStage μ) : Bool :=
  stage.outputs.any fun output =>
    match output with
    | .batch _ => false
    | .evolve _ keys => keys.contains key

theorem any_passes (passed : Passed history cycle component key)
    : history.any (passes key) = true := by
  obtain ⟨stage, member, -, keys, shown, inKeys⟩ := passed
  refine List.any_eq_true.mpr ⟨stage, member, List.any_eq_true.mpr ⟨_, shown, ?_⟩⟩
  exact List.contains_iff_mem.mpr inKeys

/-- A key that no component is ever passed is lost to the first one. -/
theorem not_noticesKept_of_silent {stage : FrameworkStage μ} (member : stage ∈ history)
    (marks : stage.event = .markChanged key) (finished : Over last (stage.before.cycle + 1))
    (some_ : 0 < last.components) (silent : history.any (passes key) = false)
    : ¬NoticesKept history last := by
  have unpassed (cycle : Nat) : ¬Notified last.components history cycle key := fun notified =>
    absurd (any_passes (notified 0 some_)) (by rw [silent]; nofun)
  intro kept
  rcases kept stage member key marks finished with ⟨-, notified⟩ | notified
  · exact unpassed _ notified
  · exact unpassed _ notified

/-- A component marks a key while the keys are passed on, and two cycles go by. -/
def markedByComponent : List (FrameworkEvent Unit) :=
  [.beat (), .beginMark [1], .markChanged [1], .processed [], .swapChangedKeys, .beginMark [2],
    .markChanged [2], .evolved [], .execute, .beat (), .processed [], .swapChangedKeys, .execute]

end Creek.Framework
