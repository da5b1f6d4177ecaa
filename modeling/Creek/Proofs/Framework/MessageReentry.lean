import Creek.Proofs.Framework.ChangeNotices

/-! What becomes of the messages that the processor and the components put into their change sets. They
go into the framework's own input buffer, whatever channel the heartbeat drains, unless something thrown
leaves the cycle before they are sent on.
-/

namespace Creek.Framework

open Library
open Tight (Bytes)

variable {μ : Type} {framework after last : Framework μ} {event : FrameworkEvent μ}
  {outputs : List (FrameworkOutput μ)} {history : List (FrameworkStage μ)}
  {stage : FrameworkStage μ} {cycle components : Nat}

-- Messages by their cycle

/-- The messages of a list that come from the change set of a cycle. -/
def fromCycle (cycle : Nat) (messages : List (Queued μ)) : List μ :=
  (messages.filter fun queued => queued.origin = some cycle).map Queued.message

/-- What a step puts into the change set. -/
def FrameworkEvent.newMessages : FrameworkEvent μ → List μ
  | .processed newMessages => newMessages
  | .evolved newMessages => newMessages
  | .threw newMessages => newMessages
  | _ => []

/-- The batch that a step hands to the processor. -/
def FrameworkOutput.messages : FrameworkOutput μ → List (Queued μ)
  | .batch messages => messages
  | .evolve _ _ => []

/-- Everything put into the change set of a cycle, in order. -/
def producedIn (history : List (FrameworkStage μ)) (cycle : Nat) : List μ :=
  history.flatMap fun stage => if stage.before.cycle = cycle then stage.event.newMessages else []

/-- The batch of a cycle. -/
def batchOf (history : List (FrameworkStage μ)) (cycle : Nat) : List (Queued μ) :=
  history.flatMap fun stage =>
    if stage.before.cycle + 1 = cycle then stage.outputs.flatMap FrameworkOutput.messages else []

/-- All batches of a run, one after the other. -/
def batches (history : List (FrameworkStage μ)) : List (Queued μ) :=
  history.flatMap fun stage => stage.outputs.flatMap FrameworkOutput.messages

/-- The messages of a cycle appear in the batch of the next cycle, in order, and in no other batch. -/
def Reenter (history : List (FrameworkStage μ)) (last : Framework μ) : Prop :=
  ∀ cycle later, cycle < later → later ≤ last.cycle
    → fromCycle cycle (batchOf history later) =
      if later = cycle + 1 then producedIn history cycle else []

/-- A cycle begins on another channel than the input buffer, where messages of the cycle before wait. -/
def Misses (stage : FrameworkStage μ) : Prop :=
  ∃ tick, stage.event = .beat tick ∧ stage.before.inputChannel ≠ .inputBuffer
    ∧ ∃ queued ∈ stage.before.channels .inputBuffer, queued.origin = some stage.before.cycle

/-- What a change set under way holds. -/
def Phase.collected : Phase μ → List μ
  | .beaten newMessages => newMessages
  | .evolving newMessages _ _ => newMessages
  | _ => []

/-- The processor or a component throws in the cycle, and messages are in a change set by then. -/
def Lost (history : List (FrameworkStage μ)) (cycle : Nat) : Prop :=
  ∃ stage ∈ history, stage.before.cycle = cycle
    ∧ ∃ newMessages, stage.event = .threw newMessages
      ∧ stage.before.phase.collected ++ newMessages ≠ []

/-- A cycle begins after one whose messages are lost. -/
def Forgoes (history : List (FrameworkStage μ)) (stage : FrameworkStage μ) : Prop :=
  (∃ tick, stage.event = .beat tick) ∧ Lost history stage.before.cycle

@[simp] theorem fromCycle_nil : fromCycle cycle ([] : List (Queued μ)) = [] := rfl

@[simp] theorem fromCycle_append (front back : List (Queued μ))
    : fromCycle cycle (front ++ back) = fromCycle cycle front ++ fromCycle cycle back := by
  rw [fromCycle, List.filter_append, List.map_append, ← fromCycle, ← fromCycle]

theorem fromCycle_eq_nil {messages : List (Queued μ)}
    : fromCycle cycle messages = [] ↔ ∀ queued ∈ messages, queued.origin ≠ some cycle := by
  rw [fromCycle, List.map_eq_nil_iff, List.filter_eq_nil_iff]
  simp

theorem producedIn_append
    : producedIn (history ++ [stage]) cycle =
      producedIn history cycle
        ++ if stage.before.cycle = cycle then stage.event.newMessages else [] := by
  rw [producedIn, List.flatMap_append, List.flatMap_singleton, ← producedIn]

theorem batchOf_append
    : batchOf (history ++ [stage]) cycle =
      batchOf history cycle
        ++ if stage.before.cycle + 1 = cycle then stage.outputs.flatMap FrameworkOutput.messages
          else [] := by
  rw [batchOf, List.flatMap_append, List.flatMap_singleton, ← batchOf]

theorem batches_append
    : batches (history ++ [stage]) =
      batches history ++ stage.outputs.flatMap FrameworkOutput.messages := by
  rw [batches, List.flatMap_append, List.flatMap_singleton, ← batches]

theorem batchOf_sublist : (batchOf history cycle).Sublist (batches history) := by
  induction history with
  | nil => exact .slnil
  | cons stage rest ih =>
      rw [batchOf, batches, List.flatMap_cons, List.flatMap_cons, ← batchOf, ← batches]
      refine List.Sublist.append ?_ ih
      split
      · exact .refl _
      · exact List.nil_sublist _

theorem fromCycle_sublist {front back : List (Queued μ)} (sublist : front.Sublist back)
    : (fromCycle cycle front).Sublist (fromCycle cycle back) :=
  (sublist.filter _).map _

-- The conservation of messages

/-- Between any two steps every message put into the change set of a cycle that is over is in exactly one
batch or waits in the input buffer, in order, or every message of the cycle is lost.
-/
structure Conserves (history : List (FrameworkStage μ)) (framework : Framework μ) : Prop where
  counted : ∀ stage ∈ history, stage.before.cycle ≤ framework.cycle
  collected : framework.phase ≠ .idle
    → producedIn history framework.cycle = framework.phase.collected
  foreign : ∀ channel, channel ≠ .inputBuffer
    → ∀ queued ∈ framework.channels channel, queued.origin = none
  buffered : ∀ queued ∈ framework.channels .inputBuffer, ∀ cycle, queued.origin = some cycle
    → Over framework cycle
  batched : ∀ queued ∈ batches history, ∀ cycle, queued.origin = some cycle
    → cycle < framework.cycle
  numbered : ∀ cycle, framework.cycle < cycle → batchOf history cycle = []
  gone : ∀ cycle, Lost history cycle
    → Over framework cycle ∧ producedIn history cycle ≠ [] ∧ fromCycle cycle (batches history) = []
      ∧ fromCycle cycle (framework.channels .inputBuffer) = []
  conserved : ∀ cycle, Over framework cycle → ¬Lost history cycle
    → fromCycle cycle (batches history) ++ fromCycle cycle (framework.channels .inputBuffer) =
      producedIn history cycle

theorem Conserves.start : Conserves ([] : List (FrameworkStage μ)) { components := components } where
  counted := fun _ => nofun
  collected := fun busy => absurd rfl busy
  foreign := fun _ _ _ => nofun
  buffered := fun _ => nofun
  batched := fun _ => nofun
  numbered := fun _ _ => rfl
  gone := fun _ ⟨_, member, _⟩ => absurd member List.not_mem_nil
  conserved := fun _ _ _ => rfl

theorem lost_append
    : Lost (history ++ [stage]) cycle
      ↔ Lost history cycle
        ∨ stage.before.cycle = cycle
          ∧ ∃ newMessages, stage.event = .threw newMessages
            ∧ stage.before.phase.collected ++ newMessages ≠ [] := by
  simp only [Lost, List.mem_append, List.mem_singleton, or_and_right, exists_or, exists_eq_left]

theorem lost_append_of_caught (caught : ∀ newMessages, stage.event ≠ .threw newMessages)
    : Lost (history ++ [stage]) cycle ↔ Lost history cycle := by
  rw [lost_append, or_iff_left]
  rintro ⟨-, newMessages, throws, -⟩
  exact caught newMessages throws

/-- A step of the cycle under way leaves what the cycles that are over have produced. -/
theorem producedIn_within (before : stage.before = framework)
    (busy : framework.phase = .idle → stage.event.newMessages = []) (finished : Over framework cycle)
    : producedIn (history ++ [stage]) cycle = producedIn history cycle := by
  rw [producedIn_append, before]
  split
  · rename_i same
    rcases finished with past | ⟨-, resting⟩
    · exact absurd same.symm (Nat.ne_of_lt past)
    · rw [busy resting, List.append_nil]
  · rw [List.append_nil]

/-- A step within a cycle or between two, which may add to the change set but not end it. -/
theorem Conserves.within (conserves : Conserves history framework)
    (before : stage.before = framework)
    (caught : ∀ newMessages, stage.event ≠ .threw newMessages)
    (silent : stage.outputs.flatMap FrameworkOutput.messages = [])
    (sameCycle : after.cycle = framework.cycle)
    (idle : after.phase = .idle ↔ framework.phase = .idle)
    (grown : after.phase.collected = framework.phase.collected ++ stage.event.newMessages)
    (busy : framework.phase = .idle → stage.event.newMessages = [])
    (foreign : ∀ channel, ∀ queued ∈ after.channels channel,
      queued ∈ framework.channels channel ∨ queued.origin = none)
    (waiting : ∀ cycle, fromCycle cycle (after.channels .inputBuffer) =
      fromCycle cycle (framework.channels .inputBuffer))
    : Conserves (history ++ [stage]) after where
  counted := counted_append conserves.counted before (Nat.le_of_eq sameCycle.symm)
  collected := by
    intro working
    rw [sameCycle, producedIn_append, before, if_pos rfl, grown,
      conserves.collected (mt idle.mpr working)]
  foreign := by
    intro channel other queued member
    exact (foreign channel queued member).elim (conserves.foreign channel other queued) id
  buffered := by
    intro queued member cycle origin
    have held := (foreign _ queued member).resolve_right fun none_ => nomatch none_.symm.trans origin
    rw [Over, sameCycle, idle]
    exact conserves.buffered queued held cycle origin
  batched := by
    rw [batches_append, silent, List.append_nil, sameCycle]
    exact conserves.batched
  numbered := by
    intro cycle future
    rw [batchOf_append, silent, ite_self, List.append_nil]
    exact conserves.numbered cycle (sameCycle ▸ future)
  gone := by
    intro cycle lost
    rw [lost_append_of_caught caught] at lost
    rw [Over, sameCycle, idle, batches_append, silent, List.append_nil, waiting]
    obtain ⟨finished, produced, unseen⟩ := conserves.gone cycle lost
    rw [producedIn_within before busy finished]
    exact ⟨finished, produced, unseen⟩
  conserved := by
    intro cycle finished kept
    rw [Over, sameCycle, idle] at finished
    rw [lost_append_of_caught caught] at kept
    rw [batches_append, silent, List.append_nil, waiting, conserves.conserved cycle finished kept,
      producedIn_within before busy finished]

theorem Conserves.producedIn_future (conserves : Conserves history framework)
    (future : framework.cycle < cycle)
    : producedIn history cycle = [] := by
  refine List.flatMap_eq_nil_iff.mpr fun stage member => if_neg fun same => ?_
  exact Nat.not_lt.mpr (conserves.counted stage member) (same ▸ future)

theorem Conserves.unseen (conserves : Conserves history framework) (busy : framework.phase ≠ .idle)
    : fromCycle framework.cycle (batches history) = []
      ∧ fromCycle framework.cycle (framework.channels .inputBuffer) = [] := by
  constructor
  · exact fromCycle_eq_nil.mpr fun queued member same =>
      absurd (conserves.batched queued member _ same) (Nat.lt_irrefl _)
  · refine fromCycle_eq_nil.mpr fun queued member same => ?_
    rcases conserves.buffered queued member _ same with past | ⟨-, idle⟩
    · exact absurd past (Nat.lt_irrefl _)
    · exact busy idle

theorem fromCycle_beat (conserves : Conserves history framework) (tick : μ)
    : fromCycle cycle (framework.beat tick).2 =
      if framework.inputChannel = .inputBuffer then fromCycle cycle (framework.channels .inputBuffer)
      else [] := by
  have drained : fromCycle cycle (framework.beat tick).2 =
      fromCycle cycle (framework.channels framework.inputChannel) := by
    show fromCycle cycle (if framework.generateTick then _ else _) = _
    split
    · rw [fromCycle_append]
      exact List.append_nil _
    · rfl
  rw [drained]
  split
  · rename_i own
    rw [own]
  · rename_i other
    refine fromCycle_eq_nil.mpr fun queued member => ?_
    rw [conserves.foreign _ other queued member]
    nofun

/-- What waits in the input buffer after the heartbeat has drained its input. -/
theorem waiting_beat (tick : μ)
    : (framework.beat tick).1.channels .inputBuffer =
      if framework.inputChannel = .inputBuffer then [] else framework.channels .inputBuffer := by
  show (if Channel.inputBuffer = framework.inputChannel then _ else _) = _
  split
  · rename_i own
    rw [if_pos own.symm]
  · rename_i other
    rw [if_neg (Ne.symm other)]

theorem Conserves.begun (conserves : Conserves history framework) (tick : μ)
    (before : stage.before = framework) (event : stage.event = .beat tick)
    (outputs : stage.outputs = [.batch (framework.beat tick).2]) (idle : framework.phase = .idle)
    : Conserves (history ++ [stage]) (framework.beat tick).1 := by
  have nothing : stage.event.newMessages = [] := by rw [event]; rfl
  have shown : stage.outputs.flatMap FrameworkOutput.messages = (framework.beat tick).2 := by
    rw [outputs, List.flatMap_singleton]
    rfl
  have produced (cycle : Nat) : producedIn (history ++ [stage]) cycle = producedIn history cycle := by
    rw [producedIn_append, nothing, ite_self, List.append_nil]
  have lost {cycle : Nat} : Lost (history ++ [stage]) cycle ↔ Lost history cycle :=
    lost_append_of_caught (by rw [event]; nofun)
  have finished {cycle : Nat} (later : Over (framework.beat tick).1 cycle) : Over framework cycle := by
    rcases later with past | ⟨-, busy⟩
    · exact (Nat.lt_or_eq_of_le (Nat.le_of_lt_succ past)).imp_right fun same => ⟨same, idle⟩
    · cases busy
  constructor
  · exact counted_append conserves.counted before (Nat.le_succ _)
  · intro _
    rw [produced]
    exact conserves.producedIn_future (Nat.lt_succ_self _)
  · intro channel other queued member
    have held : queued ∈ framework.channels channel := by
      change queued ∈ if channel = framework.inputChannel then [] else framework.channels channel
        at member
      split at member
      · cases member
      · exact member
    exact conserves.foreign channel other queued held
  · intro queued member cycle origin
    rw [waiting_beat] at member
    split at member
    · cases member
    · rcases conserves.buffered queued member cycle origin with past | ⟨same, -⟩
      · exact .inl (Nat.lt_succ_of_lt past)
      · exact .inl (Nat.lt_succ_of_le (Nat.le_of_eq same))
  · intro queued member cycle origin
    rw [batches_append, shown] at member
    rcases List.mem_append.mp member with earlier | new
    · exact Nat.lt_succ_of_lt (conserves.batched queued earlier cycle origin)
    · have inBuffer : fromCycle cycle (framework.beat tick).2 ≠ [] := fun none_ =>
        fromCycle_eq_nil.mp none_ queued new origin
      rw [fromCycle_beat conserves] at inBuffer
      split at inBuffer
      · have waits : ∃ other ∈ framework.channels .inputBuffer, other.origin = some cycle := by
          by_contra none_
          exact inBuffer (fromCycle_eq_nil.mpr fun other member same => none_ ⟨other, member, same⟩)
        obtain ⟨other, member, same⟩ := waits
        rcases conserves.buffered other member cycle same with past | ⟨same, -⟩
        · exact Nat.lt_succ_of_lt past
        · exact Nat.lt_succ_of_le (Nat.le_of_eq same)
      · exact absurd rfl inBuffer
  · intro cycle future
    have later : framework.cycle + 1 < cycle := future
    rw [batchOf_append, before, if_neg (Nat.ne_of_lt later), List.append_nil]
    exact conserves.numbered cycle (Nat.lt_of_succ_lt later)
  · intro cycle gone
    obtain ⟨past, some_, unbatched, unbuffered⟩ := conserves.gone cycle (lost.mp gone)
    rw [batches_append, shown, fromCycle_append, fromCycle_beat conserves, waiting_beat, produced,
      unbatched, unbuffered, ite_self, List.append_nil]
    refine ⟨?_, some_, rfl, ?_⟩
    · exact .inl (past.elim Nat.lt_succ_of_lt fun now => Nat.lt_succ_of_le (Nat.le_of_eq now.1))
    · split
      · rfl
      · exact unbuffered
  · intro cycle later kept
    rw [lost] at kept
    rw [batches_append, shown, fromCycle_append, fromCycle_beat conserves, waiting_beat, produced,
      ← conserves.conserved cycle (finished later) kept]
    split
    · rw [fromCycle_nil, List.append_nil]
    · rw [List.append_nil]

theorem fromCycle_produced (number : Nat) (newMessages : List μ)
    : fromCycle cycle (newMessages.map fun message => ⟨some number, message⟩) =
      if number = cycle then newMessages else [] := by
  split
  · rename_i same
    rw [fromCycle, List.filter_eq_self.mpr, List.map_map]
    · exact List.map_id newMessages
    · intro queued member
      obtain ⟨message, -, rfl⟩ := List.mem_map.mp member
      exact decide_eq_true (congrArg some same)
  · rename_i other
    refine fromCycle_eq_nil.mpr fun queued member => ?_
    obtain ⟨message, -, rfl⟩ := List.mem_map.mp member
    exact fun same => other (Option.some.inj same)

theorem waiting_execute (newMessages : List μ)
    : (framework.execute newMessages).channels .inputBuffer =
      framework.channels .inputBuffer
        ++ (framework.channels .newMessages
          ++ newMessages.map fun message => ⟨some framework.cycle, message⟩) := rfl

theorem held_of_execute {newMessages : List μ} {channel : Channel} (other : channel ≠ .inputBuffer)
    {queued : Queued μ} (member : queued ∈ (framework.execute newMessages).channels channel)
    : queued ∈ framework.channels channel := by
  cases channel with
  | inputBuffer => exact absurd rfl other
  | newMessages => exact nomatch (member : queued ∈ [])
  | other id => exact member

/-- The end of a cycle: its change set goes into the input buffer. -/
theorem Conserves.executed (conserves : Conserves history framework) (newMessages : List μ)
    (changedKeys : List Bytes) (before : stage.before = framework) (event : stage.event = .execute)
    (outputs : stage.outputs = [])
    (evolving : framework.phase = .evolving newMessages changedKeys [])
    : Conserves (history ++ [stage]) (framework.execute newMessages) := by
  have busy : framework.phase ≠ .idle := by rw [evolving]; nofun
  have silent : stage.outputs.flatMap FrameworkOutput.messages = [] := by rw [outputs]; rfl
  have produced (cycle : Nat) : producedIn (history ++ [stage]) cycle = producedIn history cycle := by
    rw [producedIn_append, event]
    exact (congrArg _ (ite_self _)).trans (List.append_nil _)
  have collected : producedIn history framework.cycle = newMessages := by
    rw [conserves.collected busy, evolving]
    rfl
  have lost {cycle : Nat} : Lost (history ++ [stage]) cycle ↔ Lost history cycle :=
    lost_append_of_caught (by rw [event]; nofun)
  -- Of the three parts of the buffer the middle one belongs to no cycle.
  have waiting (cycle : Nat) : fromCycle cycle ((framework.execute newMessages).channels .inputBuffer) =
      fromCycle cycle (framework.channels .inputBuffer)
        ++ if framework.cycle = cycle then newMessages else [] := by
    have none_ : fromCycle cycle (framework.channels .newMessages) = [] := by
      refine fromCycle_eq_nil.mpr fun queued member => ?_
      rw [conserves.foreign .newMessages nofun queued member]
      nofun
    rw [waiting_execute, fromCycle_append, fromCycle_append, none_, fromCycle_produced, List.nil_append]
  constructor
  · exact counted_append conserves.counted before (Nat.le_refl _)
  · exact fun working => absurd rfl working
  · intro channel other queued member
    exact conserves.foreign channel other queued (held_of_execute other member)
  · intro queued member cycle origin
    rw [waiting_execute] at member
    rcases List.mem_append.mp member with held | member
    · exact (conserves.buffered queued held cycle origin).imp_right fun now => absurd now.2 busy
    · rcases List.mem_append.mp member with foreign | new
      · cases (conserves.foreign .newMessages nofun queued foreign).symm.trans origin
      · obtain ⟨message, -, rfl⟩ := List.mem_map.mp new
        exact .inr ⟨(Option.some.inj origin).symm, rfl⟩
  · rw [batches_append, silent, List.append_nil]
    exact conserves.batched
  · intro cycle future
    rw [batchOf_append, silent, ite_self, List.append_nil]
    exact conserves.numbered cycle future
  · intro cycle gone
    obtain ⟨past, some_, unbatched, unbuffered⟩ := conserves.gone cycle (lost.mp gone)
    have earlier : cycle < framework.cycle := past.past busy
    rw [batches_append, silent, List.append_nil, waiting, produced, unbuffered,
      if_neg (Nat.ne_of_gt earlier)]
    exact ⟨.inl earlier, some_, unbatched, rfl⟩
  · intro cycle finished kept
    rw [lost] at kept
    rw [batches_append, silent, List.append_nil, waiting, produced]
    rcases finished with past | ⟨rfl, -⟩
    · have earlier : cycle < framework.cycle := past
      rw [if_neg (Nat.ne_of_gt earlier), List.append_nil]
      exact conserves.conserved cycle (.inl earlier) kept
    · obtain ⟨unbatched, unbuffered⟩ := conserves.unseen busy
      rw [show (framework.execute newMessages).cycle = framework.cycle from rfl, unbatched, unbuffered]
      exact (if_pos rfl).trans collected.symm

/-- The processor or a component throws: the cycle is over, and nothing will see its messages. -/
theorem Conserves.threw (conserves : Conserves history framework) (newMessages : List μ)
    (before : stage.before = framework) (event : stage.event = .threw newMessages)
    (silent : stage.outputs.flatMap FrameworkOutput.messages = []) (busy : framework.phase ≠ .idle)
    : Conserves (history ++ [stage]) { framework with phase := .idle } := by
  obtain ⟨unbatched, unbuffered⟩ := conserves.unseen busy
  have produced : producedIn (history ++ [stage]) framework.cycle =
      framework.phase.collected ++ newMessages := by
    rw [producedIn_append, before, if_pos rfl, event, conserves.collected busy]
    rfl
  have settled {cycle : Nat} (past : cycle < framework.cycle)
      : producedIn (history ++ [stage]) cycle = producedIn history cycle := by
    rw [producedIn_append, before, if_neg (Nat.ne_of_gt past), List.append_nil]
  constructor
  · exact counted_append conserves.counted before (Nat.le_refl _)
  · exact fun working => absurd rfl working
  · exact conserves.foreign
  · intro queued member cycle origin
    exact (conserves.buffered queued member cycle origin).imp_right fun now => absurd now.2 busy
  · rw [batches_append, silent, List.append_nil]
    exact conserves.batched
  · intro cycle future
    rw [batchOf_append, silent, ite_self, List.append_nil]
    exact conserves.numbered cycle future
  · intro cycle lost
    rw [batches_append, silent, List.append_nil]
    rcases lost_append.mp lost with gone | ⟨same, more, throws, some_⟩
    · obtain ⟨finished, rest⟩ := conserves.gone cycle gone
      have past : cycle < framework.cycle := finished.past busy
      rw [settled past]
      exact ⟨.inl past, rest⟩
    · rw [before] at same some_
      obtain rfl : newMessages = more := FrameworkEvent.threw.inj (event.symm.trans throws)
      rw [← same, produced]
      exact ⟨.inr ⟨rfl, rfl⟩, some_, unbatched, unbuffered⟩
  · intro cycle finished kept
    rw [batches_append, silent, List.append_nil]
    rcases finished with past | ⟨rfl, -⟩
    · rw [settled past]
      exact conserves.conserved cycle (.inl past) fun lost => kept (lost_append.mpr (.inl lost))
    · show fromCycle framework.cycle _ ++ fromCycle framework.cycle _ = producedIn _ framework.cycle
      rw [unbatched, unbuffered, produced]
      by_contra some_
      refine kept (lost_append.mpr (.inr ⟨by rw [before], newMessages, event, ?_⟩))
      rw [before]
      exact Ne.symm some_

/-- Where messages are after one more from elsewhere has been sent. -/
theorem mem_sendAll {channel target : Channel} {messages : List (Queued μ)} {queued : Queued μ}
    (member : queued ∈ (framework.sendAll target messages).channels channel)
    : queued ∈ framework.channels channel ∨ queued ∈ messages := by
  change queued ∈ ite _ _ _ at member
  split at member
  · exact List.mem_append.mp member
  · exact .inl member

/-- The messages of a cycle in a channel after one more from elsewhere has been sent. -/
theorem fromCycle_sendAll {channel target : Channel} (message : μ)
    : fromCycle cycle ((framework.sendAll target [⟨none, message⟩]).channels channel) =
      fromCycle cycle (framework.channels channel) := by
  show fromCycle cycle (ite _ _ _) = _
  split
  · rw [fromCycle_append]
    exact List.append_nil _
  · rfl

theorem Taken.conserves (taken : Taken framework event after outputs)
    (conserves : Conserves history framework)
    : Conserves (history ++ [{ before := framework, event, outputs }]) after := by
  have foreign : ∀ channel, ∀ queued ∈ framework.channels channel,
      queued ∈ framework.channels channel ∨ queued.origin = none :=
    fun _ _ => .inl
  cases taken with
  | marking key =>
      exact conserves.within rfl nofun rfl rfl .rfl (List.append_nil _).symm (fun _ => rfl) foreign
        fun _ => rfl
  | marked key marking =>
      exact conserves.within rfl nofun rfl rfl .rfl (List.append_nil _).symm (fun _ => rfl) foreign
        fun _ => rfl
  | corrupted changedKeys raced =>
      exact conserves.within rfl nofun rfl rfl .rfl (List.append_nil _).symm (fun _ => rfl) foreign
        fun _ => rfl
  | sent channel message =>
      refine conserves.within rfl nofun rfl rfl .rfl (List.append_nil _).symm (fun _ => rfl) ?_
        fun _ => fromCycle_sendAll message
      intro other queued member
      exact (mem_sendAll member).imp_right fun new => by rw [List.mem_singleton.mp new]
  | registered channel idle =>
      exact conserves.within rfl nofun rfl rfl .rfl (List.append_nil _).symm (fun _ => rfl) foreign
        fun _ => rfl
  | ticking enabled idle =>
      exact conserves.within rfl nofun rfl rfl .rfl (List.append_nil _).symm (fun _ => rfl) foreign
        fun _ => rfl
  | begun tick idle => exact conserves.begun tick rfl rfl rfl idle
  | processed newMessages processing =>
      have busy : framework.phase ≠ .idle := by rw [processing]; nofun
      refine conserves.within rfl nofun rfl rfl (iff_of_false nofun busy) ?_ (absurd · busy) foreign
        fun _ => rfl
      rw [processing]
      rfl
  | swapped newMessages beaten =>
      have busy : framework.phase ≠ .idle := by rw [beaten]; nofun
      refine conserves.within rfl nofun rfl rfl (iff_of_false nofun busy) ?_ (absurd · busy) foreign
        fun _ => rfl
      rw [beaten]
      exact (List.append_nil _).symm
  | evolved newMessages more changedKeys component waiting evolving =>
      have busy : framework.phase ≠ .idle := by rw [evolving]; nofun
      refine conserves.within rfl nofun rfl rfl (iff_of_false nofun busy) ?_ (absurd · busy) foreign
        fun _ => rfl
      rw [evolving]
      rfl
  | processorThrew newMessages processing =>
      exact conserves.threw newMessages rfl rfl rfl (by rw [processing]; nofun)
  | componentThrew newMessages more changedKeys component waiting evolving =>
      exact conserves.threw more rfl rfl rfl (by rw [evolving]; nofun)
  | executed newMessages changedKeys evolving =>
      exact conserves.executed newMessages changedKeys rfl rfl rfl evolving

theorem run_conserves
    {allowed : List (FrameworkStage μ) → Framework μ → FrameworkEvent μ → Prop}
    (run : Run step allowed { components := components } history last)
    : Conserves history last :=
  run.invariant Conserves Conserves.start
    fun _ _ _ _ _ _ conserves _ taken => (taken_of_step taken).conserves conserves

-- The batch of the next cycle

/-- A step that begins no cycle leaves the batches of the cycles begun, and what the cycles before the
one under way have produced.
-/
theorem reenter_within (before : stage.before = framework)
    (silent : stage.outputs.flatMap FrameworkOutput.messages = [])
    (sameCycle : after.cycle = framework.cycle)
    : Reenter (history ++ [stage]) after ↔ Reenter history framework := by
  have same (cycle later : Nat) (order : cycle < later) (begun : later ≤ framework.cycle)
      : fromCycle cycle (batchOf (history ++ [stage]) later) =
          (if later = cycle + 1 then producedIn (history ++ [stage]) cycle else [])
        ↔ fromCycle cycle (batchOf history later) =
          if later = cycle + 1 then producedIn history cycle else [] := by
    rw [batchOf_append, silent, ite_self, List.append_nil, producedIn_append, before,
      if_neg (Nat.ne_of_gt (Nat.lt_of_lt_of_le order begun)), List.append_nil]
  rw [Reenter, sameCycle]
  exact forall₄_congr same

/-- What is left of a finished cycle in the input buffer, once its messages have been in a batch. -/
theorem Reenter.waits_not (reenter : Reenter history framework)
    (conserves : Conserves history framework) (earlier : cycle < framework.cycle)
    : fromCycle cycle (framework.channels .inputBuffer) = [] := by
  by_cases lost : Lost history cycle
  · exact (conserves.gone cycle lost).2.2.2
  have conserved := congrArg List.length (conserves.conserved cycle (.inl earlier) lost)
  have next := congrArg List.length (reenter cycle (cycle + 1) (Nat.lt_succ_self _) earlier)
  have part : (fromCycle cycle (batchOf history (cycle + 1))).length
      ≤ (fromCycle cycle (batches history)).length :=
    (fromCycle_sublist batchOf_sublist).length_le
  rw [if_pos rfl] at next
  rw [List.length_append] at conserved
  exact List.length_eq_zero_iff.mp (by omega)

/-- The messages of the last finished cycle wait in the input buffer, unless they are lost. -/
theorem Conserves.waits (conserves : Conserves history framework) (idle : framework.phase = .idle)
    (kept : ¬Lost history framework.cycle)
    : fromCycle framework.cycle (framework.channels .inputBuffer) =
      producedIn history framework.cycle := by
  have unbatched : fromCycle framework.cycle (batches history) = [] :=
    fromCycle_eq_nil.mpr fun queued member same =>
      absurd (conserves.batched queued member _ same) (Nat.lt_irrefl _)
  have conserved := conserves.conserved framework.cycle (.inr ⟨rfl, idle⟩) kept
  rwa [unbatched, List.nil_append] at conserved

/-- The batch of the cycle that begins holds what it should exactly when the heartbeat drains the input
buffer, or nothing waits there, and the cycle before has lost nothing.
-/
theorem reenter_begun (reenter : Reenter history framework) (conserves : Conserves history framework)
    (tick : μ) (before : stage.before = framework) (event : stage.event = .beat tick)
    (outputs : stage.outputs = [.batch (framework.beat tick).2]) (idle : framework.phase = .idle)
    : Reenter (history ++ [stage]) (framework.beat tick).1
      ↔ ¬Misses stage ∧ ¬Forgoes history stage := by
  have produced (cycle : Nat) : producedIn (history ++ [stage]) cycle = producedIn history cycle := by
    rw [producedIn_append, event]
    exact (congrArg _ (ite_self _)).trans (List.append_nil _)
  have earlier {later : Nat} (begun : later ≤ framework.cycle)
      : batchOf (history ++ [stage]) later = batchOf history later := by
    rw [batchOf_append, before, if_neg (Nat.ne_of_gt (Nat.lt_succ_of_le begun)), List.append_nil]
  have new : batchOf (history ++ [stage]) (framework.cycle + 1) = (framework.beat tick).2 := by
    rw [batchOf_append, before, if_pos rfl, conserves.numbered _ (Nat.lt_succ_self _), outputs,
      List.flatMap_singleton]
    rfl
  constructor
  · intro kept
    have next := kept framework.cycle (framework.cycle + 1) (Nat.lt_succ_self _) (Nat.le_refl _)
    rw [new, fromCycle_beat conserves, if_pos rfl, produced] at next
    have unlost : ¬Lost history framework.cycle := by
      intro lost
      obtain ⟨-, some_, -, unbuffered⟩ := conserves.gone framework.cycle lost
      rw [unbuffered, ite_self] at next
      exact some_ next.symm
    constructor
    · rintro ⟨-, -, other, queued, waits, origin⟩
      rw [before] at other waits origin
      rw [if_neg other, ← conserves.waits idle unlost] at next
      exact fromCycle_eq_nil.mp next.symm queued waits origin
    · rintro ⟨-, lost⟩
      rw [before] at lost
      exact unlost lost
  · rintro ⟨sound, kept⟩ cycle later order bound
    have unlost : ¬Lost history framework.cycle := fun lost =>
      kept ⟨⟨tick, event⟩, by rw [before]; exact lost⟩
    rw [produced]
    rcases Nat.lt_or_eq_of_le bound with begun | rfl
    · have begun : later ≤ framework.cycle := Nat.le_of_lt_succ begun
      rw [earlier begun]
      exact reenter cycle later order begun
    · show fromCycle cycle (batchOf _ (framework.cycle + 1)) = _
      rw [new, fromCycle_beat conserves]
      rcases Nat.lt_or_eq_of_le (Nat.le_of_lt_succ order) with past | rfl
      · rw [reenter.waits_not conserves past, ite_self]
        exact (if_neg fun same => Nat.ne_of_gt past (Nat.succ.inj same)).symm
      · rw [← conserves.waits idle unlost]
        refine Eq.trans ?_ (if_pos rfl).symm
        split
        · rfl
        · rename_i other
          refine (fromCycle_eq_nil.mpr fun queued waits origin => sound ?_).symm
          refine ⟨tick, event, ?_⟩
          rw [before]
          exact ⟨other, queued, waits, origin⟩

/-- A step keeps the batches right exactly when it neither misses what waits nor forgoes what is lost. -/
theorem Taken.reenter_iff (taken : Taken framework event after outputs)
    (conserves : Conserves history framework) (reenter : Reenter history framework)
    : Reenter (history ++ [{ before := framework, event, outputs }]) after
      ↔ ¬Misses { before := framework, event, outputs }
        ∧ ¬Forgoes history { before := framework, event, outputs } := by
  have unmissed (other : ∀ tick, event ≠ .beat tick)
      : ¬Misses { before := framework, event, outputs } :=
    fun ⟨tick, beats, _⟩ => other tick beats
  have unforgone (other : ∀ tick, event ≠ .beat tick)
      : ¬Forgoes history { before := framework, event, outputs } :=
    fun ⟨⟨tick, beats⟩, _⟩ => other tick beats
  cases taken with
  | begun tick idle => exact reenter_begun reenter conserves tick rfl rfl rfl idle
  | _ =>
      refine iff_of_true ?_ ⟨unmissed nofun, unforgone nofun⟩
      exact (@reenter_within _ framework _ _ _ rfl rfl rfl).mpr reenter

/-- In a run of a framework with a batch processor and any input channels, every message put into a change
set is in the batch of the next cycle, in order, and in no other batch, exactly when no cycle begins on
another channel than the input buffer while messages of the cycle before wait there, and none begins after
one that something thrown has left with messages in its change set.
-/
theorem reenter_iff_drained
    (run : Run step (fun _ _ _ => True) ({ components := components } : Framework μ) history last)
    : Throughout Reenter history last
      ↔ ∀ front stage back, history = front ++ stage :: back → ¬Misses stage ∧ ¬Forgoes front stage :=
  run.throughout_iff_split
    (fun _ _ order begun => absurd (Nat.lt_of_lt_of_le order begun) (Nat.not_lt_zero _))
    fun _ _ _ _ _ earlier reenter _ taken =>
      (taken_of_step taken).reenter_iff (run_conserves earlier) reenter

/-- A cycle produces two messages; the next one has them in its batch, and its processor throws before it
has put any message into its change set.
-/
def throwingProcessor : List (FrameworkEvent Unit) :=
  [.beat (), .beginMark [1], .markChanged [1], .processed [()], .swapChangedKeys, .evolved [()], .execute,
    .beat (), .threw [], .beat ()]

theorem reenter_iff_drained_throwingProcessor
    : ∃ (history : List (FrameworkStage Unit)) (last : Framework Unit), last.cycle = 3
      ∧ (batchOf history 2).map Queued.origin = [some 1, some 1, none]
      ∧ (Throughout Reenter history last
        ↔ ∀ front stage back, history = front ++ stage :: back
          → ¬Misses stage ∧ ¬Forgoes front stage) := by
  have run := Run.extend .start
    (rfl : Library.execute step { components := 1 } throwingProcessor = .ok (_, _))
  exact ⟨_, _, rfl, rfl, reenter_iff_drained run⟩

/-- A cycle produces a message, another input channel is registered, and the next cycle begins. -/
def otherInput : List (FrameworkEvent Unit) :=
  [.beat (), .processed [()], .swapChangedKeys, .execute, .registerInputChannel (.other 0), .beat ()]

/-- The batch of the second cycle lacks the message: it stays in the input buffer. -/
theorem message_stranded
    : ∃ (history : List (FrameworkStage Unit)) (last : Framework Unit),
      Run step (fun _ _ _ => True) { } history last
      ∧ ¬Throughout Reenter history last
      ∧ (last.channels .inputBuffer).map Queued.origin = [some 1] := by
  have run := Run.extend .start (rfl : Library.execute step { } otherInput = .ok (_, _))
  refine ⟨_, _, run, fun kept => ?_, rfl⟩
  exact absurd (kept.2 1 2 (by decide) (by decide)) (by decide)

end Creek.Framework
