import Creek.Proofs.Tight.CommandTransfer
import Creek.Tight.CallbackQueues

/-! In which order commands reach the callback. The channel releases them in their order, but the reactor
and the receiver call back on their own: every command is called once at most and each thread keeps the
order, while one thread may overtake the other.
-/

namespace Creek.Tight

open Library
open Transport (anonymousId commandsFor commandsSubmitted stranger)

namespace Calling

variable {numerics : Numerics} {key sender : Bytes} {base : Nat} {commands : List Bytes}
  {posted : List Effect} {made released : List (CallbackThread × Bytes)} {channel : List CommandStage}
  {calling after : Calling} {event : CallingEvent} {outputs : List (CallbackThread × Effect)}

theorem waiting_await_self (thread : CallbackThread) (effects : List Effect) (calling : Calling)
    : (calling.await thread effects).waiting thread = effects :=
  Function.update_self ..

theorem waiting_await_ne {thread other : CallbackThread} (differs : other ≠ thread)
    (effects : List Effect) (calling : Calling)
    : (calling.await thread effects).waiting other = calling.waiting other :=
  Function.update_of_ne differs ..

/-- The commands that threads have called back with for a record. -/
def commandCalls (key : Bytes) (calls : List (CallbackThread × Effect))
    : List (CallbackThread × Bytes) :=
  calls.flatMap fun call => (commandsFor key [call.2]).map fun payload => (call.1, payload)

/-- The part of one thread. -/
def partOf (thread : CallbackThread) (entries : List (CallbackThread × Bytes)) : List Bytes :=
  (entries.filter fun entry => entry.1 = thread).map Prod.snd

@[simp] theorem partOf_append (thread : CallbackThread) (front back : List (CallbackThread × Bytes))
    : partOf thread (front ++ back) = partOf thread front ++ partOf thread back := by
  simp [partOf]

theorem partOf_tagged (thread other : CallbackThread) (payloads : List Bytes)
    : partOf thread (payloads.map fun payload => (other, payload))
      = if other = thread then payloads else [] := by
  rw [partOf, List.filter_map, List.map_map]
  by_cases same : other = thread
  · simp [same, Function.comp_def]
  · simp [same, Function.comp_def]

theorem perm_parts (entries : List (CallbackThread × Bytes))
    : (entries.map Prod.snd).Perm (partOf .reactor entries ++ partOf .receiver entries) := by
  have others : entries.filter (fun entry => entry.1 = .receiver)
      = entries.filter fun entry => !decide (entry.1 = .reactor) := by
    refine List.filter_congr fun entry _ => ?_
    cases entry.1 <;> rfl
  rw [partOf, partOf, others, ← List.map_append]
  exact (List.filter_append_perm _ _).symm.map Prod.snd

/-- Each thread has released, in order, what it has called back with and what it has still to.
-/
structure Accounts (key : Bytes) (made released : List (CallbackThread × Bytes)) (calling : Calling)
    : Prop where
  parts : ∀ thread, partOf thread released
    = partOf thread made ++ commandsFor key (calling.waiting thread)

theorem commandsFor_append (front back : List Effect)
    : commandsFor key (front ++ back)
      = commandsFor key front ++ commandsFor key back := by
  simp [commandsFor]

theorem commandsFor_callbacks (effects : List Effect)
    : commandsFor key (effects.filter Effect.isCallback)
      = commandsFor key effects := by
  rw [commandsFor, commandsFor, List.filter_filter, List.filterMap_filter,
    List.filterMap_filter]
  refine List.filterMap_congr fun effect _ => ?_
  cases effect <;> simp [Effect.isCallback, Effect.command?]

theorem Accounts.act (accounts : Accounts key made released calling) (thread : CallbackThread)
    (transport : Transport) (effects : List Effect)
    : Accounts key made
        (released ++ (commandsFor key effects).map fun payload => (thread, payload))
        (await thread (calling.waiting thread ++ effects.filter Effect.isCallback)
          { calling with transport := transport }) := by
  refine ⟨fun other => ?_⟩
  rw [partOf_append, partOf_tagged, accounts.parts other]
  by_cases same : thread = other
  · subst same
    rw [if_pos rfl, waiting_await_self, commandsFor_append, commandsFor_callbacks,
      List.append_assoc]
  · rw [if_neg same, List.append_nil, waiting_await_ne (Ne.symm same)]

/-- A call moves from what a thread has still to call back with to what it has. -/
theorem Accounts.call (accounts : Accounts key made released calling) {thread : CallbackThread}
    {effect : Effect} {rest : List Effect} (waiting : calling.waiting thread = effect :: rest)
    : Accounts key (made ++ commandCalls key [(thread, effect)]) released
        (calling.await thread rest) := by
  have called : commandCalls key [(thread, effect)]
      = (commandsFor key [effect]).map fun payload => (thread, payload) := by
    simp [commandCalls]
  refine ⟨fun other => ?_⟩
  rw [partOf_append, called, partOf_tagged, accounts.parts other]
  by_cases same : thread = other
  · subst same
    rw [if_pos rfl, waiting_await_self, waiting, List.append_assoc, ← commandsFor_append]
    rfl
  · rw [if_neg same, List.append_nil, waiting_await_ne (Ne.symm same)]

/-- The steps of a receiver during a session: its transport listens, its threads call back at any time. -/
def Listens (posted : List Effect) (sender key : Bytes)
    (_ : List (Stage Calling CallingEvent (CallbackThread × Effect))) (before : Calling)
    (event : CallingEvent)
    : Prop :=
  ∀ thread occurrence, event = .act thread occurrence
    → before.transport.Continues key occurrence
      ∧ before.transport.RelaysCommands posted sender key occurrence

theorem step_accounts (accounts : Accounts key made released calling)
    (hears : Transport.Hears base commands key (released.map Prod.snd) channel calling.transport)
    (room : base + commands.length < 2 ^ 32)
    (short : ∀ command ∈ commands, command.length + kGcmTagSize ≤ 65535)
    (logged : ∀ effect ∈ posted, effect.owner = sender → effect.Vouched (fromCommands base commands))
    {history : List (Stage Calling CallingEvent (CallbackThread × Effect))}
    (listens : Listens posted sender key history calling event)
    (taken : step numerics calling event = .ok (after, outputs))
    : ∃ released channel, Accounts key (made ++ commandCalls key outputs) released after
        ∧ Transport.Hears base commands key (released.map Prod.snd) channel after.transport := by
  cases event with
  | act thread occurrence =>
      obtain ⟨continues, relays⟩ := listens thread occurrence rfl
      simp only [step] at taken
      rcases moved : calling.transport.step numerics occurrence with fault | ⟨transport, effects⟩
      · rw [moved] at taken
        cases taken
      · rw [moved] at taken
        cases taken
        obtain ⟨channel, next⟩ := hears.step room short logged continues relays moved
        refine ⟨released ++ (commandsFor key effects).map fun payload => (thread, payload),
          channel, ?_, ?_⟩
        · rw [commandCalls, List.flatMap_nil, List.append_nil]
          exact accounts.act thread transport effects
        · rw [List.map_append, List.map_map]
          exact (List.map_id _).symm ▸ next
  | call thread =>
      simp only [step] at taken
      split at taken
      · cases taken
        rw [commandCalls, List.flatMap_nil, List.append_nil]
        exact ⟨released, channel, accounts, hears⟩
      · rename_i effect rest waiting
        cases taken
        exact ⟨released, channel, accounts.call waiting, hears⟩

/-- Over a session each thread calls back with some of the submitted commands in their order, and the two
threads together with each submitted command once at most, whatever the threads, both ends and the
network do.
-/
theorem commands_called_once {near far : Numerics} {identity : Identity} {outKey inKey : Bytes}
    {past sent : List (Stage Transport Occurrence Effect)} {begun lastSent : Transport}
    {received : List (Stage Calling CallingEvent (CallbackThread × Effect))}
    {listening : Transport} {lastReceived : Calling} (wide : identity.config.mtu ≤ 65535)
    (reached : Run (Transport.step near) (fun _ _ _ => True) (Transport.initial identity) past begun)
    (sending : Run (Transport.step near) (Transport.Session outKey) begun sent lastSent)
    (room : (begun.record outKey).command.seqOut
      + (commandsSubmitted outKey sent).length < 2 ^ 32)
    (idle : ∀ number, number ∉ (listening.record inKey).command.held)
    (receiving : Run (step far) (Listens (emitted sent) outKey inKey) { transport := listening }
      received lastReceived)
    : (∀ thread, (partOf thread (commandCalls inKey (emitted received))).Sublist
        (commandsSubmitted outKey sent))
      ∧ ((commandCalls inKey (emitted received)).map Prod.snd).Subperm
          (commandsSubmitted outKey sent) := by
  have ledger := Transport.session_ledger reached sending room
  have short : ∀ command ∈ commandsSubmitted outKey sent,
      command.length + kGcmTagSize ≤ 65535 := by
    intro command member
    have fits := ledger.fits command member
    rw [kHeaderSize] at fits
    rw [kGcmTagSize]
    omega
  obtain ⟨released, channel, accounts, hears⟩ : ∃ released channel,
      Accounts inKey (commandCalls inKey (emitted received)) released lastReceived
      ∧ Transport.Hears (begun.record outKey).command.seqOut
          (commandsSubmitted outKey sent) inKey (released.map Prod.snd) channel
          lastReceived.transport := by
    refine receiving.invariant (fun received last => ∃ released channel,
      Accounts inKey (commandCalls inKey (emitted received)) released last
      ∧ Transport.Hears (begun.record outKey).command.seqOut
          (commandsSubmitted outKey sent) inKey (released.map Prod.snd) channel
          last.transport) ?_ ?_
    · refine ⟨[], [], ⟨fun thread => rfl⟩, CommandChannel.delivered_idle idle, ?_, rfl⟩
      rintro packet ⟨stage, member, -⟩
      exact absurd member List.not_mem_nil
    · rintro front state event after outputs - ⟨released, channel, accounts, hears⟩ listens taken
      rw [emitted_append, emitted_singleton, commandCalls, List.flatMap_append]
      exact step_accounts accounts hears room short ledger.posts listens taken
  have all : (released.map Prod.snd).Sublist (commandsSubmitted outKey sent) := by
    rw [← hears.handed]
    exact sublist_of_numbered hears.delivered.ordered.increasing fun packet member =>
      hears.known packet (hears.delivered.ordered.received packet member)
  have begins (thread : CallbackThread)
      : (partOf thread (commandCalls inKey (emitted received))).Sublist (partOf thread released) := by
    rw [accounts.parts thread]
    exact List.sublist_append_left _ _
  refine ⟨fun thread => ?_, ?_⟩
  · refine (begins thread).trans (.trans ?_ all)
    exact List.filter_sublist.map Prod.snd
  · have together := ((begins .reactor).append (begins .receiver)).subperm
    exact (perm_parts _).subperm.trans (together.trans ((perm_parts released).symm.subperm.trans
      all.subperm))

/-- The receiver calls back with a sealed command. -/
theorem commands_called_once_sealed
    : ∃ past begun sent lastSent received lastReceived,
      Run (Transport.step default) (fun _ _ _ => True)
        (Transport.initial Transport.strangerIdentity) past begun
      ∧ Run (Transport.step default) (Transport.Session (anonymousId stranger 0)) begun sent
          lastSent
      ∧ (∃ addr datagram input,
          Effect.send (anonymousId stranger 0) addr datagram (some input) ∈ emitted sent)
      ∧ Run (step default)
          (Listens (emitted sent) (anonymousId stranger 0)
            (anonymousId stranger 0))
          { transport := begun } received lastReceived
      ∧ commandCalls (anonymousId stranger 0) (emitted received) = [(.receiver, [7])]
      ∧ (∀ thread,
          (partOf thread (commandCalls (anonymousId stranger 0)
            (emitted received))).Sublist
          (commandsSubmitted (anonymousId stranger 0) sent))
      ∧ ((commandCalls (anonymousId stranger 0) (emitted received)).map Prod.snd).Subperm
          (commandsSubmitted (anonymousId stranger 0) sent) := by
  obtain ⟨past, begun, sent, lastSent, datagram, last, reached, sending, ⟨addr, input, posted⟩, room,
    idle, continues, relays, arrived⟩ := Transport.sealed_session
  have acted : step default { transport := begun }
      (.act .receiver ⟨⟨0, 0⟩, .datagram stranger datagram 0⟩)
      = .ok (
          await .receiver
            [.command (anonymousId stranger 0) (anonymousId stranger 0) [7]]
            { transport := last },
          []) := by
    simp only [step, arrived]
    rfl
  have listens : Listens (emitted sent) (anonymousId stranger 0)
      (anonymousId stranger 0) [] { transport := begun }
      (.act .receiver ⟨⟨0, 0⟩, .datagram stranger datagram 0⟩) := by
    intro thread occurrence same
    obtain ⟨rfl, rfl⟩ := CallingEvent.act.inj same
    exact ⟨continues, relays⟩
  have called (history : List (Stage Calling CallingEvent (CallbackThread × Effect))) (before : Calling)
      : Listens (emitted sent) (anonymousId stranger 0) (anonymousId stranger 0) history before
          (.call .receiver) := by
    intro thread occurrence same
    cases same
  have receiving : Run (step default)
      (Listens (emitted sent) (anonymousId stranger 0) (anonymousId stranger 0))
      { transport := begun } _ _ :=
    (Run.next .start listens acted).next (called _ _) rfl
  refine ⟨past, begun, sent, lastSent, _, _, reached, sending, ⟨addr, datagram, input, posted⟩,
    receiving, ?_, ?_⟩
  · rfl
  · exact commands_called_once (by decide) reached sending room idle receiving

end Calling

end Creek.Tight
