import Creek.Leaf.IngressStream
import Creek.Library.Runs

/-! The write queue of an ingress stream.
A message that waits is written when the write before it completes, unless the call is to end by
then or the write has failed: then nothing takes it out of the queue any more, and the call never
ends either.
-/

namespace Creek.Leaf

open Tight (Bytes)
open Mesh (Endpoint)
open Library

/-- The messages that are handed to the client call. -/
def written (actions : List IngressAction) : List Bytes :=
  actions.filterMap fun action =>
    match action with
    | .write bytes => some bytes
    | _ => none

@[simp] theorem written_nil : written [] = [] := rfl

@[simp] theorem written_append (front back : List IngressAction)
    : written (front ++ back) = written front ++ written back :=
  List.filterMap_append

namespace IngressStream

variable {stream after later : IngressStream} {actions more : List IngressAction}
  {around : Surroundings}

-- What leaves the write queue alone

/-- A part of a handler that neither queues nor writes. It ends the call only when nothing is
queued or under way, and it does not take back that the call is to end.
-/
structure Calm (stream after : IngressStream) (actions : List IngressAction) : Prop where
  queue : after.writeQueue = stream.writeQueue
  outstanding : after.writeOutstanding = stream.writeOutstanding
  dead : after.dead = stream.dead
  pending : stream.finishPending = true → after.finishPending = true
  finishing : stream.finishing = true → after.finishing = true
  ends : after.finishing = true → stream.finishing = true
    ∨ stream.writeQueue = [] ∧ stream.writeOutstanding = false
  silent : written actions = []
  finishes : ∀ status, .finish status ∈ actions → after.finishing = true

theorem Calm.of_fields (queue : after.writeQueue = stream.writeQueue)
    (outstanding : after.writeOutstanding = stream.writeOutstanding)
    (dead : after.dead = stream.dead)
    (pending : after.finishPending = stream.finishPending)
    (finishing : after.finishing = stream.finishing)
    : Calm stream after [] where
  queue := queue
  outstanding := outstanding
  dead := dead
  pending := fun ends => pending.trans ends
  finishing := fun ends => finishing.trans ends
  ends := fun ends => .inl (finishing.symm.trans ends)
  silent := rfl
  finishes := fun _ member => absurd member List.not_mem_nil

theorem Calm.refl (stream : IngressStream) : Calm stream stream [] :=
  .of_fields rfl rfl rfl rfl rfl

theorem Calm.trans (first : Calm stream after actions) (second : Calm after later more)
    : Calm stream later (actions ++ more) where
  queue := second.queue.trans first.queue
  outstanding := second.outstanding.trans first.outstanding
  dead := second.dead.trans first.dead
  pending := fun pending => second.pending (first.pending pending)
  finishing := fun finishing => second.finishing (first.finishing finishing)
  ends := by
    intro finishing
    rcases second.ends finishing with earlier | ⟨empty, idle⟩
    · exact first.ends earlier
    · exact .inr ⟨first.queue.symm.trans empty, first.outstanding.symm.trans idle⟩
  silent := by rw [written_append, first.silent, second.silent, List.append_nil]
  finishes := by
    intro status member
    rcases List.mem_append.mp member with early | late
    · exact second.finishing (first.finishes status early)
    · exact second.finishes status late

/-- Whether an action neither writes to the client nor ends the call. -/
def plain : IngressAction → Bool
  | .write _ => false
  | .finish _ => false
  | _ => true

theorem Calm.of_plain (stream : IngressStream) (quiet : ∀ action ∈ actions, plain action = true)
    : Calm stream stream actions where
  queue := rfl
  outstanding := rfl
  dead := rfl
  pending := id
  finishing := id
  ends := .inl
  silent := by
    refine List.filterMap_eq_nil_iff.mpr fun action member => ?_
    have calm := quiet action member
    cases action <;> first | rfl | cases calm
  finishes := fun status member => absurd (quiet _ member) (by simp [plain])

theorem Calm.changed (calm : Calm after later more) (queue : after.writeQueue = stream.writeQueue)
    (outstanding : after.writeOutstanding = stream.writeOutstanding)
    (dead : after.dead = stream.dead)
    (pending : after.finishPending = stream.finishPending)
    (finishing : after.finishing = stream.finishing)
    : Calm stream later more :=
  (Calm.of_fields queue outstanding dead pending finishing).trans calm

theorem Calm.acted (calm : Calm stream after more) (quiet : ∀ action ∈ actions, plain action = true)
    : Calm stream after (actions ++ more) :=
  (Calm.of_plain stream quiet).trans calm

theorem Calm.cons {action : IngressAction} (calm : Calm stream after more)
    (quiet : plain action = true)
    : Calm stream after (action :: more) :=
  calm.acted (List.forall_mem_singleton.mpr quiet)

theorem tryFinish_calm (stream : IngressStream)
    : Calm stream stream.tryFinish.1 stream.tryFinish.2 := by
  rw [tryFinish]
  split
  · exact .refl stream
  · split
    · exact {
        Calm.refl stream with
        pending := fun _ => rfl
      }
    · rename_i busy
      have free : stream.writeQueue = [] ∧ stream.writeOutstanding = false := by
        simpa [and_comm] using busy
      split
      · exact {
          Calm.refl stream with
          pending := fun _ => rfl
        }
      · exact {
          Calm.refl stream with
          finishing := fun _ => rfl
          ends := fun _ => .inr free
          finishes := fun _ _ => rfl
        }

theorem forwardFrame_plain (around : Surroundings) (bytes : Bytes) (halfClose : Bool)
    (stream : IngressStream)
    : ∀ action ∈ stream.forwardFrame around bytes halfClose, plain action = true := by
  rw [forwardFrame]
  split
  · simp
  · split
    · simp [plain]
    · split <;> simp [plain]

theorem flush_calm (around : Surroundings) (stream : IngressStream)
    : Calm stream (stream.flush around).1 (stream.flush around).2 := by
  refine (Calm.of_plain _ fun action member => ?_).changed rfl rfl rfl rfl rfl
  obtain ⟨bytes, -, passed⟩ := List.mem_flatMap.mp member
  exact forwardFrame_plain around bytes false _ action passed

theorem beginStream_calm (around : Surroundings) (stream : IngressStream)
    : Calm stream (stream.beginStream around).1 (stream.beginStream around).2 := by
  rw [beginStream]
  split
  · split
    · exact .refl stream
    · exact (tryFinish_calm _).changed rfl rfl rfl rfl rfl
  · rename_i endpoint created _
    split
    · split
      · refine Calm.cons ?_ rfl
        exact (flush_calm around _).changed rfl rfl rfl rfl rfl
      · split
        · exact tryFinish_calm stream
        · exact (tryFinish_calm _).changed rfl rfl rfl rfl rfl
    · refine Calm.cons ?_ rfl
      exact (flush_calm around _).changed rfl rfl rfl rfl rfl

theorem beginHalfClosed_calm (around : Surroundings) (stream : IngressStream)
    : Calm stream (stream.beginHalfClosed around).1 (stream.beginHalfClosed around).2 :=
  (beginStream_calm around stream).trans (.of_plain _ (forwardFrame_plain around [] true _))

theorem teardown_calm (around : Surroundings) (status : Status) (stream : IngressStream)
    : Calm stream (stream.teardown around status).1 (stream.teardown around status).2 := by
  rw [teardown]
  split
  · exact .of_plain stream (by simp [plain])
  · dsimp only
    rw [← List.cons_append]
    refine Calm.acted ?_ ?_
    · exact (tryFinish_calm _).changed rfl rfl rfl rfl rfl
    · split <;> simp [plain]

theorem backendClosed_calm (status : Status) (stream : IngressStream)
    : Calm stream (stream.backendClosed status).1 (stream.backendClosed status).2 := by
  rw [backendClosed]
  split
  · exact .refl stream
  · exact (tryFinish_calm _).changed rfl rfl rfl rfl rfl

theorem onRead_calm (around : Surroundings) (message : Option Bytes) (stream : IngressStream)
    : Calm stream (stream.onRead around message).1 (stream.onRead around message).2 := by
  rw [onRead]
  split
  · exact .refl stream
  · dsimp only
    split
    · exact (tryFinish_calm _).changed rfl rfl rfl rfl rfl
    · split
      · exact .of_fields rfl rfl rfl rfl rfl
      · exact (Calm.of_plain _ (by simp [plain])).changed rfl rfl rfl rfl rfl
      · exact (beginHalfClosed_calm around _).changed rfl rfl rfl rfl rfl
      · refine Calm.cons (Calm.cons ?_ rfl) rfl
        exact (beginStream_calm around _).changed rfl rfl rfl rfl rfl
      · refine Calm.cons ?_ rfl
        exact (beginHalfClosed_calm around _).changed rfl rfl rfl rfl rfl
      · split
        · exact .of_fields rfl rfl rfl rfl rfl
        · refine Calm.cons ?_ rfl
          exact (Calm.of_plain _ (forwardFrame_plain around _ _ _)).changed rfl rfl rfl rfl rfl
      · split
        · exact .of_fields rfl rfl rfl rfl rfl
        · exact (Calm.of_plain _ (forwardFrame_plain around _ _ _)).changed rfl rfl rfl rfl rfl

theorem onAlarm_calm (around : Surroundings) (ok : Bool) (stream : IngressStream)
    : Calm stream (stream.onAlarm around ok).1 (stream.onAlarm around ok).2 := by
  rw [onAlarm]
  split
  · exact .refl stream
  · split
    · exact .refl stream
    · exact (beginStream_calm around _).changed rfl rfl rfl rfl rfl

/-- Every event but a completed write, a message of the backend and the end of the call is calm. -/
theorem handle_calm {event : IngressEvent} (unwritten : ∀ ok, event ≠ .write ok)
    (unsent : ∀ bytes, event ≠ .backendMessage bytes) (unfinished : event ≠ .finish)
    : Calm stream (stream.handle around event).1 (stream.handle around event).2 := by
  cases event with
  | read message => exact onRead_calm around message stream
  | write ok => exact absurd rfl (unwritten ok)
  | finish => exact absurd rfl unfinished
  | alarm ok => exact onAlarm_calm around ok stream
  | backendMessage bytes => exact absurd rfl (unsent bytes)
  | backendClosed status => exact backendClosed_calm status stream
  | teardown status => exact teardown_calm around status stream

-- Runs

/-- One event, in its surroundings, as a step of a run; it cannot fail. -/
def step (stream : IngressStream) (event : Surroundings × IngressEvent)
    : Except Empty (IngressStream × List IngressAction) :=
  .ok (stream.handle event.1 event.2)

/-- The message of the backend that an event brings and the stream takes. -/
def accepts (stream : IngressStream) : IngressEvent → List Bytes
  | .backendMessage bytes =>
      if stream.isOver then []
      else if stream.writeOutstanding ∧ kMaxIngressWriteQueue ≤ stream.writeQueue.length then []
      else [bytes]
  | _ => []

/-- Whether an event is the completion of a write, with messages in the queue, that has failed or
that comes when the call is to end.
-/
def Stalls (stream : IngressStream) (event : IngressEvent) : Prop :=
  stream.isOver = false ∧ stream.writeQueue ≠ []
  ∧ (event = .write false ∨ (∃ ok, event = .write ok) ∧ stream.finishPending = true)

/-- What waits is behind a write that is under way. -/
def Progress (stream : IngressStream) : Prop :=
  stream.isOver = false → stream.writeQueue ≠ [] → stream.writeOutstanding = true

end IngressStream

abbrev IngressHistory := List (Stage IngressStream (Surroundings × IngressEvent) IngressAction)

/-- The messages of the backend that a stream has taken. -/
def acceptedIn (history : IngressHistory) : List Bytes :=
  history.flatMap fun stage => stage.before.accepts stage.event.2

/-- At an event: what waits keeps being written, and the call ends only once everything that was
taken has been written, in order.
-/
structure Fluent (front : IngressHistory)
    (stage : Stage IngressStream (Surroundings × IngressEvent) IngressAction)
    : Prop where
  progress : (stage.before.handle stage.event.1 stage.event.2).1.Progress
  complete : ∀ status, .finish status ∈ stage.outputs
    → written (emitted (front ++ [stage])) = acceptedIn (front ++ [stage])
      ∧ (stage.before.handle stage.event.1 stage.event.2).1.writeOutstanding = false

namespace IngressStream

variable {stream : IngressStream} {around : Surroundings} {history : IngressHistory}

/-- Everything that was taken has been written or waits, and what waits progresses. -/
structure Ordered (history : IngressHistory) (stream : IngressStream) : Prop where
  unstalled : ∀ stage ∈ history, ¬stage.before.Stalls stage.event.2
  order : acceptedIn history = written (emitted history) ++ stream.writeQueue
  progress : stream.Progress

/-- The call is to end, but messages wait and nothing takes them out. -/
structure Stuck (history : IngressHistory) (stream : IngressStream) : Prop where
  stalled : ∃ stage ∈ history, stage.before.Stalls stage.event.2
  pending : stream.finishPending = true
  waiting : stream.writeQueue ≠ []
  unfinished : stream.finishing = false

/-- A stream is ordered or stuck, and once it ends nothing waits or is under way. -/
structure Kept (history : IngressHistory) (stream : IngressStream) : Prop where
  ended : stream.finishing = true → stream.writeQueue = [] ∧ stream.writeOutstanding = false
  either : stream.Ordered history ∨ stream.Stuck history

@[simp] theorem acceptedIn_append (front : IngressHistory)
    (stage : Stage IngressStream (Surroundings × IngressEvent) IngressAction)
    : acceptedIn (front ++ [stage]) = acceptedIn front ++ stage.before.accepts stage.event.2 := by
  simp [acceptedIn]

/-- A calm part at an event that takes nothing and does not stall keeps the stream as it is. -/
theorem Kept.calm {before after : IngressStream} {event : Surroundings × IngressEvent}
    {outputs : List IngressAction} (kept : stream.Kept history) (calm : Calm stream after outputs)
    (untaken : before.accepts event.2 = []) (smooth : ¬before.Stalls event.2)
    : after.Kept (history ++ [{ before := before, event, outputs }]) := by
  constructor
  · intro finishing
    rw [calm.queue, calm.outstanding]
    rcases calm.ends finishing with earlier | free
    · exact kept.ended earlier
    · exact free
  · rcases kept.either with ordered | stuck
    · refine .inl ⟨?_, ?_, ?_⟩
      · intro stage member
        rcases List.mem_append.mp member with earlier | last
        · exact ordered.unstalled stage earlier
        · obtain rfl := List.mem_singleton.mp last
          exact smooth
      · rw [acceptedIn_append, emitted_append, emitted_singleton, written_append, calm.silent, calm.queue]
        simpa [untaken] using ordered.order
      · intro running waiting
        rw [calm.queue] at waiting
        rw [calm.outstanding]
        refine ordered.progress ?_ waiting
        simp only [isOver, Bool.or_eq_false_iff] at running ⊢
        refine ⟨calm.dead.symm.trans running.1, ?_⟩
        by_contra finishing
        have later := calm.finishing (by simpa using finishing)
        rw [later] at running
        cases running.2
    · refine .inr ⟨?_, calm.pending stuck.pending, ?_, ?_⟩
      · obtain ⟨stage, member, stalls⟩ := stuck.stalled
        exact ⟨stage, List.mem_append_left _ member, stalls⟩
      · rw [calm.queue]
        exact stuck.waiting
      · by_contra finishing
        rcases calm.ends (by simpa using finishing) with earlier | ⟨empty, -⟩
        · rw [stuck.unfinished] at earlier
          cases earlier
        · exact stuck.waiting empty

theorem Kept.idle (kept : stream.Kept history) (settled : stream.isOver = true ∨ stream.writeQueue = [])
    : { stream with writeOutstanding := false }.Kept history := by
  refine ⟨fun finishing => ⟨(kept.ended finishing).1, rfl⟩, ?_⟩
  rcases kept.either with ordered | stuck
  · refine .inl ⟨ordered.unstalled, ordered.order, fun running waiting => ?_⟩
    rcases settled with isOver | empty
    · rw [show stream.isOver = false from running] at isOver
      cases isOver
    · exact absurd empty waiting
  · exact .inr ⟨stuck.stalled, stuck.pending, stuck.waiting, stuck.unfinished⟩

theorem tryFinish_waiting (running : stream.isOver = false) (waiting : stream.writeQueue ≠ [])
    : stream.tryFinish = ({ stream with finishPending := true }, []) := by
  have queued : (stream.writeOutstanding || !stream.writeQueue.isEmpty) = true := by
    simp [waiting]
  rw [tryFinish, running, if_neg (by simp), if_pos queued]

theorem teardown_waiting (status : Status) (running : stream.isOver = false)
    (waiting : stream.writeQueue ≠ [])
    : (stream.teardown around status).1.finishPending = true := by
  have still : { stream with finishStatus := status, readStopped := true, backend := false }.isOver =
      false := running
  rw [teardown, running, if_neg (by simp)]
  dsimp only
  rw [tryFinish_waiting still waiting]

theorem onWrite_failed (alive : stream.dead = false)
    : stream.onWrite around false =
      { stream with writeOutstanding := false }.teardown around writeFailed := by
  rw [onWrite, if_neg (by simp [alive])]
  rfl

/-- A completed write with messages behind it goes on to the next, unless the call is to end. -/
theorem onWrite_waiting (running : stream.isOver = false) {bytes : Bytes} {rest : List Bytes}
    (queue : stream.writeQueue = bytes :: rest)
    : stream.onWrite around true =
      if stream.finishPending then { stream with writeOutstanding := false }.tryFinish
      else ({ stream with writeQueue := rest, writeOutstanding := true }, [.write bytes]) := by
  have alive : stream.dead = false ∧ stream.finishing = false := by
    simpa [isOver] using running
  rw [onWrite, if_neg (by simp [alive.1])]
  dsimp only
  rw [if_neg (by simp)]
  split
  · rename_i first others held
    obtain ⟨rfl, rfl⟩ := List.cons.inj (held.symm.trans queue)
    rcases ending : stream.finishPending with _ | _
    · rw [if_pos (by simp [alive.2]), if_neg (by simp)]
    · rw [if_neg (by simp), if_pos rfl, if_pos rfl]
  · rename_i held
    rw [held] at queue
    cases queue

/-- A completed write with nothing behind it ends the call if it is to end. -/
theorem onWrite_idle (alive : stream.dead = false) (empty : stream.writeQueue = [])
    : stream.onWrite around true =
      if stream.finishPending then { stream with writeOutstanding := false }.tryFinish
      else ({ stream with writeOutstanding := false }, []) := by
  rw [onWrite, if_neg (by simp [alive])]
  dsimp only
  rw [if_neg (by simp)]
  split
  · rename_i held
    rw [empty] at held
    cases held
  · rfl

/-- A completion that stalls leaves the stream stuck, with nothing under way. -/
theorem stuck_of_stalls {event : IngressEvent} {outputs : List IngressAction}
    (stalls : stream.Stalls event)
    : (stream.handle around event).1.Stuck
        (history ++ [{ before := stream, event := (around, event), outputs }])
      ∧ (stream.handle around event).1.isOver = false
      ∧ (stream.handle around event).1.writeOutstanding = false
      ∧ Calm { stream with writeOutstanding := false } (stream.handle around event).1
        (stream.handle around event).2 := by
  obtain ⟨running, waiting, bad⟩ := id stalls
  have alive : stream.dead = false ∧ stream.finishing = false := by
    simpa [isOver] using running
  obtain ⟨bytes, rest, queue⟩ := List.exists_cons_of_ne_nil waiting
  have calm : Calm { stream with writeOutstanding := false } (stream.handle around event).1
        (stream.handle around event).2
      ∧ (stream.handle around event).1.finishPending = true := by
    have still : { stream with writeOutstanding := false }.isOver = false := running
    have failed : Calm { stream with writeOutstanding := false }
          (stream.handle around (.write false)).1 (stream.handle around (.write false)).2
        ∧ (stream.handle around (.write false)).1.finishPending = true := by
      rw [handle, onWrite_failed alive.1]
      exact ⟨teardown_calm around writeFailed _, teardown_waiting writeFailed still waiting⟩
    rcases bad with rfl | ⟨⟨ok, rfl⟩, pending⟩
    · exact failed
    · cases ok with
      | false => exact failed
      | true =>
          rw [handle, onWrite_waiting running queue, if_pos pending]
          refine ⟨tryFinish_calm _, ?_⟩
          rw [tryFinish_waiting still waiting]
  obtain ⟨calm, pending⟩ := calm
  have unfinished : (stream.handle around event).1.finishing = false := by
    by_contra finishing
    rcases calm.ends (by simpa using finishing) with earlier | ⟨empty, -⟩
    · rw [show stream.finishing = true from earlier] at alive
      cases alive.2
    · exact waiting empty
  refine ⟨⟨⟨_, List.mem_append_right _ (List.mem_singleton_self _), stalls⟩, pending, ?_, unfinished⟩,
    ?_, calm.outstanding, calm⟩
  · rw [calm.queue]
    exact waiting
  · rw [isOver, calm.dead, unfinished]
    exact (Bool.or_false _).trans alive.1

/-- The completion of a write keeps the stream, ordered or stuck. -/
theorem Kept.write (kept : stream.Kept history) (ok : Bool)
    : (stream.handle around (.write ok)).1.Kept
        (history
        ++ [{
            before := stream
            event := (around, .write ok)
            outputs := (stream.handle around (.write ok)).2
          }]) := by
  by_cases stalls : stream.Stalls (.write ok)
  · obtain ⟨stuck, -, -, -⟩ := @stuck_of_stalls stream around history (.write ok)
      (stream.handle around (.write ok)).2 stalls
    refine ⟨fun finishing => ?_, .inr stuck⟩
    rw [stuck.unfinished] at finishing
    cases finishing
  · rcases alive : stream.dead with _ | _
    · have settled : stream.isOver = true ∨ stream.writeQueue = [] ∨
          ok = true ∧ stream.finishPending = false := by
        by_contra unsettled
        push Not at unsettled
        obtain ⟨running, waiting, rest⟩ := unsettled
        refine stalls ⟨by simpa using running, waiting, ?_⟩
        cases ok with
        | false => exact .inl rfl
        | true => exact .inr ⟨⟨true, rfl⟩, by simpa using rest rfl⟩
      have quiet : stream.isOver = true ∨ stream.writeQueue = []
          → ∀ outcome : IngressStream × List IngressAction,
            Calm { stream with writeOutstanding := false } outcome.1 outcome.2
          → outcome.1.Kept
            (history
            ++ [{ before := stream, event := (around, .write ok), outputs := outcome.2 }]) :=
        fun free outcome calm => (kept.idle free).calm calm rfl stalls
      cases ok with
      | false =>
          rw [handle, onWrite_failed alive]
          refine quiet ?_ _ (teardown_calm around writeFailed _)
          rcases settled with isOver | empty | ⟨impossible, -⟩
          · exact .inl isOver
          · exact .inr empty
          · cases impossible
      | true =>
          rcases queue : stream.writeQueue with _ | ⟨bytes, rest⟩
          · rw [handle, onWrite_idle alive queue]
            refine quiet (.inr queue) _ ?_
            split
            · exact tryFinish_calm _
            · exact .refl _
          · rcases running : stream.isOver with _ | _
            · rw [handle, onWrite_waiting running queue]
              have unpending : stream.finishPending = false := by
                rcases settled with isOver | empty | ⟨-, unpending⟩
                · rw [running] at isOver
                  cases isOver
                · rw [queue] at empty
                  cases empty
                · exact unpending
              rw [if_neg (by simp [unpending])]
              refine ⟨fun finishing => ?_, ?_⟩
              · have ended := (kept.ended finishing).1
                rw [queue] at ended
                cases ended
              · rcases kept.either with ordered | stuck
                · refine .inl ⟨?_, ?_, fun _ _ => rfl⟩
                  · intro stage member
                    rcases List.mem_append.mp member with earlier | last
                    · exact ordered.unstalled stage earlier
                    · obtain rfl := List.mem_singleton.mp last
                      exact stalls
                  · rw [acceptedIn_append, emitted_append, emitted_singleton, written_append,
                      ordered.order, queue]
                    simp [accepts, written]
                · have pending := stuck.pending
                  rw [unpending] at pending
                  cases pending
            · have finishing : stream.finishing = true := by
                simpa [isOver, alive] using running
              have ended := (kept.ended finishing).1
              rw [queue] at ended
              cases ended
    · have unchanged : stream.handle around (.write ok) = (stream, []) := by
        rw [handle, onWrite, if_pos alive]
      rw [unchanged]
      exact kept.calm (.refl stream) rfl stalls

/-- A message of the backend keeps the stream, ordered or stuck. -/
theorem Kept.backendMessage (kept : stream.Kept history) (bytes : Bytes)
    : (stream.handle around (.backendMessage bytes)).1.Kept
        (history
        ++ [{
            before := stream
            event := (around, .backendMessage bytes)
            outputs := (stream.handle around (.backendMessage bytes)).2
          }]) := by
  have smooth : ¬stream.Stalls (.backendMessage bytes) := by
    rintro ⟨-, -, same | ⟨⟨ok, same⟩, -⟩⟩ <;> cases same
  have unstalled : stream.Ordered history → ∀ outputs, ∀ stage ∈ history
      ++ [{ before := stream, event := (around, .backendMessage bytes), outputs }],
      ¬stage.before.Stalls stage.event.2 := by
    intro ordered outputs stage member
    rcases List.mem_append.mp member with earlier | last
    · exact ordered.unstalled stage earlier
    · obtain rfl := List.mem_singleton.mp last
      exact smooth
  rw [handle, IngressStream.backendMessage, queueWrite]
  split
  · rename_i isOver
    exact kept.calm (.of_fields rfl rfl rfl rfl rfl) (if_pos isOver) smooth
  · rename_i open_
    have open_ : stream.isOver = false :=
      Bool.eq_false_iff.mpr (show ¬stream.isOver = true from open_)
    have unfinished : stream.finishing = false := (Bool.or_eq_false_iff.mp open_).2
    split
    · rename_i outstanding
      split
      · rename_i full
        refine kept.calm ?_ ?_ smooth
        · exact (teardown_calm around clientReadStall _).changed rfl rfl rfl rfl rfl
        · rw [accepts, if_neg (by simp [open_]), if_pos ⟨outstanding, full⟩]
      · rename_i room
        have taken : stream.accepts (.backendMessage bytes) = [bytes] := by
          rw [accepts, if_neg (by simp [open_]), if_neg fun both => room both.2]
        refine ⟨fun finishing => ?_, ?_⟩
        · cases (show stream.finishing = true from finishing).symm.trans unfinished
        · rcases kept.either with ordered | stuck
          · refine .inl ⟨unstalled ordered _, ?_, fun _ _ => outstanding⟩
            rw [acceptedIn_append, emitted_append, emitted_singleton, ordered.order, taken]
            simp
          · obtain ⟨stage, member, stalls⟩ := stuck.stalled
            exact .inr ⟨⟨stage, List.mem_append_left _ member, stalls⟩, stuck.pending, by simp,
              stuck.unfinished⟩
    · rename_i idle
      have taken : stream.accepts (.backendMessage bytes) = [bytes] := by
        rw [accepts, if_neg (by simp [open_]), if_neg fun both => idle both.1]
      refine ⟨fun finishing => ?_, ?_⟩
      · cases (show stream.finishing = true from finishing).symm.trans unfinished
      · rcases kept.either with ordered | stuck
        · have empty : stream.writeQueue = [] := by
            by_contra waiting
            exact idle (ordered.progress open_ waiting)
          refine .inl ⟨unstalled ordered _, ?_, fun _ _ => rfl⟩
          rw [acceptedIn_append, emitted_append, emitted_singleton, ordered.order, taken]
          simp [written, empty]
        · obtain ⟨stage, member, stalls⟩ := stuck.stalled
          exact .inr ⟨⟨stage, List.mem_append_left _ member, stalls⟩, stuck.pending, stuck.waiting,
            stuck.unfinished⟩

theorem Kept.handle (kept : stream.Kept history) (around : Surroundings) (event : IngressEvent)
    : (stream.handle around event).1.Kept
        (history
        ++ [{
            before := stream
            event := (around, event)
            outputs := (stream.handle around event).2
          }]) := by
  by_cases written : ∃ ok, event = .write ok
  · obtain ⟨ok, rfl⟩ := written
    exact kept.write ok
  by_cases sent : ∃ bytes, event = .backendMessage bytes
  · obtain ⟨bytes, rfl⟩ := sent
    exact kept.backendMessage bytes
  push Not at written sent
  have untaken : stream.accepts event = [] := by
    cases event with
    | backendMessage bytes => exact absurd rfl (sent bytes)
    | _ => rfl
  have smooth : ¬stream.Stalls event := by
    rintro ⟨-, -, same | ⟨⟨ok, same⟩, -⟩⟩
    · exact written false same
    · exact written ok same
  by_cases finished : event = .finish
  · subst finished
    refine ⟨kept.ended, ?_⟩
    rcases kept.either with ordered | stuck
    · refine .inl ⟨?_, ?_, ?_⟩
      · intro stage member
        rcases List.mem_append.mp member with earlier | last
        · exact ordered.unstalled stage earlier
        · obtain rfl := List.mem_singleton.mp last
          exact smooth
      · rw [acceptedIn_append, emitted_append, emitted_singleton, untaken]
        show acceptedIn history ++ [] = Leaf.written (emitted history ++ []) ++ stream.writeQueue
        rw [List.append_nil, List.append_nil]
        exact ordered.order
      · intro running
        simp [IngressStream.handle, onFinish, isOver] at running
    · obtain ⟨stage, member, stalls⟩ := stuck.stalled
      exact .inr ⟨⟨stage, List.mem_append_left _ member, stalls⟩, stuck.pending, stuck.waiting,
        stuck.unfinished⟩
  · exact kept.calm (handle_calm written sent finished) untaken smooth

theorem handle_finishes {event : IngressEvent} {status : Status}
    (finishes : .finish status ∈ (stream.handle around event).2)
    : (stream.handle around event).1.finishing = true := by
  by_cases written : ∃ ok, event = .write ok
  · obtain ⟨ok, rfl⟩ := written
    revert finishes
    rw [handle, onWrite]
    split
    · simp
    · dsimp only
      split
      · exact (teardown_calm around writeFailed _).finishes status
      · split
        · split
          · simp
          · split
            · exact (tryFinish_calm _).finishes status
            · simp
        · split
          · exact (tryFinish_calm _).finishes status
          · simp
  by_cases sent : ∃ bytes, event = .backendMessage bytes
  · obtain ⟨bytes, rfl⟩ := sent
    revert finishes
    rw [handle, IngressStream.backendMessage, queueWrite]
    split
    · simp
    · split
      · split
        · exact (teardown_calm around clientReadStall _).finishes status
        · simp
      · simp
  push Not at written sent
  by_cases finished : event = .finish
  · subst finished
    cases finishes
  · exact (handle_calm written sent finished).finishes status finishes

theorem run_kept {allowed : IngressHistory → IngressStream → Surroundings × IngressEvent → Prop}
    {requestId method : Bytes} {metadata : List (Bytes × Bytes)}
    (run : Run step allowed (newCall requestId method metadata) history stream)
    : stream.Kept history := by
  refine run.invariant (fun history stream => stream.Kept history) ?_ ?_
  · refine ⟨nofun, .inl ⟨?_, rfl, fun _ waiting => absurd rfl waiting⟩⟩
    exact fun stage member => absurd member List.not_mem_nil
  · rintro history stream ⟨around, event⟩ after outputs _ kept _ taken
    obtain ⟨rfl, rfl⟩ := Prod.mk.inj (Except.ok.inj taken)
    exact kept.handle around event

/-- In every run, whatever the order of events: what waits keeps being written, and the call ends
only once everything taken from the backend has been written in order, exactly when no write
completes with messages in the queue after it has failed or while the call is to end.
-/
theorem fluent_iff_unstalled {requestId method : Bytes} {metadata : List (Bytes × Bytes)}
    (run : Run step (fun _ _ _ => True) (newCall requestId method metadata) history stream)
    : (∀ front stage back, history = front ++ stage :: back → Fluent front stage)
      ↔ ∀ stage ∈ history, ¬stage.before.Stalls stage.event.2 := by
  constructor
  · intro fluent stage member stalls
    obtain ⟨front, back, split⟩ := List.append_of_mem member
    obtain ⟨stuck, running, idle, -⟩ := @stuck_of_stalls stage.before stage.event.1 front
      stage.event.2 stage.outputs stalls
    have outstanding := (fluent front stage back split).progress running stuck.waiting
    rw [idle] at outstanding
    cases outstanding
  · intro unstalled front stage back split
    obtain ⟨before, -, after, taken⟩ := run.at_stage split
    have outputs : stage.outputs = (stage.before.handle stage.event.1 stage.event.2).2 :=
      (congrArg Prod.snd (Except.ok.inj taken)).symm
    have kept := (run_kept before).handle stage.event.1 stage.event.2
    rw [← outputs] at kept
    rcases kept.either with ordered | stuck
    · refine ⟨ordered.progress, fun status finishes => ?_⟩
      rw [outputs] at finishes
      obtain ⟨empty, idle⟩ := kept.ended (handle_finishes finishes)
      have order := ordered.order
      rw [empty, List.append_nil] at order
      exact ⟨order.symm, idle⟩
    · obtain ⟨stalled, member, stalls⟩ := stuck.stalled
      refine absurd stalls (unstalled stalled ?_)
      rw [split, ← List.singleton_append, ← List.append_assoc]
      exact List.mem_append_left _ member

/-- The surroundings at a leaf where picks are refused. -/
def refusing : Surroundings where
  leafId := [1]
  nodeId := [2]
  pick := .refused {}
  deadlineMs := 0

/-- Witness: the second message of the backend is written when the first is. -/
theorem fluent_iff_unstalled_drained
    : Fluent
        [
          {
            before := newCall [7] [8] []
            event := (refusing, .backendMessage [1])
            outputs := [.write [1]]
          },
          {
            before := { newCall [7] [8] [] with backendConfirmed := true, writeOutstanding := true }
            event := (refusing, .backendMessage [2])
            outputs := []
          }
        ]
        {
          before :=
            {
              newCall [7] [8] [] with
              backendConfirmed := true
              writeOutstanding := true
              writeQueue := [[2]]
            }
          event := (refusing, .write true)
          outputs := [.write [2]]
        } := by
  have run : Run step (fun _ _ _ => True) (newCall [7] [8] []) _ _ :=
    .extend .start (rfl : execute step (newCall [7] [8] [])
      [
        (refusing, .backendMessage [1]),
        (refusing, .backendMessage [2]),
        (refusing, .write true)
      ] = _)
  refine (fluent_iff_unstalled run).mpr (fun stage member => ?_) _ _ [] rfl
  have smooth : stage.before.finishPending = false ∧ stage.event.2 ≠ .write false := by
    revert stage
    decide
  intro stalls
  rcases stalls.2.2 with failed | ⟨-, ending⟩
  · exact smooth.2 failed
  · cases smooth.1.symm.trans ending

/-- Three messages of the backend and its close come while the first message is being written:
when that is done, the others stay in the queue and no write is under way.
-/
theorem close_strands_queue
    : ∃ history stream, Run step (fun _ _ _ => True) (newCall [7] [8] []) history stream
      ∧ stream.isOver = false
      ∧ stream.writeQueue = [[2], [3]]
      ∧ stream.writeOutstanding = false := by
  refine ⟨_, _, .extend .start (rfl : execute step (newCall [7] [8] [])
    [
      (refusing, .backendMessage [1]),
      (refusing, .backendMessage [2]),
      (refusing, .backendMessage [3]),
      (refusing, .backendClosed {}),
      (refusing, .write true)
    ] = _), ?_⟩
  exact ⟨rfl, rfl, rfl⟩

end IngressStream

end Creek.Leaf
