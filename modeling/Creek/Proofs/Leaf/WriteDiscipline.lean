import Creek.Leaf.BackendCall

/-! What a call to a backend is asked to write. Messages are written one at a time, in the order they
were accepted, from the start of the call on. The half-close is passed on when nothing waits; a
message that the client's side hands over after it is written all the same.
-/

namespace Creek.Leaf

open Tight (Bytes)
open Library

/-- No write follows a half-close. -/
def ClosesLast (actions : List BackendAction) : Prop :=
  actions.Pairwise fun earlier later => earlier = .writesDone → ∀ bytes, later ≠ .write bytes

/-- What gRPC asks of the writes of a call, and the order of the messages. -/
structure WriteDiscipline (history : BackendHistory) : Prop where
  order : passed (emitted history) <+: queuedIn history
  single : begunIn history .write ≤ completedIn history .write + 1
  started : passed (emitted history) ≠ [] → ∃ stage ∈ history, stage.event = .start true
  once : begunIn history .writesDone ≤ 1
  last : ClosesLast (emitted history)

/-- A message that reaches the call after its half-close was passed on. -/
def BackendStream.IsLate (stream : BackendStream) (event : BackendEvent) : Prop :=
  stream.finished = false ∧ stream.writesDoneSent = true ∧ ∃ bytes, event = .clientMessage bytes

namespace BackendStream

variable {stream after : BackendStream} {actions more : List BackendAction} {accepted : List Bytes}
  {completed : Nat}

@[simp] theorem passed_append (front back : List BackendAction)
    : passed (front ++ back) = passed front ++ passed back :=
  List.filterMap_append

/-- Writes and completions against what was accepted and asked of the call. -/
structure Kept (accepted : List Bytes) (actions : List BackendAction) (completed : Nat)
    (stream : BackendStream)
    : Prop where
  order : accepted = passed actions ++ stream.writeQueue
  single : (passed actions).length = completed + if stream.writeOutstanding then 1 else 0
  opened : passed actions ≠ [] ∨ stream.writesDoneSent = true → stream.started = true
  closed : actions.count .writesDone = if stream.writesDoneSent then 1 else 0

/-- As long as no write has followed the half-close, nothing waits behind it. -/
def Idle (actions : List BackendAction) (stream : BackendStream) : Prop :=
  ClosesLast actions → stream.writesDoneSent = true
    → stream.writeQueue = [] ∧ stream.writeOutstanding = false

-- Driving the writes

theorem driveWrites_cases (stream : BackendStream)
    : (∃ bytes rest, stream.started = true ∧ stream.writeOutstanding = false
          ∧ stream.writeQueue = bytes :: rest
          ∧ stream.driveWrites =
            ({ stream with writeQueue := rest, writeOutstanding := true }, [.write bytes]))
      ∨ (stream.started = true ∧ stream.writeOutstanding = false ∧ stream.writeQueue = []
          ∧ stream.writesDoneSent = false
          ∧ stream.driveWrites = ({ stream with writesDoneSent := true }, [.writesDone]))
      ∨ (stream.driveWrites = (stream, [])
          ∧ (stream.started = true → stream.finished = false → stream.writeOutstanding = false
            → stream.writeQueue = [])) := by
  rw [driveWrites]
  split
  · rename_i blocked
    refine .inr (.inr ⟨rfl, fun started unfinished free => ?_⟩)
    simp [started, unfinished, free] at blocked
  · rename_i free
    obtain ⟨⟨started, idle⟩, -⟩ : (stream.started = true ∧ stream.writeOutstanding = false)
        ∧ stream.finished = false := by
      simpa using free
    split
    · rename_i bytes rest queue
      exact .inl ⟨bytes, rest, started, idle, queue, rfl⟩
    · rename_i empty
      split
      · rename_i asked
        obtain ⟨-, unsent⟩ : stream.halfCloseRequested = true ∧ stream.writesDoneSent = false := by
          simpa using asked
        exact .inr (.inl ⟨started, idle, empty, unsent, rfl⟩)
      · exact .inr (.inr ⟨rfl, fun _ _ _ => empty⟩)

theorem Kept.sent_mem (kept : Kept accepted actions completed stream)
    (sent : stream.writesDoneSent = true)
    : .writesDone ∈ actions := by
  refine List.count_pos_iff.mp ?_
  rw [kept.closed, if_pos sent]
  exact Nat.one_pos

theorem Kept.not_mem_of_unsent (kept : Kept accepted actions completed stream)
    (unsent : stream.writesDoneSent = false)
    : .writesDone ∉ actions := by
  refine List.count_eq_zero.mp ?_
  rw [kept.closed, unsent]
  rfl

theorem Kept.driveWrites (kept : Kept accepted actions completed stream)
    : Kept accepted (actions ++ stream.driveWrites.2) completed stream.driveWrites.1 := by
  obtain ⟨order, single, opened, closed⟩ := kept
  rcases stream.driveWrites_cases with
    ⟨bytes, rest, started, free, queue, outcome⟩ | ⟨started, free, empty, unsent, outcome⟩
      | ⟨outcome, -⟩
  · rw [outcome]
    refine ⟨?_, ?_, fun _ => started, ?_⟩
    · rw [order, queue, passed_append, List.append_assoc]
      rfl
    · rw [free] at single
      simp only [passed_append, List.length_append, single]
      rfl
    · rw [List.count_append, closed]
      rfl
  · rw [outcome]
    refine ⟨?_, ?_, fun _ => started, ?_⟩
    · rw [order, passed_append]
      exact congrArg (· ++ _) (List.append_nil _).symm
    · rw [passed_append, List.length_append]
      exact single
    · rw [List.count_append, closed, unsent]
      rfl
  · rw [outcome, List.append_nil]
    exact ⟨order, single, opened, closed⟩

/-- Whether driving the writes writes a message. -/
def WritesNext (stream : BackendStream) : Prop :=
  stream.started = true ∧ stream.finished = false ∧ stream.writeOutstanding = false
    ∧ stream.writeQueue ≠ []

/-- Driving the writes breaks the order of a half-close exactly when it writes after one. -/
theorem Kept.closesLast_driveWrites_iff (kept : Kept accepted actions completed stream)
    (unfinished : stream.finished = false)
    : ClosesLast (actions ++ stream.driveWrites.2)
      ↔ ClosesLast actions ∧ ¬(stream.writesDoneSent = true ∧ stream.WritesNext) := by
  rw [ClosesLast, List.pairwise_append]
  rcases stream.driveWrites_cases with
    ⟨bytes, rest, started, free, queue, outcome⟩ | ⟨started, free, empty, unsent, outcome⟩
      | ⟨outcome, calm⟩
  · have next : stream.WritesNext := ⟨started, unfinished, free, by simp [queue]⟩
    rw [outcome]
    refine and_congr_right fun _ => ⟨?_, ?_⟩
    · rintro ⟨-, cross⟩ ⟨sent, -⟩
      exact cross _ (kept.sent_mem sent) _ (List.mem_singleton_self _) rfl bytes rfl
    · intro unsent
      refine ⟨List.pairwise_singleton _ _, ?_⟩
      rintro earlier member later - rfl
      have absent := kept.not_mem_of_unsent (by simpa using fun sent => unsent ⟨sent, next⟩)
      exact absurd member absent
  · rw [outcome]
    refine and_congr_right fun _ => ⟨fun _ later => ?_, fun _ => ?_⟩
    · exact later.2.2.2.2 empty
    · refine ⟨List.pairwise_singleton _ _, ?_⟩
      rintro earlier member later only - bytes rfl
      cases List.mem_singleton.mp only
  · rw [outcome]
    refine and_congr_right fun _ => ⟨fun _ later => ?_, fun _ => ⟨.nil, nofun⟩⟩
    exact later.2.2.2.2 (calm later.2.1 later.2.2.1 later.2.2.2.1)

/-- Driving the writes leaves nothing behind a half-close, if it writes whatever waits there. -/
theorem Kept.idle_driveWrites (kept : Kept accepted actions completed stream)
    (unfinished : stream.finished = false)
    (idle : ClosesLast actions → stream.writesDoneSent = true
      → stream.writeOutstanding = false ∧ (stream.writeQueue = [] ∨ stream.WritesNext))
    : Idle (actions ++ stream.driveWrites.2) stream.driveWrites.1 := by
  intro last
  obtain ⟨before, noLater⟩ := (kept.closesLast_driveWrites_iff unfinished).mp last
  rcases stream.driveWrites_cases with
    ⟨bytes, rest, started, free, queue, outcome⟩ | ⟨started, free, empty, unsent, outcome⟩
      | ⟨outcome, calm⟩
  · rw [outcome]
    intro sent
    exact absurd ⟨sent, started, unfinished, free, by simp [queue]⟩ noLater
  · rw [outcome]
    exact fun _ => ⟨empty, free⟩
  · rw [outcome]
    intro sent
    obtain ⟨free, empty | next⟩ := idle before sent
    · exact ⟨empty, free⟩
    · exact absurd ⟨sent, next⟩ noLater

-- One event

/-- An event that goes on with the account: what it accepts and completes, and that it breaks the order
of the half-close only when it is a late message.
-/
structure Advances (accepted : List Bytes) (actions : List BackendAction) (completed : Nat)
    (stream : BackendStream) (event : BackendEvent)
    : Prop where
  kept : Kept (accepted ++ stream.accepts event) (actions ++ (stream.handle event).2)
    (completed + if event.completes? = some .write then 1 else 0) (stream.handle event).1
  idle : Idle (actions ++ (stream.handle event).2) (stream.handle event).1
  last_iff : ClosesLast (actions ++ (stream.handle event).2)
    ↔ ClosesLast actions ∧ ¬stream.IsLate event

/-- Actions that neither write nor close. -/
def Silent (actions : List BackendAction) : Prop :=
  ∀ action ∈ actions, action.operation? ≠ some .write ∧ action ≠ .writesDone

theorem Silent.closesLast_iff (silent : Silent more)
    : ClosesLast (actions ++ more) ↔ ClosesLast actions := by
  refine ⟨fun last => (List.pairwise_append.mp last).1, fun last => ?_⟩
  refine List.pairwise_append.mpr ⟨last, ?_, ?_⟩
  · refine List.pairwise_of_forall_mem_list fun earlier member later _ same => ?_
    exact absurd same (silent earlier member).2
  · rintro earlier - later member - bytes rfl
    exact (silent _ member).1 rfl

theorem Kept.silent (kept : Kept accepted actions completed stream) (silent : Silent more)
    : Kept accepted (actions ++ more) completed stream := by
  have none : passed more = [] := by
    refine List.filterMap_eq_nil_iff.mpr fun action member => ?_
    have quiet := (silent action member).1
    cases action <;> first | rfl | exact absurd rfl quiet
  have unclosed : more.count .writesDone = 0 :=
    List.count_eq_zero_of_not_mem fun member => (silent _ member).2 rfl
  obtain ⟨order, single, opened, closed⟩ := kept
  refine ⟨?_, ?_, ?_, ?_⟩
  · rw [passed_append, none, List.append_nil]
    exact order
  · rw [passed_append, none, List.append_nil]
    exact single
  · rw [passed_append, none, List.append_nil]
    exact opened
  · rw [List.count_append, unclosed, Nat.add_zero]
    exact closed

/-- An event that changes none of the fields that count and neither writes nor closes. -/
theorem Kept.advances_of_silent {event : BackendEvent}
    (kept : Kept accepted actions completed stream) (idle : Idle actions stream)
    (silent : Silent (stream.handle event).2)
    (queue : (stream.handle event).1.writeQueue = stream.writeQueue)
    (outstanding : (stream.handle event).1.writeOutstanding = stream.writeOutstanding)
    (started : (stream.handle event).1.started = stream.started)
    (sent : (stream.handle event).1.writesDoneSent = stream.writesDoneSent)
    (refuses : stream.accepts event = []) (noWrite : event.completes? ≠ some .write)
    (timely : ClosesLast actions → ¬stream.IsLate event)
    : Advances accepted actions completed stream event := by
  obtain ⟨order, single, opened, closed⟩ := kept.silent silent
  refine ⟨?_, ?_, ?_⟩
  · rw [refuses, List.append_nil, if_neg noWrite]
    refine ⟨?_, ?_, ?_, ?_⟩
    · rwa [queue]
    · rwa [outstanding]
    · rwa [sent, started]
    · rwa [sent]
  · rw [Idle, silent.closesLast_iff, queue, outstanding, sent]
    exact idle
  · rw [silent.closesLast_iff]
    exact ⟨fun last => ⟨last, timely last⟩, And.left⟩

/-- An event that changes the stream and drives the writes of what that leaves. -/
theorem Kept.advances_of_drives {event : BackendEvent} (changed : BackendStream)
    (kept : Kept (accepted ++ stream.accepts event) actions
      (completed + if event.completes? = some .write then 1 else 0) changed)
    (unfinished : changed.finished = false) (silent : Silent more)
    (handled : stream.handle event = (changed.driveWrites.1, changed.driveWrites.2 ++ more))
    (idle : ClosesLast actions → changed.writesDoneSent = true
      → changed.writeOutstanding = false ∧ (changed.writeQueue = [] ∨ changed.WritesNext))
    (late_iff : ClosesLast actions
      → (changed.writesDoneSent = true ∧ changed.WritesNext ↔ stream.IsLate event))
    : Advances accepted actions completed stream event := by
  have last_iff : ClosesLast (actions ++ (stream.handle event).2)
      ↔ ClosesLast (actions ++ changed.driveWrites.2) := by
    rw [handled, ← List.append_assoc, silent.closesLast_iff]
  refine ⟨?_, ?_, ?_⟩
  · rw [handled, ← List.append_assoc]
    exact kept.driveWrites.silent silent
  · rw [Idle, last_iff, handled]
    exact kept.idle_driveWrites unfinished idle
  · rw [last_iff, kept.closesLast_driveWrites_iff unfinished]
    exact and_congr_right fun last => not_congr (late_iff last)

theorem Kept.advances_clientMessage (kept : Kept accepted actions completed stream)
    (idle : Idle actions stream) (bytes : Bytes)
    : Advances accepted actions completed stream (.clientMessage bytes) := by
  rcases finished : stream.finished with - | -
  · by_cases full : stream.writeQueue.length ≥ kMaxBackendWriteQueue
    · have handled : stream.handle (.clientMessage bytes)
          = ({ stream with overflowLogged := true }, [.tryCancel]) := by
        simp [handle, clientMessage, finished, full]
      refine kept.advances_of_silent idle ?_ ?_ ?_ ?_ ?_ ?_ nofun ?_
      · rw [handled]
        simp [Silent, BackendAction.operation?]
      · rw [handled]
      · rw [handled]
      · rw [handled]
      · rw [handled]
      · simp [accepts, full]
      · rintro last ⟨-, sent, -⟩
        rw [(idle last sent).1] at full
        cases full
    · have handled : stream.handle (.clientMessage bytes) =
          (
            { stream with writeQueue := stream.writeQueue ++ [bytes] }.driveWrites.1,
            { stream with writeQueue := stream.writeQueue ++ [bytes] }.driveWrites.2 ++ []
          ) := by
        simp [handle, clientMessage, finished, full]
      have accepts : stream.accepts (.clientMessage bytes) = [bytes] := by
        simp [accepts, finished, full]
      obtain ⟨order, single, opened, closed⟩ := kept
      have next (last : ClosesLast actions) (sent : stream.writesDoneSent = true)
          : { stream with writeQueue := stream.writeQueue ++ [bytes] }.WritesNext :=
        ⟨opened (.inr sent), finished, (idle last sent).2, by simp⟩
      refine Kept.advances_of_drives { stream with writeQueue := stream.writeQueue ++ [bytes] } ?_
        finished (List.forall_mem_nil _) handled ?_ ?_
      · rw [accepts]
        refine ⟨?_, single, opened, closed⟩
        rw [order, List.append_assoc]
      · exact fun last sent => ⟨(idle last sent).2, .inr (next last sent)⟩
      · exact fun last => ⟨fun both => ⟨finished, both.1, bytes, rfl⟩,
          fun late => ⟨late.2.1, next last late.2.1⟩⟩
  · have handled : stream.handle (.clientMessage bytes) = (stream, []) := by
      simp [handle, clientMessage, finished]
    refine kept.advances_of_silent idle ?_ ?_ ?_ ?_ ?_ ?_ nofun ?_
    · rw [handled]
      exact List.forall_mem_nil _
    · rw [handled]
    · rw [handled]
    · rw [handled]
    · rw [handled]
    · simp [accepts, finished]
    · rintro - ⟨unfinished, -⟩
      cases finished.symm.trans unfinished

theorem Kept.advances_clientHalfClose (kept : Kept accepted actions completed stream)
    (idle : Idle actions stream)
    : Advances accepted actions completed stream .clientHalfClose := by
  rcases finished : stream.finished with - | -
  · have handled : stream.handle .clientHalfClose =
        (
          { stream with halfCloseRequested := true }.driveWrites.1,
          { stream with halfCloseRequested := true }.driveWrites.2 ++ []
        ) := by
      simp [handle, clientHalfClose, finished]
    refine Kept.advances_of_drives { stream with halfCloseRequested := true } ?_ finished
      (List.forall_mem_nil _) handled ?_ ?_
    · simp only [accepts, List.append_nil]
      exact ⟨kept.order, kept.single, kept.opened, kept.closed⟩
    · exact fun last sent => ⟨(idle last sent).2, .inl (idle last sent).1⟩
    · refine fun last => ⟨fun both => ?_, nofun⟩
      exact absurd (idle last both.1).1 both.2.2.2.2
  · have handled : stream.handle .clientHalfClose = (stream, []) := by
      simp [handle, clientHalfClose, finished]
    refine kept.advances_of_silent idle ?_ ?_ ?_ ?_ ?_ rfl nofun nofun
    · rw [handled]
      exact List.forall_mem_nil _
    · rw [handled]
    · rw [handled]
    · rw [handled]
    · rw [handled]

theorem Kept.advances_start (kept : Kept accepted actions completed stream)
    (idle : Idle actions stream) (unfinished : stream.finished = false) (ok : Bool)
    : Advances accepted actions completed stream (.start ok) := by
  cases ok with
  | false =>
      refine kept.advances_of_silent idle ?_ rfl rfl rfl rfl rfl nofun nofun
      simp [Silent, handle, onStart, BackendAction.operation?]
  | true =>
      refine Kept.advances_of_drives { stream with started := true } ?_ unfinished ?_ rfl ?_ ?_
      · simp only [accepts, List.append_nil]
        exact ⟨kept.order, kept.single, fun _ => rfl, kept.closed⟩
      · simp [Silent, BackendAction.operation?]
      · exact fun last sent => ⟨(idle last sent).2, .inl (idle last sent).1⟩
      · refine fun last => ⟨fun both => ?_, nofun⟩
        exact absurd (idle last both.1).1 both.2.2.2.2

theorem Kept.advances_write (kept : Kept accepted actions completed stream)
    (idle : Idle actions stream) (unfinished : stream.finished = false)
    (pending : stream.writeOutstanding = true) (ok : Bool)
    : Advances accepted actions completed stream (.write ok) := by
  have unsent (last : ClosesLast actions) (sent : stream.writesDoneSent = true) : False := by
    cases pending.symm.trans (idle last sent).2
  refine Kept.advances_of_drives { stream with writeOutstanding := false } ?_ unfinished
    (List.forall_mem_nil _) ?_ ?_ ?_
  · simp only [accepts, List.append_nil]
    refine ⟨kept.order, ?_, kept.opened, kept.closed⟩
    rw [kept.single, pending]
    rfl
  · rw [List.append_nil]
    rfl
  · exact fun last sent => (unsent last sent).elim
  · exact fun last => ⟨fun both => (unsent last both.1).elim, nofun⟩

/-- Every event goes on with the account; the pump looks at completions before the end of the call. -/
theorem Kept.advances (kept : Kept accepted actions completed stream) (idle : Idle actions stream)
    {event : BackendEvent} (running : event.completes? ≠ none → stream.finished = false)
    (pending : event.completes? = some .write → stream.writeOutstanding = true)
    : Advances accepted actions completed stream event := by
  cases event with
  | clientMessage bytes => exact kept.advances_clientMessage idle bytes
  | clientHalfClose => exact kept.advances_clientHalfClose idle
  | start ok => exact kept.advances_start idle (running nofun) ok
  | write ok => exact kept.advances_write idle (running nofun) (pending rfl) ok
  | cancel =>
      refine kept.advances_of_silent idle ?_ rfl rfl rfl rfl rfl nofun nofun
      simp [Silent, handle, BackendAction.operation?]
  | read message =>
      cases message with
      | none =>
          refine kept.advances_of_silent idle ?_ rfl rfl rfl rfl rfl nofun nofun
          simp [Silent, handle, BackendAction.operation?]
      | some bytes =>
          refine kept.advances_of_silent idle ?_ rfl rfl rfl rfl rfl nofun nofun
          simp [Silent, handle, BackendAction.operation?]
  | writesDone =>
      exact kept.advances_of_silent idle (List.forall_mem_nil _) rfl rfl rfl rfl rfl nofun nofun
  | finish status =>
      exact kept.advances_of_silent idle (List.forall_mem_nil _) rfl rfl rfl rfl rfl nofun nofun

-- Runs

/-- What a run keeps, in view of its history. -/
structure Tracked (history : BackendHistory) (stream : BackendStream) : Prop where
  kept : Kept (queuedIn history) (emitted history) (completedIn history .write) stream
  idle : Idle (emitted history) stream
  running : completedIn history .finish = 0 → stream.finished = false
  began : stream.started = true → ∃ stage ∈ history, stage.event = .start true

/-- Only the completion of its start starts a call, and only its end ends it. -/
theorem handle_marks (stream : BackendStream) (event : BackendEvent)
    : ((stream.handle event).1.started = true → stream.started = true ∨ event = .start true)
      ∧ ((stream.handle event).1.finished = true
        → stream.finished = true ∨ event.completes? = some .finish) := by
  have driven (changed : BackendStream)
      : changed.driveWrites.1.started = changed.started
        ∧ changed.driveWrites.1.finished = changed.finished := by
    rcases changed.driveWrites_cases with ⟨_, _, _, _, _, outcome⟩ | ⟨_, _, _, _, outcome⟩ | ⟨outcome, _⟩
    all_goals rw [outcome]; exact ⟨rfl, rfl⟩
  cases event with
  | clientMessage bytes =>
      rw [handle, clientMessage]
      split
      · exact ⟨.inl, .inl⟩
      · split
        · exact ⟨.inl, .inl⟩
        · rw [(driven _).1, (driven _).2]
          exact ⟨.inl, .inl⟩
  | clientHalfClose =>
      rw [handle, clientHalfClose]
      split
      · exact ⟨.inl, .inl⟩
      · rw [(driven _).1, (driven _).2]
        exact ⟨.inl, .inl⟩
  | start ok =>
      cases ok with
      | false => exact ⟨.inl, .inl⟩
      | true =>
          refine ⟨fun _ => .inr rfl, fun finished => .inl ?_⟩
          exact (driven { stream with started := true }).2.symm.trans finished
  | write ok =>
      rw [handle, onWrite, (driven _).1, (driven _).2]
      exact ⟨.inl, .inl⟩
  | finish status => exact ⟨.inl, fun _ => .inr rfl⟩
  | cancel => exact ⟨.inl, .inl⟩
  | writesDone => exact ⟨.inl, .inl⟩
  | read message => cases message <;> exact ⟨.inl, .inl⟩

theorem begunIn_write (history : BackendHistory)
    : begunIn history .write = (passed (emitted history)).length := by
  rw [begunIn, if_neg nofun, Nat.add_zero]
  induction emitted history with
  | nil => rfl
  | cons action rest ih =>
      rw [List.countP_cons, ih]
      cases action <;> simp [passed, BackendAction.operation?]

theorem begunIn_writesDone (history : BackendHistory)
    : begunIn history .writesDone = (emitted history).count .writesDone := by
  rw [begunIn, if_neg nofun, Nat.add_zero, List.count]
  refine List.countP_congr fun action _ => ?_
  cases action <;> simp [BackendAction.operation?]

/-- Under the promises of the completion queue an event goes on with the account of a run. -/
theorem Tracked.advances {history : BackendHistory} {event : BackendEvent}
    (tracked : Tracked history stream) (permitted : Delivers history stream event)
    : Advances (queuedIn history) (emitted history) (completedIn history .write) stream event := by
  refine tracked.kept.advances tracked.idle ?_ ?_
  · intro completes
    obtain ⟨operation, same⟩ := Option.ne_none_iff_exists'.mp completes
    exact tracked.running (permitted operation same).2
  · intro completes
    have pending := (permitted .write completes).1
    rw [begunIn_write, tracked.kept.single] at pending
    by_contra free
    rw [if_neg free] at pending
    omega

theorem Tracked.next {history : BackendHistory} {event : BackendEvent}
    (tracked : Tracked history stream) (permitted : Delivers history stream event)
    : Tracked (history ++ [{ before := stream, event, outputs := (stream.handle event).2 }])
        (stream.handle event).1 := by
  obtain ⟨kept, idle, -⟩ := tracked.advances permitted
  obtain ⟨starts, ends⟩ := stream.handle_marks event
  refine ⟨?_, ?_, ?_, ?_⟩
  · have queued : queuedIn (history ++ [{ before := stream, event, outputs := (stream.handle event).2 }])
        = queuedIn history ++ stream.accepts event := by
      simp [queuedIn]
    have done : completedIn
          (history ++ [{ before := stream, event, outputs := (stream.handle event).2 }]) .write
        = completedIn history .write + if event.completes? = some .write then 1 else 0 := by
      simp [completedIn, List.countP_append, List.countP_cons]
    rw [queued, done, emitted_append, emitted_singleton]
    exact kept
  · rw [emitted_append, emitted_singleton]
    exact idle
  · intro open_
    rw [completedIn, List.countP_append, Nat.add_eq_zero_iff] at open_
    by_contra finished
    rcases ends (by simpa using finished) with before | now
    · rw [tracked.running open_.1] at before
      cases before
    · simp [now] at open_
  · intro started
    rcases starts started with before | rfl
    · obtain ⟨stage, member, event⟩ := tracked.began before
      exact ⟨stage, List.mem_append_left _ member, event⟩
    · exact ⟨_, List.mem_append_right _ (List.mem_singleton_self _), rfl⟩

/-- Of the discipline only the order of the half-close is ever at stake. -/
theorem Tracked.disciplined_iff {history : BackendHistory} (tracked : Tracked history stream)
    : WriteDiscipline history ↔ ClosesLast (emitted history) := by
  obtain ⟨⟨order, single, opened, closed⟩, -, -, began⟩ := tracked
  refine ⟨WriteDiscipline.last, fun last => ⟨⟨_, order.symm⟩, ?_, ?_, ?_, last⟩⟩
  · rw [begunIn_write, single]
    split <;> omega
  · exact fun any => began (opened (.inl any))
  · rw [begunIn_writesDone, closed]
    split <;> omega

variable {requestId : Bytes} {origin : Origin} {history : BackendHistory} {last : BackendStream}

theorem run_tracked (run : Run step Delivers { requestId, origin } history last)
    : Tracked history last := by
  refine run.invariant Tracked ?_ ?_
  · exact ⟨⟨rfl, rfl, nofun, rfl⟩, nofun, fun _ => rfl, nofun⟩
  · intro history stream event after outputs _ tracked permitted taken
    obtain ⟨rfl, rfl⟩ := Prod.ext_iff.mp (Except.ok.inj taken)
    exact tracked.next permitted

/-- In every run the writes keep their discipline throughout exactly when no message reaches the call
after its half-close was passed on.
-/
theorem disciplined_iff_timely (run : Run step Delivers { requestId, origin } history last)
    : Throughout (fun history _ => WriteDiscipline history) history last
      ↔ ∀ stage ∈ history, ¬stage.before.IsLate stage.event := by
  refine run.throughout_iff ?_ ?_
  · exact ⟨List.prefix_rfl, Nat.zero_le _, nofun, Nat.zero_le _, .nil⟩
  · intro history stream event after outputs earlier disciplined permitted taken
    obtain ⟨rfl, rfl⟩ := Prod.ext_iff.mp (Except.ok.inj taken)
    have tracked := run_tracked earlier
    rw [(tracked.next permitted).disciplined_iff, emitted_append, emitted_singleton,
      (tracked.advances permitted).last_iff]
    exact ⟨And.right, fun timely => ⟨disciplined.last, timely⟩⟩

/-- A message is written and the half-close follows; then the backend ends the call. -/
def exchanged : List BackendEvent :=
  [
    .clientMessage [1],
    .start true,
    .clientHalfClose,
    .write true,
    .writesDone,
    .read (some [2]),
    .read none,
    .finish {}
  ]

theorem disciplined_iff_timely_exchanged
    : ∃ history last, Run step Delivers { requestId := [9], origin := .here } history last
      ∧ emitted history = [.write [1], .read, .writesDone, .read, .finish]
      ∧ (Throughout (fun history _ => WriteDiscipline history) history last
        ↔ ∀ stage ∈ history, ¬stage.before.IsLate stage.event) := by
  have shown : shows step { requestId := [9], origin := .here } exchanged (fun history =>
      audit (fun front before event => decide (Delivers front before event)) [] history
      && emitted history = [.write [1], .read, .writesDone, .read, .finish]) = true := by
    decide +kernel
  obtain ⟨history, last, run, both⟩ := Run.of_shows shown
  obtain ⟨passes, actions⟩ := Bool.and_eq_true_iff.mp both
  have delivered := run.of_audit (fun _ _ _ => of_decide_eq_true) passes
  exact ⟨history, last, delivered, of_decide_eq_true actions, disciplined_iff_timely delivered⟩

/-- A message that follows the half-close of the client is written after it. -/
theorem late_message_written
    : ¬ ∀ requestId origin history last,
        Run step Delivers { requestId, origin } history last
        → Throughout (fun history _ => WriteDiscipline history) history last := by
  intro always
  have shown : shows step { requestId := [9], origin := .here }
      [.start true, .clientHalfClose, .clientMessage [1]] (fun history =>
        audit (fun front before event => decide (Delivers front before event)) [] history
        && emitted history = [.read, .writesDone, .write [1]]) = true := by
    decide +kernel
  obtain ⟨history, last, run, both⟩ := Run.of_shows shown
  obtain ⟨passes, actions⟩ := Bool.and_eq_true_iff.mp both
  have delivered := run.of_audit (fun _ _ _ => of_decide_eq_true) passes
  have ordered := (always _ _ history last delivered).2.last
  rw [of_decide_eq_true actions] at ordered
  obtain ⟨-, ordered⟩ := List.pairwise_cons.mp ordered
  exact (List.pairwise_cons.mp ordered).1 _ (List.mem_singleton_self _) rfl [1] rfl

end BackendStream

end Creek.Leaf
