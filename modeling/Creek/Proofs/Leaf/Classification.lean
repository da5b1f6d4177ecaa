import Creek.Proofs.Leaf.IngressMoves

/-! The classification of a call. Its first message is held until the second read completes or the
classification window is over, whichever comes first. Either opens the stream, once, and passes on
what was held; from then on everything is passed on as it is read.
-/

namespace Creek.Leaf

open Tight (Bytes)
open Mesh (Endpoint RoutedStreamOpen WireMessage)
open Library

/-- The call of the client that an action of `ingress_forward_frame` passes on. -/
def IngressAction.forwards? : IngressAction → Option ClientCall
  | .clientMessage bytes => some (.message bytes)
  | .clientHalfClose => some .halfClose
  | .toMesh _ _ (.streamFrame frame) =>
      if frame.fromOrigin then some (if frame.halfClose then .halfClose else .message frame.payload)
      else none
  | _ => none

/-- Whether an action opens the stream at the endpoint that `generic_begin_stream` has picked. -/
def IngressAction.opens : IngressAction → Bool
  | .startBackend _ => true
  | .toMesh _ _ (.streamOpen _) => true
  | _ => false

/-- What actions pass on, in order. -/
def forwarded (actions : List IngressAction) : List ClientCall :=
  actions.filterMap IngressAction.forwards?

/-- Everything the client has done in the history of a stream, in order of the completed reads. -/
def callsIn (history : IngressHistory) : List ClientCall :=
  history.flatMap fun stage => stage.event.2.calls

/-- The reads that were begun; a new call has its first read under way. -/
def readsBegun (history : IngressHistory) : Nat := 1 + (emitted history).count .read

def readsCompleted (history : IngressHistory) : Nat :=
  history.countP fun stage => stage.event.2.calls ≠ []

/-- The completion queue completes a read that was begun, once. -/
def ReadsComplete (history : IngressHistory) (_ : IngressStream)
    (event : Surroundings × IngressEvent)
    : Prop :=
  event.2.calls ≠ [] → readsCompleted history < readsBegun history

/-- The stream was opened at most once, and everything the client does is passed on once and in order:
at once when the stream is open, and what is held before is behind a read that will open it. The
half-close comes last, and at most one read is under way.
-/
structure ForwardsOnce (history : IngressHistory) (stream : IngressStream) : Prop where
  opened : (emitted history).countP IngressAction.opens = if stream.phase = .streaming then 1 else 0
  order : forwarded (emitted history) ++ stream.buffered.map .message = callsIn history
  held : stream.buffered ≠ [] → stream.phase = .classifying ∧ stream.readOutstanding = true
  closed : ∀ front back, callsIn history = front ++ .halfClose :: back → back = []
  reading : readsBegun history ≤ readsCompleted history + 1

@[simp] theorem forwarded_append (front back : List IngressAction)
    : forwarded (front ++ back) = forwarded front ++ forwarded back :=
  List.filterMap_append

namespace IngressStream

variable {stream after : IngressStream} {actions front : List IngressAction}
  {around : Surroundings} {event : IngressEvent}

/-- Passing calls on is passing them on in order, and nothing else. -/
theorem forwarded_pass (around : Surroundings) (stream : IngressStream) (calls : List ClientCall)
    : forwarded (calls.map (stream.pass around)) = calls
      ∧ (∀ action ∈ calls.map (stream.pass around), action.opens = false ∧ action ≠ .read) := by
  have one (call : ClientCall)
      : (stream.pass around call).forwards? = some call
        ∧ (stream.pass around call).opens = false
        ∧ stream.pass around call ≠ .read := by
    cases call <;> cases remote : stream.remote <;>
      simp [pass, remote, IngressAction.forwards?, IngressAction.opens]
  constructor
  · induction calls with
    | nil => rfl
    | cons call rest ih =>
        rw [List.map_cons, forwarded, List.filterMap_cons, (one call).1]
        exact congrArg (call :: ·) ih
  · intro action member
    obtain ⟨call, -, rfl⟩ := List.mem_map.mp member
    exact (one call).2

/-- What an event does to a stream that goes on after it. -/
structure Classifies (stream : IngressStream) (event : IngressEvent) (after : IngressStream)
    (actions : List IngressAction)
    : Prop where
  opened : (if stream.phase = .streaming then 1 else 0) + actions.countP IngressAction.opens
    = if after.phase = .streaming then 1 else 0
  order : forwarded actions ++ after.buffered.map .message
    = stream.buffered.map .message ++ event.calls
  held : after.buffered ≠ [] → after.phase = .classifying ∧ after.readOutstanding = true
  reads : (if stream.readOutstanding then 1 else 0) + actions.count .read
    = (if event.calls ≠ [] then 1 else 0) + if after.readOutstanding then 1 else 0

/-- What is held is held for a read under way. -/
def Holds (stream : IngressStream) : Prop :=
  stream.buffered ≠ [] → stream.phase = .classifying ∧ stream.readOutstanding = true

theorem Holds.idle (holds : stream.Holds) (none : event.calls = [])
    (phase : after.phase = stream.phase) (buffered : after.buffered = stream.buffered)
    (reading : after.readOutstanding = stream.readOutstanding) (quiet : forwarded actions = [])
    (unopened : ∀ action ∈ actions, action.opens = false ∧ action ≠ .read)
    : Classifies stream event after actions := by
  have noneOpens : actions.countP IngressAction.opens = 0 :=
    List.countP_eq_zero.mpr fun action member => by simp [(unopened action member).1]
  have noneReads : actions.count .read = 0 :=
    List.count_eq_zero_of_not_mem fun member => (unopened _ member).2 rfl
  refine ⟨?_, ?_, ?_, ?_⟩
  · rw [noneOpens, phase, Nat.add_zero]
  · rw [quiet, none, buffered, List.nil_append, List.append_nil]
  · rw [buffered, phase, reading]
    exact holds
  · rw [noneReads, none, reading, if_neg (not_not.mpr rfl), Nat.add_zero, Nat.zero_add]

/-- Opening a stream that goes on opens it once, passes on what was held, and begins no read. -/
theorem beginStream_forwards {begun : IngressStream} (live : (begun.beginStream around).1.Live)
    : forwarded (begun.beginStream around).2 = begun.buffered.map .message
      ∧ (begun.beginStream around).2.countP IngressAction.opens = 1
      ∧ (begun.beginStream around).2.count .read = 0
      ∧ (begun.beginStream around).1.buffered = [] := by
  have flushed (opened : IngressStream) (opening : IngressAction)
      (opens : opening.opens = true) (silent : opening.forwards? = none)
      : forwarded (opening :: (begun.buffered.map .message).map (opened.pass around))
          = begun.buffered.map .message
        ∧ (opening :: (begun.buffered.map .message).map (opened.pass around)).countP
          IngressAction.opens = 1
        ∧ (opening :: (begun.buffered.map .message).map (opened.pass around)).count .read = 0 := by
    obtain ⟨passed, quiet⟩ := forwarded_pass around opened (begun.buffered.map .message)
    refine ⟨?_, ?_, ?_⟩
    · rw [forwarded, List.filterMap_cons, silent]
      exact passed
    · rw [List.countP_cons_of_pos opens, List.countP_eq_zero.mpr]
      exact fun action member => by simp [(quiet action member).1]
    · refine List.count_eq_zero_of_not_mem fun member => ?_
      rcases List.mem_cons.mp member with rfl | later
      · cases opens
      · exact (quiet _ later).2 rfl
  obtain ⟨endpoint, created, pick⟩ := picked_of_live live
  by_cases own : endpoint.ownerLeaf = around.leafId
  · rw [beginStream_here pick own live]
    obtain ⟨passed, opens, reads⟩ := flushed
      { begun with remote := false, backend := true, buffered := [] } (.startBackend endpoint) rfl rfl
    exact ⟨passed, opens, reads, rfl⟩
  · obtain ⟨-, -, -, running⟩ := beginStream_keeps live
    obtain ⟨opening, opens⟩ := beginStream_there pick own running.1
    rw [opens]
    obtain ⟨passed, once, reads⟩ := flushed
      {
        begun with
        remote := true
        destLeaf := endpoint.ownerLeaf
        destNode := endpoint.ownerNode
        buffered := []
      } (.toMesh endpoint.ownerNode endpoint.ownerLeaf (.streamOpen opening)) rfl rfl
    exact ⟨passed, once, reads, rfl⟩

/-- An event that opens the stream, after other actions, and passes on a half-close or nothing. -/
theorem Classifies.opening {begun : IngressStream} (extra : List ClientCall)
    {reads : Nat} (early : stream.phase ≠ .streaming) (opened : begun.phase = .streaming)
    (before : forwarded front = [] ∧ front.countP IngressAction.opens = 0 ∧ front.count .read = reads)
    (all : begun.buffered.map .message ++ extra = stream.buffered.map .message ++ event.calls)
    (account : (if stream.readOutstanding then 1 else 0) + reads
      = (if event.calls ≠ [] then 1 else 0) + if begun.readOutstanding then 1 else 0)
    (live : (begun.beginStream around).1.Live)
    : Classifies stream event (begun.beginStream around).1
        (front
          ++ ((begun.beginStream around).2
            ++ extra.map ((begun.beginStream around).1.pass around))) := by
  obtain ⟨passed, opens, noReads, empty⟩ := beginStream_forwards live
  obtain ⟨phase, outstanding, -, -⟩ := beginStream_keeps live
  obtain ⟨passedExtra, quiet⟩ :=
    forwarded_pass around (begun.beginStream around).1 extra
  obtain ⟨noneFront, unopened, readsFront⟩ := before
  have noneOpens : (extra.map ((begun.beginStream around).1.pass around)).countP
      IngressAction.opens = 0 :=
    List.countP_eq_zero.mpr fun action member => by simp [(quiet action member).1]
  have noneReads : (extra.map ((begun.beginStream around).1.pass around)).count .read = 0 :=
    List.count_eq_zero_of_not_mem fun member => (quiet _ member).2 rfl
  refine ⟨?_, ?_, ?_, ?_⟩
  · rw [if_neg early, if_pos (phase.trans opened), List.countP_append, List.countP_append, unopened,
      opens, noneOpens]
  · rw [forwarded_append, forwarded_append, noneFront, passed, passedExtra, empty, ← all]
    simp
  · exact fun held => absurd empty held
  · rw [List.count_append, List.count_append, readsFront, noReads, noneReads, outstanding]
    exact account

theorem Holds.streams (holds : stream.Holds) {reads : Nat} (call : ClientCall)
    (open_ : stream.phase = .streaming) (phase : after.phase = .streaming)
    (buffered : after.buffered = stream.buffered)
    (before : forwarded front = [] ∧ front.countP IngressAction.opens = 0 ∧ front.count .read = reads)
    (all : event.calls = [call])
    (account : (if stream.readOutstanding then 1 else 0) + reads
      = 1 + if after.readOutstanding then 1 else 0)
    : Classifies stream event after (front ++ [after.pass around call]) := by
  obtain ⟨passed, quiet⟩ := forwarded_pass around after [call]
  obtain ⟨noneFront, unopened, readsFront⟩ := before
  have empty : stream.buffered = [] := by
    by_contra some
    cases open_.symm.trans (holds some).1
  refine ⟨?_, ?_, ?_, ?_⟩
  · rw [if_pos open_, if_pos phase, List.countP_append, unopened, List.countP_eq_zero.mpr]
    exact fun action member => by simp [(quiet action member).1]
  · rw [forwarded_append, noneFront, buffered, empty, all]
    simpa using passed
  · rw [buffered]
    exact fun some => absurd empty some
  · rw [List.count_append, readsFront, List.count_eq_zero_of_not_mem, all, Nat.add_zero,
      if_pos (List.cons_ne_nil _ _)]
    · exact account
    · exact fun member => (quiet _ member).2 rfl

theorem onRead_classifies (holds : stream.Holds) (attentive : stream.Attentive)
    (reading : stream.readOutstanding = true) {message : Option Bytes}
    (live : (stream.onRead around message).1.Live)
    : Classifies stream (.read message) (stream.onRead around message).1
        (stream.onRead around message).2 := by
  have unstopped := attentive.unstopped reading
  revert live
  rw [onRead]
  split
  · rename_i dead
    intro live
    cases dead.symm.trans live.alive
  · dsimp only
    split
    · exact fun live => absurd live (tryFinish_ends _)
    · split
      · rename_i fresh
        exact absurd fresh attentive.begun
      · rename_i bytes first
        intro live
        refine ⟨?_, ?_, fun _ => ⟨rfl, rfl⟩, ?_⟩
        · simp [first, IngressAction.opens]
        · simp [forwarded, IngressAction.forwards?, IngressEvent.calls]
        · simp [reading, IngressEvent.calls]
      · rename_i first
        intro live
        rw [beginHalfClosed]
        dsimp only
        rw [forwardFrame_halfClose (by exact live.1)]
        exact @Classifies.opening stream [] around _ _ [.halfClose] 0 (by simp [first]) rfl
          ⟨rfl, rfl, rfl⟩ rfl (by simp [reading, IngressEvent.calls]) live
      · rename_i bytes early
        intro live
        have opens := @Classifies.opening stream [.cancelAlarm, .read] around (.read (some bytes))
          {
            stream with
            buffered := stream.buffered ++ [bytes]
            phase := .streaming
            readOutstanding := true
          }
          [] 1 (by simp [early]) rfl ⟨rfl, rfl, rfl⟩ (by simp [IngressEvent.calls])
          (by simp [reading, IngressEvent.calls]) live
        rw [List.map_nil, List.append_nil] at opens
        exact opens
      · rename_i early
        intro live
        rw [beginHalfClosed]
        dsimp only
        rw [forwardFrame_halfClose (by exact live.1)]
        exact @Classifies.opening stream [.cancelAlarm] around _ _ [.halfClose] 0 (by simp [early])
          rfl ⟨rfl, rfl, rfl⟩ rfl (by simp [reading, IngressEvent.calls]) live
      · rename_i bytes open_
        rw [if_neg (by simp [unstopped])]
        intro live
        rw [forwardFrame_message (by exact live.1)]
        exact @Holds.streams stream _ [.read] around _ holds 1 (.message bytes) open_ open_ rfl
          ⟨rfl, rfl, rfl⟩ rfl (by simp [reading])
      · rename_i open_
        rw [if_neg (by simp [unstopped])]
        intro live
        rw [forwardFrame_halfClose (by exact live.1)]
        exact @Holds.streams stream _ [] around _ holds 0 .halfClose open_ open_ rfl ⟨rfl, rfl, rfl⟩
          rfl (by simp [reading])

/-- The end of the classification window, or its cancellation. -/
theorem onAlarm_classifies (holds : stream.Holds) (ok : Bool)
    (live : (stream.onAlarm around ok).1.Live)
    : Classifies stream (.alarm ok) (stream.onAlarm around ok).1 (stream.onAlarm around ok).2 := by
  have nothing : Classifies stream (.alarm ok) stream [] :=
    holds.idle rfl rfl rfl rfl rfl fun _ member => absurd member List.not_mem_nil
  revert live
  rw [onAlarm]
  split
  · exact fun _ => nothing
  · split
    · exact fun _ => nothing
    · rename_i classifying
      have early : stream.phase = .classifying := by simpa using classifying
      intro live
      have opens := @Classifies.opening stream [] around (.alarm ok) { stream with phase := .streaming }
        [] 0 (by simp [early]) rfl ⟨rfl, rfl, rfl⟩ rfl (by simp [IngressEvent.calls]) live
      rw [List.map_nil, List.append_nil] at opens
      exact opens

/-- The completion of a write leaves the classification alone. -/
theorem onWrite_classifies (holds : stream.Holds) (ok : Bool)
    (live : (stream.onWrite around ok).1.Live)
    : Classifies stream (.write ok) (stream.onWrite around ok).1 (stream.onWrite around ok).2 := by
  revert live
  rw [onWrite]
  split
  · rename_i dead
    intro live
    cases dead.symm.trans live.alive
  · dsimp only
    split
    · exact fun live => absurd live (teardown_ends writeFailed _)
    · split
      · split
        · exact fun _ => holds.idle rfl rfl rfl rfl rfl (by simp [IngressAction.opens])
        · split
          · exact fun live => absurd live (tryFinish_ends _)
          · exact fun _ => holds.idle rfl rfl rfl rfl rfl (by simp)
      · split
        · exact fun live => absurd live (tryFinish_ends _)
        · exact fun _ => holds.idle rfl rfl rfl rfl rfl (by simp)

/-- A message of the backend leaves the classification alone. -/
theorem backendMessage_classifies (holds : stream.Holds) (bytes : Bytes)
    (live : (stream.backendMessage around bytes).1.Live)
    : Classifies stream (.backendMessage bytes) (stream.backendMessage around bytes).1
        (stream.backendMessage around bytes).2 := by
  revert live
  rw [IngressStream.backendMessage, queueWrite]
  split
  · exact fun _ => holds.idle rfl rfl rfl rfl rfl (by simp)
  · split
    · split
      · exact fun live => absurd live (teardown_ends clientReadStall _)
      · exact fun _ => holds.idle rfl rfl rfl rfl rfl (by simp)
    · exact fun _ => holds.idle rfl rfl rfl rfl rfl (by simp [IngressAction.opens])

/-- Every event after which the stream goes on opens the stream or leaves it open, and passes on or
holds what the client does in it.
-/
theorem handle_classifies {event : IngressEvent} (holds : stream.Holds)
    (attentive : stream.Attentive)
    (reading : ∀ message, event = .read message → stream.readOutstanding = true)
    (live : (stream.handle around event).1.Live)
    : Classifies stream event (stream.handle around event).1 (stream.handle around event).2 := by
  cases event with
  | read message => exact onRead_classifies holds attentive (reading message rfl) live
  | write ok => exact onWrite_classifies holds ok live
  | finish => cases live.alive
  | alarm ok => exact onAlarm_classifies holds ok live
  | backendMessage bytes => exact backendMessage_classifies holds bytes live
  | backendClosed status => exact absurd live (backendClosed_ends status _)
  | teardown status => exact absurd live (teardown_ends status _)

-- Runs

theorem live_of_handle {event : IngressEvent} (live : (stream.handle around event).1.Live)
    : stream.Live := by
  revert live
  cases event with
  | finish => exact fun live => by cases live.alive
  | backendClosed status => exact fun live => absurd live (backendClosed_ends status _)
  | teardown status => exact fun live => absurd live (teardown_ends status _)
  | alarm ok =>
      rw [handle, onAlarm]
      split
      · exact id
      · split
        · exact id
        · exact fun live => (beginStream_keeps live).2.2.2
  | backendMessage bytes =>
      rw [handle, IngressStream.backendMessage, queueWrite]
      split
      · exact id
      · split
        · split
          · exact fun live => absurd live (teardown_ends clientReadStall _)
          · exact id
        · exact id
  | write ok =>
      rw [handle, onWrite]
      split
      · exact id
      · dsimp only
        split
        · exact fun live => absurd live (teardown_ends writeFailed _)
        · split
          · split
            · exact id
            · split
              · exact fun live => absurd live (tryFinish_ends _)
              · exact id
          · split
            · exact fun live => absurd live (tryFinish_ends _)
            · exact id
  | read message =>
      rw [handle, onRead]
      split
      · exact id
      · rename_i alive
        dsimp only
        split
        · exact fun live => absurd live (tryFinish_ends _)
        · rename_i going
          intro _
          simp only [Bool.or_eq_true, not_or, Bool.not_eq_true] at going alive
          exact ⟨by simp [isOver, alive, going.2], going.1⟩

/-- What a run keeps as long as the stream goes on. -/
structure Followed (history : IngressHistory) (stream : IngressStream) : Prop where
  attentive : stream.Attentive
  holds : stream.Holds
  opened : (emitted history).countP IngressAction.opens = if stream.phase = .streaming then 1 else 0
  order : forwarded (emitted history) ++ stream.buffered.map .message = callsIn history
  reads : readsBegun history = readsCompleted history + if stream.readOutstanding then 1 else 0
  closing : .halfClose ∈ callsIn history → stream.readOutstanding = false
  closed : ∀ front back, callsIn history = front ++ .halfClose :: back → back = []

/-- An event after which the stream goes on follows what the client did before. -/
theorem Followed.next {history : IngressHistory}
    {stage : Stage IngressStream (Surroundings × IngressEvent) IngressAction}
    (followed : Followed history stage.before)
    (permitted : ReadsComplete history stage.before stage.event)
    (outputs : stage.outputs = (stage.before.handle stage.event.1 stage.event.2).2)
    (live : (stage.before.handle stage.event.1 stage.event.2).1.Live)
    : Followed (history ++ [stage]) (stage.before.handle stage.event.1 stage.event.2).1 := by
  obtain ⟨attentive, holds, opened, order, reads, closing, closed⟩ := followed
  have outstanding (reading : stage.event.2.calls ≠ []) : stage.before.readOutstanding = true := by
    have pending := permitted reading
    rw [reads] at pending
    by_contra idle
    rw [if_neg idle] at pending
    omega
  have reading : ∀ message, stage.event.2 = .read message → stage.before.readOutstanding = true := by
    intro message read
    refine outstanding ?_
    rw [read]
    cases message <;> exact List.cons_ne_nil _ _
  have passes := handle_passes attentive reading live
  have classifies := handle_classifies holds attentive reading live
  rw [← outputs] at passes classifies
  have calls : callsIn (history ++ [stage]) = callsIn history ++ stage.event.2.calls := by
    simp [callsIn]
  have completed : readsCompleted (history ++ [stage])
      = readsCompleted history + if stage.event.2.calls ≠ [] then 1 else 0 := by
    simp [readsCompleted, List.countP_append, List.countP_cons]
  refine ⟨passes.attentive, classifies.held, ?_, ?_, ?_, ?_, ?_⟩
  · rw [emitted_append, emitted_singleton, List.countP_append, opened]
    exact classifies.opened
  · rw [emitted_append, emitted_singleton, forwarded_append, List.append_assoc, classifies.order,
      ← List.append_assoc, order, calls]
  · have account := classifies.reads
    rw [readsBegun] at reads ⊢
    rw [emitted_append, emitted_singleton, List.count_append, completed]
    omega
  · rw [calls]
    intro member
    rcases List.mem_append.mp member with earlier | now
    · by_contra still
      cases (closing earlier).symm.trans (passes.reading (by simpa using still))
    · exact passes.closed now
  · rw [calls]
    intro front back split
    by_cases none : stage.event.2.calls = []
    · rw [none, List.append_nil] at split
      exact closed front back split
    · rcases List.eq_nil_or_concat back with rfl | ⟨rest, final, rfl⟩
      · rfl
      · -- the half-close was done before, so no read was under way
        obtain ⟨call, only⟩ : ∃ call, stage.event.2.calls = [call] := by
          revert none
          generalize stage.event.2 = event
          intro none
          cases event with
          | read message => cases message <;> exact ⟨_, rfl⟩
          | _ => exact absurd rfl none
        rw [only, List.concat_eq_append, ← List.cons_append, ← List.append_assoc] at split
        have before := (List.append_inj' split rfl).1
        have idle := closing (before ▸ List.mem_append_right _ List.mem_cons_self)
        cases idle.symm.trans (outstanding none)

variable {requestId method : Bytes} {metadata : List (Bytes × Bytes)} {history : IngressHistory}
  {last : IngressStream}

theorem run_followed (run : Run step ReadsComplete (newCall requestId method metadata) history last)
    : last.Live → Followed history last := by
  refine run.invariant (fun history stream => stream.Live → Followed history stream) ?_ ?_
  · refine fun _ => ⟨⟨nofun, nofun⟩, nofun, rfl, rfl, rfl, nofun, ?_⟩
    intro front back split
    cases (List.append_eq_nil_iff.mp split.symm).2
  · rintro history stream ⟨around, event⟩ after outputs _ followed permitted taken live
    obtain ⟨rfl, rfl⟩ := Prod.ext_iff.mp (Except.ok.inj taken)
    exact @Followed.next history { before := stream, event := (around, event), outputs := _ }
      (followed (live_of_handle live)) permitted rfl live

/-- In every run, as long as no finish has been requested, the stream is opened at most once and what
the client does is forwarded once and in order.
-/
theorem forwards_once (run : Run step ReadsComplete (newCall requestId method metadata) history last)
    : Throughout (fun history stream => stream.Live → ForwardsOnce history stream) history last := by
  refine run.throughout fun history stream run live => ?_
  obtain ⟨-, holds, opened, order, reads, -, closed⟩ := run_followed run live
  refine ⟨opened, order, holds, closed, ?_⟩
  rw [reads]
  split <;> omega

/-- The surroundings at a leaf that picks its own endpoint. -/
def picking : Surroundings where
  leafId := [1]
  nodeId := [2]
  pick := .picked { ownerLeaf := [1] } true
  deadlineMs := 0

/-- The window ends before the second read; the client sends two messages and half-closes. -/
theorem forwards_once_slowWriter
    : ∃ history last, Run step ReadsComplete (newCall [7] [8] []) history last
      ∧ forwarded (emitted history) = [.message [3], .message [4], .halfClose]
      ∧ Throughout (fun history stream => stream.Live → ForwardsOnce history stream) history last := by
  have shown : shows step (newCall [7] [8] [])
      [
        (picking, .read (some [3])),
        (picking, .alarm true),
        (picking, .read (some [4])),
        (picking, .read none)
      ]
      (fun history =>
        audit (fun front _ event => event.2.calls = [] || readsCompleted front < readsBegun front) []
          history
        && forwarded (emitted history) = [.message [3], .message [4], .halfClose]) = true := by
    decide +kernel
  obtain ⟨history, last, run, both⟩ := Run.of_shows shown
  obtain ⟨passes, order⟩ := Bool.and_eq_true_iff.mp both
  have reading : Run step ReadsComplete (newCall [7] [8] []) history last := by
    refine run.of_audit (fun front before event check calls => ?_) passes
    simpa [calls] using check
  exact ⟨history, last, reading, of_decide_eq_true order, forwards_once reading⟩

end IngressStream

end Creek.Leaf
